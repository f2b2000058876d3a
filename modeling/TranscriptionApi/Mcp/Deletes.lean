import TranscriptionApi.Lib.Transition
import TranscriptionApi.Mcp.Tools

/-!
Histories of `delete_transcription`, by any users and in any order.

A call sends two UPDATEs, the second one if the first one has hit a row. Both ask
for `deleted_at IS NULL` and the listener adds the owner, so a row that has been
deleted is out of reach of every later call. This is the same argument for the two
tables, and `Tombstones` is what it needs to know of one: which rows a call hits,
that these are not deleted yet, and what is found in the table afterwards.
-/

namespace TranscriptionApi.Mcp

open Db Lib Python

structure DeleteCall where
  userId : Uuid
  transcriptionId : String
  /-- the `now()` of its transaction -/
  at_ : ℤ

def runDelete (db : Database) (c : DeleteCall) : Except Failure Unit × Database :=
  deleteTranscription c.at_ c.userId c.transcriptionId db

def deletes : System Database DeleteCall where
  step := fun db c => some (runDelete db c).2

theorem deletes_step (db : Database) (c : DeleteCall) :
    deletes.step db c = some (runDelete db c).2 := rfl

/-- The first UPDATE of the call hits this row. -/
def hitsTranscription (c : DeleteCall) (r : Transcription) : Bool :=
  match uuid c.transcriptionId with
  | none => false
  | some tid => scopedTo Transcription.userId c.userId (liveTranscription tid) r

/-- The second UPDATE of the call is sent, and hits this row. -/
def hitsImage (db : Database) (c : DeleteCall) (img : Image) : Bool :=
  match uuid c.transcriptionId with
  | none => false
  | some tid => db.transcriptions.rows.any (hitsTranscription c) &&
      scopedTo Image.userId c.userId (liveImageOf tid) img

/-! ### One call -/

/-- What is asked of a call. -/
structure DeleteLaw (db : Database) (c : DeleteCall) (db' : Database) : Prop where
  succeeds : (runDelete db c).1 = .ok () ↔ ∃ tid r, uuid c.transcriptionId = some tid ∧
    db.transcriptions.find? tid = some r ∧ r.userId = c.userId ∧ r.deletedAt = none
  rejected : (runDelete db c).1 ≠ .ok () → db' = db
  /-- the id is unknown, or of another user, or of a deleted row -/
  sameError : ∀ tid, uuid c.transcriptionId = some tid → (runDelete db c).1 ≠ .ok () →
    (runDelete db c).1 =
      .error (raiseToolError "TRANSCRIPTION_NOT_FOUND" "transcription not found" 404)
  /-- the other tables stay, and so does every other column -/
  changes : (runDelete db c).1 = .ok () → ∀ tid, uuid c.transcriptionId = some tid →
    db' = { db with transcriptions := db'.transcriptions, images := db'.images } ∧
    db'.transcriptions.rows = db.transcriptions.rows.map (fun r =>
      if r.id = tid then { r with deletedAt := some c.at_ } else r) ∧
    db'.images.rows = db.images.rows.map fun img =>
      if img.transcriptionId = tid ∧ img.userId = c.userId ∧ img.deletedAt.isNone then
        { img with deletedAt := some c.at_ } else img

section Call

variable {db : Database} {c : DeleteCall} {tid : Uuid}

theorem any_hitsTranscription (htid : uuid c.transcriptionId = some tid) :
    db.transcriptions.rows.any (hitsTranscription c) = true ↔
      ∃ r, db.transcriptions.find? tid = some r ∧ r.userId = c.userId ∧ r.deletedAt = none := by
  simp only [List.any_eq_true, hitsTranscription, htid, scopedTo_eq_true, liveTranscription,
    Bool.and_eq_true, decide_eq_true_eq, Option.isNone_iff_eq_none, Table.find?_eq_some_iff]
  constructor
  · rintro ⟨r, hr, ⟨hid, hlive⟩, huser⟩
    exact ⟨r, ⟨hr, hid⟩, huser, hlive⟩
  · rintro ⟨r, ⟨hr, hid⟩, huser, hlive⟩
    exact ⟨r, hr, ⟨hid, hlive⟩, huser⟩

/-- The rowcount of the first UPDATE decides. -/
theorem runDelete_eq (htid : uuid c.transcriptionId = some tid) : runDelete db c =
    if db.transcriptions.rows.any (hitsTranscription c) then
      (.ok (), softDelete c.at_ c.userId tid db)
    else (.error (raiseToolError "TRANSCRIPTION_NOT_FOUND" "transcription not found" 404), db) := by
  have hcount : (scopedSelect db.transcriptions Transcription.userId c.userId
      (liveTranscription tid)).length = 0 ↔
        ¬ db.transcriptions.rows.any (hitsTranscription c) = true := by
    rw [List.length_eq_zero_iff, scopedSelect, Table.select, List.filter_eq_nil_iff]
    simp [hitsTranscription, htid]
  rw [runDelete, deleteTranscription_eq htid]
  by_cases hhit : db.transcriptions.rows.any (hitsTranscription c) = true
  · rw [if_pos hhit, if_neg fun hzero => hcount.mp hzero hhit]
  · rw [if_neg hhit, if_pos (hcount.mpr hhit)]

/-- The rows of the first UPDATE are the ones the listener leaves of it. -/
theorem execute_hitsTranscription (htid : uuid c.transcriptionId = some tid) :
    execute (.armed c.userId)
        (.single .update (.entity .transcription) (onTranscriptions (liveTranscription tid))) db =
      .ok ((db.transcriptions.select (hitsTranscription c)).map
        fun r => [⟨.entity .transcription, some (.transcription r)⟩]) := by
  have hhits : hitsTranscription c =
      scopedTo Transcription.userId c.userId (liveTranscription tid) := by
    funext r
    simp only [hitsTranscription, htid]
  rw [execute_transcriptions c.userId _ db (by decide), scopedSelect, hhits]

/-- The same of the second one, once it is sent. -/
theorem execute_hitsImage (htid : uuid c.transcriptionId = some tid)
    (hsent : db.transcriptions.rows.any (hitsTranscription c) = true) :
    execute (.armed c.userId) (.single .update (.entity .image) (onImages (liveImageOf tid))) db =
      .ok ((db.images.select (hitsImage db c)).map
        fun r => [⟨.entity .image, some (.image r)⟩]) := by
  have hhits : hitsImage db c = scopedTo Image.userId c.userId (liveImageOf tid) := by
    funext img
    simp only [hitsImage, htid, hsent, Bool.true_and]
  rw [execute_images c.userId _ db (by decide), scopedSelect, hhits]

theorem runDelete_fst (htid : uuid c.transcriptionId = some tid) :
    (runDelete db c).1 = .ok () ↔ db.transcriptions.rows.any (hitsTranscription c) = true := by
  rw [runDelete_eq htid]
  split
  · rename_i hhit
    exact ⟨fun _ => hhit, fun _ => rfl⟩
  · rename_i hmiss
    constructor
    · intro hok
      cases hok
    · exact fun hhit => absurd hhit hmiss

theorem runDelete_malformed (htid : uuid c.transcriptionId = none) :
    runDelete db c = (.error (notAUuid "transcription_id" c.transcriptionId), db) := by
  simp only [runDelete, deleteTranscription, htid]

/-- The row of an id is the only one the first UPDATE may hit. -/
theorem softDelete_transcriptions {u : Uuid} {at_ : ℤ} {r : Transcription}
    (hr : db.transcriptions.find? tid = some r) (huser : r.userId = u)
    (hlive : r.deletedAt = none) :
    (softDelete at_ u tid db).transcriptions.rows = db.transcriptions.rows.map fun r' =>
      if r'.id = tid then { r' with deletedAt := some at_ } else r' := by
  refine List.map_congr_left fun r' hr' => ?_
  by_cases hid : r'.id = tid
  · obtain rfl : r' = r := by
      have hfound := Table.find?_of_mem hr'
      rw [hid, hr] at hfound
      exact (Option.some.inj hfound).symm
    rw [if_pos hid, if_pos]
    · rfl
    · simp [scopedTo, liveTranscription, hid, huser, hlive]
  · rw [if_neg hid, if_neg]
    simp [scopedTo, liveTranscription, hid]

theorem softDelete_images {u : Uuid} {at_ : ℤ} :
    (softDelete at_ u tid db).images.rows = db.images.rows.map fun img =>
      if img.transcriptionId = tid ∧ img.userId = u ∧ img.deletedAt.isNone then
        { img with deletedAt := some at_ } else img := by
  refine List.map_congr_left fun img _ => ?_
  by_cases himg : img.transcriptionId = tid ∧ img.userId = u ∧ img.deletedAt.isNone
  · rw [if_pos himg, if_pos]
    · rfl
    · simp [scopedTo, liveImageOf, himg]
  · rw [if_neg himg, if_neg]
    simp only [scopedTo, liveImageOf, Bool.and_eq_true, decide_eq_true_eq]
    rintro ⟨⟨hparent, hlive⟩, huser⟩
    exact himg ⟨hparent, huser, hlive⟩

theorem succeeds_iff : (runDelete db c).1 = .ok () ↔ ∃ tid r, uuid c.transcriptionId = some tid ∧
    db.transcriptions.find? tid = some r ∧ r.userId = c.userId ∧ r.deletedAt = none := by
  cases htid : uuid c.transcriptionId with
  | none => simp [runDelete_malformed htid]
  | some tid => simp [runDelete_fst htid, any_hitsTranscription htid]

theorem deleteLaw (db : Database) (c : DeleteCall) : DeleteLaw db c (runDelete db c).2 where
  succeeds := succeeds_iff
  rejected := fun hrejected => by
    cases htid : uuid c.transcriptionId with
    | none => rw [runDelete_malformed htid]
    | some tid => rw [runDelete_eq htid, if_neg ((runDelete_fst htid).not.mp hrejected)]
  sameError := fun tid htid hrejected => by
    rw [runDelete_eq htid, if_neg ((runDelete_fst htid).not.mp hrejected)]
  changes := fun hok tid htid => by
    obtain ⟨r, hr, huser, hlive⟩ := (any_hitsTranscription htid).mp ((runDelete_fst htid).mp hok)
    rw [runDelete_eq htid, if_pos ((runDelete_fst htid).mp hok)]
    exact ⟨rfl, softDelete_transcriptions hr huser hlive, softDelete_images⟩

end Call

/-! ### Write-once -/

/-- What a table of rows with a `deleted_at` says of the calls. -/
structure Tombstones (α : Type) (key : α → Uuid) where
  table : Database → Table α key
  deletedAt : α → Option ℤ
  mark : ℤ → α → α
  /-- the rows an UPDATE of the call hits -/
  hits : Database → DeleteCall → α → Bool
  deletedAt_mark : ∀ at_ r, deletedAt (mark at_ r) = some at_
  hits_live : ∀ db c r, hits db c r = true → deletedAt r = none
  find?_runDelete : ∀ db c i, (table (runDelete db c).2).find? i =
    ((table db).find? i).map fun r => if hits db c r then mark c.at_ r else r

namespace Tombstones

variable {α : Type} {key : α → Uuid} (T : Tombstones α key) {db db' : Database}

/-- How often the calls write the `deleted_at` of the row. -/
def writes (i : Uuid) : Database → List DeleteCall → ℕ
  | _, [] => 0
  | db, c :: cs => (if ((T.table db).find? i).any (T.hits db c) then 1 else 0) +
      writes i (runDelete db c).2 cs

/-- No row, or a deleted one. -/
def Settled (i : Uuid) (db : Database) : Prop :=
  ∀ r, (T.table db).find? i = some r → (T.deletedAt r).isSome = true

theorem not_hit_of_settled {i : Uuid} (h : T.Settled i db) (c : DeleteCall) :
    ((T.table db).find? i).any (T.hits db c) = false ∧
      (T.table (runDelete db c).2).find? i = (T.table db).find? i := by
  rw [T.find?_runDelete]
  cases hfind : (T.table db).find? i with
  | none => exact ⟨rfl, rfl⟩
  | some r =>
      have hmiss : T.hits db c r = false := by
        cases hhit : T.hits db c r with
        | false => rfl
        | true =>
            have hsome := h r hfind
            rw [T.hits_live db c r hhit] at hsome
            cases hsome
      exact ⟨hmiss, by rw [Option.map_some, hmiss]; rfl⟩

/-- A deleted row stays as it is. -/
theorem find?_run {i : Uuid} (h : T.Settled i db) {cs : List DeleteCall}
    (hrun : deletes.run db cs = some db') : (T.table db').find? i = (T.table db).find? i := by
  induction cs generalizing db with
  | nil =>
      cases hrun
      rfl
  | cons c cs ih =>
      have hsame := (T.not_hit_of_settled h c).2
      have hnext : T.Settled i (runDelete db c).2 := fun r hr => h r (hsame ▸ hr)
      rw [System.run_cons, deletes_step, Option.bind_some] at hrun
      exact (ih hnext hrun).trans hsame

theorem writes_of_settled {i : Uuid} (h : T.Settled i db) (cs : List DeleteCall) :
    T.writes i db cs = 0 := by
  induction cs generalizing db with
  | nil => rfl
  | cons c cs ih =>
      obtain ⟨hmiss, hsame⟩ := T.not_hit_of_settled h c
      rw [writes, hmiss, ih fun r hr => h r (hsame ▸ hr)]
      rfl

theorem writes_le_one (i : Uuid) (db : Database) (cs : List DeleteCall) :
    T.writes i db cs ≤ 1 := by
  induction cs generalizing db with
  | nil => exact Nat.zero_le 1
  | cons c cs ih =>
      rw [writes]
      split
      · -- the row is deleted from here on
        rename_i hhit
        have hsettled : T.Settled i (runDelete db c).2 := by
          intro r' hr'
          rw [T.find?_runDelete] at hr'
          obtain ⟨r, hr, rfl⟩ := Option.map_eq_some_iff.mp hr'
          rw [hr, Option.any_some] at hhit
          rw [if_pos hhit, T.deletedAt_mark]
          rfl
        rw [T.writes_of_settled hsettled]
      · have := ih (runDelete db c).2
        omega

end Tombstones

/-! ### The two tables -/

theorem find?_transcriptions_runDelete (db : Database) (c : DeleteCall) (i : Uuid) :
    (runDelete db c).2.transcriptions.find? i = (db.transcriptions.find? i).map fun r =>
      if hitsTranscription c r then softDeleteTranscription c.at_ r else r := by
  cases htid : uuid c.transcriptionId with
  | none => simp [runDelete_malformed htid, hitsTranscription, htid]
  | some tid =>
      rw [runDelete_eq htid]
      split
      · simp only [hitsTranscription, htid]
        exact Table.find?_update db.transcriptions _ (softDeleteTranscription c.at_)
          (fun _ => rfl) i
      · rename_i hmiss
        cases hfind : db.transcriptions.find? i with
        | none => rfl
        | some r =>
            have hr : ¬ hitsTranscription c r = true := fun hhit =>
              hmiss (List.any_eq_true.mpr ⟨r, Table.mem_of_find? hfind, hhit⟩)
            rw [Option.map_some, if_neg hr]

theorem find?_images_runDelete (db : Database) (c : DeleteCall) (i : Uuid) :
    (runDelete db c).2.images.find? i = (db.images.find? i).map fun img =>
      if hitsImage db c img then softDeleteImage c.at_ img else img := by
  cases htid : uuid c.transcriptionId with
  | none => simp [runDelete_malformed htid, hitsImage, htid]
  | some tid =>
      rw [runDelete_eq htid]
      split
      · rename_i hsent
        simp only [hitsImage, htid, hsent, Bool.true_and]
        exact Table.find?_update db.images _ (softDeleteImage c.at_) (fun _ => rfl) i
      · rename_i hmiss
        simp only [hitsImage, htid, hmiss, Bool.false_and, Bool.false_eq_true, if_false]
        exact Option.map_id'.symm

theorem hitsTranscription_live (_ : Database) (c : DeleteCall) (r : Transcription)
    (h : hitsTranscription c r = true) : r.deletedAt = none := by
  unfold hitsTranscription at h
  split at h
  · cases h
  · have hlive := (scopedTo_eq_true.mp h).1
    simp only [liveTranscription, Bool.and_eq_true, Option.isNone_iff_eq_none] at hlive
    exact hlive.2

theorem hitsImage_live (db : Database) (c : DeleteCall) (img : Image)
    (h : hitsImage db c img = true) : img.deletedAt = none := by
  unfold hitsImage at h
  split at h
  · cases h
  · have hlive := (scopedTo_eq_true.mp (Bool.and_eq_true_iff.mp h).2).1
    simp only [liveImageOf, Bool.and_eq_true, Option.isNone_iff_eq_none] at hlive
    exact hlive.2

theorem deletedAt_softDeleteTranscription (at_ : ℤ) (r : Transcription) :
    (softDeleteTranscription at_ r).deletedAt = some at_ := rfl

theorem deletedAt_softDeleteImage (at_ : ℤ) (img : Image) :
    (softDeleteImage at_ img).deletedAt = some at_ := rfl

def transcriptionTombstones : Tombstones Transcription Transcription.id where
  table := Database.transcriptions
  deletedAt := Transcription.deletedAt
  mark := softDeleteTranscription
  hits := fun _ => hitsTranscription
  deletedAt_mark := deletedAt_softDeleteTranscription
  hits_live := hitsTranscription_live
  find?_runDelete := find?_transcriptions_runDelete

def imageTombstones : Tombstones Image Image.id where
  table := Database.images
  deletedAt := Image.deletedAt
  mark := softDeleteImage
  hits := hitsImage
  deletedAt_mark := deletedAt_softDeleteImage
  hits_live := hitsImage_live
  find?_runDelete := find?_images_runDelete

/-! ### Histories -/

/-- What is asked of the calls from a database on. -/
structure DeleteHistory (db : Database) (cs : List DeleteCall) : Prop where
  laws : deletes.Along DeleteLaw db cs
  transcriptionOnce : ∀ i, transcriptionTombstones.writes i db cs ≤ 1
  imageOnce : ∀ i, imageTombstones.writes i db cs ≤ 1
  /-- a row that is deleted is the same after any further calls -/
  transcriptionStays : ∀ db' i r, deletes.run db cs = some db' →
    db.transcriptions.find? i = some r → r.deletedAt.isSome = true →
      db'.transcriptions.find? i = some r
  imageStays : ∀ db' i img, deletes.run db cs = some db' → db.images.find? i = some img →
    img.deletedAt.isSome = true → db'.images.find? i = some img

theorem settled_of_find? {α : Type} {key : α → Uuid} (T : Tombstones α key) {db : Database}
    {i : Uuid} {r : α} (hr : (T.table db).find? i = some r)
    (hdeleted : (T.deletedAt r).isSome = true) :
    T.Settled i db := by
  intro r' hr'
  rw [hr] at hr'
  cases hr'
  exact hdeleted

theorem delete_history (db : Database) (cs : List DeleteCall) : DeleteHistory db cs where
  laws := deletes.along_of_invariant (I := fun _ => True) (fun _ _ _ _ _ => trivial)
    (fun db c db' _ hstep => by
      rw [deletes_step] at hstep
      rw [← Option.some.inj hstep]
      exact deleteLaw db c) trivial
  transcriptionOnce := fun i => transcriptionTombstones.writes_le_one i db cs
  imageOnce := fun i => imageTombstones.writes_le_one i db cs
  transcriptionStays := fun db' i r hrun hr hdeleted =>
    (transcriptionTombstones.find?_run
      (settled_of_find? transcriptionTombstones hr hdeleted) hrun).trans hr
  imageStays := fun db' i img hrun hr hdeleted =>
    (imageTombstones.find?_run (settled_of_find? imageTombstones hr hdeleted) hrun).trans hr

end TranscriptionApi.Mcp
