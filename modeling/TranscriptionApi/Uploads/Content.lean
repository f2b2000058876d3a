import TranscriptionApi.Uploads.Invariants

/-!
What the service does to transcriptions and images.

Rows of both tables are inserted under fresh ids and never removed; a delete
only sets `deleted_at`. So a lookup that has found a row keeps finding it, with
the same owner, and a row that is deleted stays so. A delete that has got past its
first UPDATE therefore still has its transcription when it commits.
-/

namespace TranscriptionApi.Uploads

open Api Auth Db Lib Mcp Pipeline Python

/-- How a step changes the transcriptions and the images. -/
inductive ContentChange (w w' : World) (e : Event) : Prop
  | same (ht : w'.db.transcriptions = w.db.transcriptions) (hi : w'.db.images = w.db.images)
  | deleted (p : ℕ) (del : Deletion) (found : List Uuid)
      (hc : CommitsDelete w e p del found)
      (ht : w'.db.transcriptions = (del.apply found w.db).transcriptions)
      (hi : w'.db.images = (del.apply found w.db).images)
  | inserted (tx : Transcription)
      (ht : w.db.transcriptions.insert? tx = some w'.db.transcriptions)
      (hi : w'.db.images = w.db.images)
  | attached (p : ℕ) (row : UploadSession) (at_ : ℤ) (img : Image)
      (hc : Commits w e p (.imageUploaded row at_ img))
      (ht : w'.db.transcriptions = w.db.transcriptions)
      (hi : w.db.images.insert? img = some w'.db.images)

/-- A later version of a transcription. -/
structure StaysIn (a b : Transcription) : Prop where
  id : b.id = a.id
  userId : b.userId = a.userId
  deletedAt : a.deletedAt.isSome → b.deletedAt.isSome

section

variable {sv : Service} {w w' : World} {e : Event}

theorem Moves.content (h : Moves sv w e w') : ContentChange w w' e := by
  cases h with
  | deleted p a rm del found ha hp => exact .deleted p del found ⟨⟨a, rm, rfl, ha⟩, hp⟩ rfl rfl
  | posted e tx t hinsert => exact .inserted tx hinsert rfl
  | updated p rm wr locks hp =>
      have hdb : (w.leaveTry rm wr).db = w.db := leaveTry_db rm wr
      exact .same (congrArg _ hdb) (congrArg _ hdb)
  | committed p a rm wr db ha hp hdb =>
      cases wr with
      | imageUploaded row at_ img =>
          obtain ⟨t, ht, rfl⟩ := Option.map_eq_some_iff.mp hdb
          exact .attached p row at_ img ⟨⟨a, rm, rfl, ha⟩, hp⟩ rfl ht
      | consumed row at_ tx r =>
          obtain ⟨t, ht, rfl⟩ := Option.map_eq_some_iff.mp hdb
          exact .inserted tx ht rfl
      | _ =>
          obtain rfl := Option.some.inj hdb
          exact .same rfl rfl
  | _ => exact .same rfl rfl

theorem find?_deleted (del : Deletion) (found : List Uuid) (db : Database) (i : Uuid) :
    (del.apply found db).transcriptions.find? i =
      (db.transcriptions.find? i).map fun r =>
        if r.id = del.tid then softDeleteTranscription del.since r else r := by
  refine (Table.find?_update db.transcriptions _ (softDeleteTranscription del.since)
    (fun _ => rfl) i).trans ?_
  simp only [decide_eq_true_eq]

theorem mem_deleted_images {del : Deletion} {found : List Uuid} {db : Database} {img' : Image} :
    img' ∈ (del.apply found db).images.rows ↔ ∃ img ∈ db.images.rows, img' =
      if img.id ∈ found then softDeleteImage del.since img else img := by
  have hkey : ∀ r : Image, (softDeleteImage del.since r).id = r.id := fun _ => rfl
  refine (Table.mem_update hkey).trans ?_
  simp only [List.contains_eq_mem, decide_eq_true_eq]

/-- A transcription stays under its id, with its owner, and stays deleted. -/
theorem ContentChange.find? (h : ContentChange w w' e) {tid : Uuid} {tx : Transcription}
    (htx : w.db.transcriptions.find? tid = some tx) :
    ∃ tx', w'.db.transcriptions.find? tid = some tx' ∧ StaysIn tx tx' := by
  have hsame : StaysIn tx tx := ⟨rfl, rfl, fun h => h⟩
  cases h with
  | same ht hi => exact ⟨tx, by rw [ht, htx], hsame⟩
  | deleted p del found hc ht hi =>
      refine ⟨_, by rw [ht, find?_deleted, htx, Option.map_some], ?_⟩
      split
      · exact ⟨rfl, rfl, fun _ => rfl⟩
      · exact hsame
  | inserted new ht hi =>
      have hne : new.id ≠ tid := by
        rintro rfl
        rw [(Table.insert?_eq_some ht).2] at htx
        cases htx
      exact ⟨tx, by rw [Table.find?_insert? ht, if_neg hne, htx], hsame⟩
  | attached p row at_ img hc ht hi => exact ⟨tx, by rw [ht, htx], hsame⟩

end

/-! ### A delete under way -/

/-- The transcription is there and belongs to `u`. -/
def Owned (db : Database) (tid u : Uuid) : Prop :=
  ∃ tx, db.transcriptions.find? tid = some tx ∧ tx.userId = u

/-- The call of a delete past its first UPDATE. -/
def Handler.deletion : Handler → Option Deletion
  | .cascading del => some del
  | .deleted del _ => some del
  | _ => none

/-- What a delete has found is its caller's. -/
def DeletesOwned (w : World) : Prop :=
  ∀ p h del, w.handlers p = some h → h.deletion = some del → Owned w.db del.tid del.userId

section

variable {sv : Service} {w w' : World} {e : Event}

theorem ContentChange.owned (h : ContentChange w w' e) {tid u : Uuid} (ho : Owned w.db tid u) :
    Owned w'.db tid u := by
  obtain ⟨tx, htx, huser⟩ := ho
  obtain ⟨tx', htx', hstays⟩ := h.find? htx
  exact ⟨tx', htx', hstays.userId.trans huser⟩

theorem owned_of_hits {del : Deletion} {db : Database} (h : del.hits db ≠ []) :
    Owned db del.tid del.userId := by
  obtain ⟨r, hr⟩ := List.exists_mem_of_ne_nil _ h
  obtain ⟨hmem, hlive, huser⟩ := mem_scopedSelect.mp hr
  rw [liveTranscription, Bool.and_eq_true, decide_eq_true_eq] at hlive
  exact ⟨r, Table.find?_eq_some_iff.mpr ⟨hmem, hlive.1⟩, huser⟩

theorem deletesOwned_step (hw : DeletesOwned w) (h : (service sv).step w e = some w') :
    DeletesOwned w' := by
  have hm := step_moves h
  intro p handler del hp hdel
  apply hm.content.owned
  rcases hm.turns hp with hold | hturn
  · exact hw p handler del hold hdel
  · cases hturn with
    | cascading del' hold hhits =>
        cases hdel
        exact owned_of_hits hhits
    | cascaded rm del' he hold =>
        cases hdel
        exact hw p _ _ hold rfl
    | _ => cases hdel

end

/-! ### Schedules -/

/-- A transcription of user 1. -/
def minutes : Transcription where
  id := 9
  userId := 1
  audioHash := "hash"
  originalFilename := "talk.wav"
  originalSizeBytes := 4
  durationSeconds := 1
  language := "es"
  numSpeakers := 1
  textContent := "hola"
  segments := .obj [("segments", .arr [])]
  extraMetadata := .obj []
  createdAt := 0
  deletedAt := none

def minutesId : String := "00000000-0000-0000-0000-000000000009"

/-- The service with the one transcription. -/
def minutesWorld : World :=
  { emptyWorld with
    db := { emptyWorld.db with transcriptions := ⟨[minutes], List.nodup_singleton _⟩ } }

/-- User 1 deletes the minutes. -/
def deleteMinutes (p : ℕ) : List Event :=
  [.deleteTranscription p 1 minutesId, go p .ok, go p .ok, go p .ok]

theorem initial_minutesWorld : Initial minutesWorld :=
  ⟨rfl, fun _ => rfl, rfl, fun _ => rfl⟩

end TranscriptionApi.Uploads
