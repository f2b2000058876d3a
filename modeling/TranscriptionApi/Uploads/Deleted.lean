import TranscriptionApi.Uploads.Content

/-!
What a deleted transcription still shows.

A read that hides a transcription answers as if no row had ever been stored
under its id, which is `forget`. Once a call of `delete_transcription` has been
told that it succeeded, the MCP tools and the resource hide the transcription from
everyone, whatever the service does in between. `GET /api/transcriptions/{id}`
has no condition on `deleted_at`: it hides the transcription from everyone but
its owner.
-/

namespace TranscriptionApi.Uploads

open Api Auth Db Lib Mcp Pipeline Python

/-- A read of transcriptions, by the path it takes. -/
inductive Read where
  | list (ord : RowOrder Transcription) (limit offset : ℤ) (sort : String)
  | search (fts : Fts) (ord : RowOrder Transcription) (query : String) (limit : ℤ)
  | get (ord : RowOrder Image) (transcriptionId : String)
  | resource (ord : RowOrder Image) (transcriptionId : String)
  /-- `GET /api/transcriptions/{id}` -/
  | rest (transcriptionId : Uuid)

inductive Answer where
  | page (result : Except Failure ListPage)
  | hits (result : Except Failure (List SearchHit))
  | full (result : Except Failure Full)
  | rest (result : GetAnswer)

/-- What user `v` is answered. -/
def Read.answer (v : Uuid) (db : Database) : Read → Answer
  | .list ord limit offset sort => .page (listMyTranscriptions ord v limit offset sort db).1
  | .search fts ord query limit => .hits (searchMyTranscriptions fts ord v query limit db).1
  | .get ord tid => .full (Mcp.getTranscription ord v tid db).1
  | .resource ord tid => .full (transcriptionResource ord v tid db).1
  | .rest tid => .rest (Api.getTranscription v tid db)

/-- The database if the transcription had never been there. -/
def forget (tid : Uuid) (db : Database) : Database :=
  { db with transcriptions := db.transcriptions.erase fun r => r.id = tid }

/-- The transcription of `u` is deleted. -/
def Tombstone (u tid : Uuid) (db : Database) : Prop :=
  ∃ tx, db.transcriptions.find? tid = some tx ∧ tx.userId = u ∧ tx.deletedAt.isSome

section

variable {u v tid : Uuid} {db : Database}

/-- A query that leaves out the deleted transcription of `u` cannot tell it
from one that was never there. -/
theorem scopedSelect_forget (hdel : Tombstone u tid db) {p : Transcription → Bool}
    (hp : ∀ r, r.id = tid → r.userId = u → r.deletedAt.isSome →
      scopedTo Transcription.userId v p r = false) :
    scopedSelect (forget tid db).transcriptions Transcription.userId v p =
      scopedSelect db.transcriptions Transcription.userId v p := by
  apply Table.select_erase
  intro r hr hpick
  rw [decide_eq_false_iff_not]
  intro hid
  obtain ⟨tx, htx, huser, hdeleted⟩ := hdel
  have hfind := Table.find?_of_mem hr
  rw [hid, htx, Option.some.injEq] at hfind
  subst hfind
  rw [hp tx hid huser hdeleted] at hpick
  cases hpick

/-- A condition on `deleted_at` is enough. -/
theorem scopedSelect_forget_live (hdel : Tombstone u tid db) {p : Transcription → Bool}
    (hp : ∀ r, p r = true → r.deletedAt.isNone = true) :
    scopedSelect (forget tid db).transcriptions Transcription.userId v p =
      scopedSelect db.transcriptions Transcription.userId v p := by
  apply scopedSelect_forget hdel
  intro r _ _ hdeleted
  cases hpr : p r with
  | false => simp [scopedTo, hpr]
  | true =>
      have hlive := hp r hpr
      rw [Option.isNone_iff_eq_none] at hlive
      rw [hlive] at hdeleted
      cases hdeleted

theorem lookupTranscription_forget (hdel : Tombstone u tid db) (i : Uuid) :
    lookupTranscription (forget tid db) v i = lookupTranscription db v i := by
  unfold lookupTranscription lookupOwnedOr404
  rw [scopedSelect_forget_live hdel]
  intro r hr
  exact (Bool.and_eq_true _ _ ▸ hr).2

theorem listMyTranscriptions_forget (hdel : Tombstone u tid db)
    (ord : RowOrder Transcription) (limit offset : ℤ) (sort : String) :
    (listMyTranscriptions ord v limit offset sort (forget tid db)).1 =
      (listMyTranscriptions ord v limit offset sort db).1 := by
  have hrows := scopedSelect_forget_live (v := v) hdel (p := fun r => r.deletedAt.isNone)
    fun r hr => hr
  unfold listMyTranscriptions
  cases listSorts sort with
  | none => rfl
  | some sortClause =>
      cases clampOrRaise limit 1 100 "limit" with
      | error e => rfl
      | ok limit =>
          dsimp only
          split
          · rfl
          · simp only [mcpRequestSession, hrows]

theorem searchMyTranscriptions_forget (hdel : Tombstone u tid db) (fts : Fts)
    (ord : RowOrder Transcription) (query : String) (limit : ℤ) :
    (searchMyTranscriptions fts ord v query limit (forget tid db)).1 =
      (searchMyTranscriptions fts ord v query limit db).1 := by
  have hrows := scopedSelect_forget_live (v := v) hdel
    (p := fun r => r.deletedAt.isNone && fts.matches_ r.textContent (strip query))
    fun r hr => (Bool.and_eq_true _ _ ▸ hr).1
  unfold searchMyTranscriptions
  dsimp only
  split
  · rfl
  · split
    · rfl
    · cases clampOrRaise limit 1 50 "limit" with
      | error e => rfl
      | ok limit => simp only [mcpRequestSession, hrows]

theorem getTranscription_forget (hdel : Tombstone u tid db) (ord : RowOrder Image)
    (text : String) :
    (Mcp.getTranscription ord v text (forget tid db)).1 =
      (Mcp.getTranscription ord v text db).1 := by
  unfold Mcp.getTranscription
  cases uuid text with
  | none => rfl
  | some i =>
      simp only [mcpRequestSession, lookupTranscription_forget hdel]
      cases lookupTranscription db v i with
      | error e => rfl
      | ok row => rfl

/-- The endpoint hides the deleted transcription of `u` from every other user,
and under every other id. -/
theorem rest_forget (hdel : Tombstone u tid db) (i : Uuid) (h : ¬ (i = tid ∧ v = u)) :
    Api.getTranscription v i (forget tid db) = Api.getTranscription v i db := by
  unfold Api.getTranscription
  rw [scopedSelect_forget hdel]
  intro r hid huser _
  by_contra hpick
  rw [Bool.not_eq_false, scopedTo_eq_true, decide_eq_true_eq] at hpick
  exact h ⟨hpick.1.symm.trans hid, hpick.2.symm.trans huser⟩

/-- The owner is still served the deleted transcription. -/
theorem rest_ne_forget (hdel : Tombstone u tid db) :
    Api.getTranscription u tid (forget tid db) ≠ Api.getTranscription u tid db := by
  obtain ⟨tx, htx, huser, -⟩ := hdel
  have hgone : Api.getTranscription u tid (forget tid db) = .notFound := by
    unfold Api.getTranscription
    have hnone : scopedSelect (forget tid db).transcriptions Transcription.userId u
        (fun r => r.id = tid) = [] := by
      rw [List.eq_nil_iff_forall_not_mem]
      intro r hr
      obtain ⟨hmem, hid, -⟩ := mem_scopedSelect.mp hr
      have hkept := (List.mem_filter.mp hmem).2
      simp at hkept hid
      exact hkept hid
    rw [hnone]
  have hfound : tx ∈ scopedSelect db.transcriptions Transcription.userId u
      (fun r => r.id = tid) := by
    refine mem_scopedSelect.mpr ⟨Table.mem_of_find? htx, ?_, huser⟩
    exact decide_eq_true (Table.key_of_find? htx)
  rw [hgone]
  unfold Api.getTranscription
  split
  · rename_i hnil
    rw [hnil] at hfound
    exact absurd hfound List.not_mem_nil
  · exact fun h => nomatch h

/-- Which reads hide a deleted transcription. -/
theorem answer_forget_iff (hdel : Tombstone u tid db) (r : Read) :
    r.answer v db = r.answer v (forget tid db) ↔ ¬ (r = .rest tid ∧ v = u) := by
  cases r with
  | list ord limit offset sort =>
      simp [Read.answer, listMyTranscriptions_forget hdel]
  | search fts ord query limit =>
      simp [Read.answer, searchMyTranscriptions_forget hdel]
  | get ord text => simp [Read.answer, getTranscription_forget hdel]
  | resource ord text =>
      simp [Read.answer, transcriptionResource, getTranscription_forget hdel]
  | rest i =>
      simp only [Read.answer, Answer.rest.injEq, Read.rest.injEq]
      constructor
      · rintro heq ⟨rfl, rfl⟩
        exact rest_ne_forget hdel heq.symm
      · intro h
        exact (rest_forget hdel i h).symm

end

/-- Who was told that a transcription is deleted has deleted it. -/
def DeletedAsTold (w : World) : Prop :=
  ∀ u tid, Entry.deleteAnswered u (some tid) (.ok ()) ∈ w.log → Tombstone u tid w.db

section

variable {sv : Service} {w w' : World} {e : Event} {u tid : Uuid}

theorem tombstone_step (hdel : Tombstone u tid w.db) (h : (service sv).step w e = some w') :
    Tombstone u tid w'.db := by
  obtain ⟨tx, htx, huser, hdeleted⟩ := hdel
  obtain ⟨tx', htx', hstays⟩ := (step_moves h).content.find? htx
  exact ⟨tx', htx', hstays.userId.trans huser, hstays.deletedAt hdeleted⟩

/-- The transcription that a delete has found is deleted when it commits. -/
theorem tombstone_apply {del : Deletion} (found : List Uuid) {db : Database}
    (ho : Owned db del.tid del.userId) : Tombstone del.userId del.tid (del.apply found db) := by
  obtain ⟨tx, htx, huser⟩ := ho
  refine ⟨softDeleteTranscription del.since tx, ?_, huser, rfl⟩
  rw [find?_deleted, htx, Option.map_some, if_pos (Table.key_of_find? htx)]

theorem deletedAsTold_step (hw : DeletedAsTold w) (hd : DeletesOwned w)
    (h : (service sv).step w e = some w') : DeletedAsTold w' := by
  intro u tid hlog
  cases (step_moves h).log with
  | refused es heq hes =>
      rw [heq, List.mem_append] at hlog
      rcases hlog with hlog | hlog
      · exact tombstone_step (hw u tid hlog) h
      · exact (hes _ hlog).elim
  | committed p a wr hc hdb heq =>
      rw [heq, List.mem_append] at hlog
      rcases hlog with hlog | hlog
      · exact tombstone_step (hw u tid hlog) h
      · cases wr with
        | _ => cases a with
          | _ => simp [Write.entries, Write.effects, Write.answer, Write.success,
              Write.failure] at hlog
  | deleted p a del found hc hdb heq =>
      rw [heq, List.mem_append] at hlog
      rcases hlog with hlog | hlog
      · exact tombstone_step (hw u tid hlog) h
      · have hown : Owned w.db del.tid del.userId := hd p _ del hc.handler rfl
        have hsame : u = del.userId ∧ tid = del.tid := by
          cases a with
          | ok => simpa [Deletion.entries, Deletion.answer] using hlog
          | _ => simp [Deletion.entries, Deletion.answer, Deletion.failure] at hlog
        obtain ⟨rfl, rfl⟩ := hsame
        rw [hdb]
        exact tombstone_apply found hown

theorem deletedAsTold_run {t : World} {es : List Event} (hidle : ∀ p, w.handlers p = none)
    (hlog : w.log = []) (hrun : (service sv).run w es = some t) : DeletedAsTold t :=
  ((service sv).invariant_run (I := fun w => DeletedAsTold w ∧ DeletesOwned w)
    (fun _ _ _ hw hstep => ⟨deletedAsTold_step hw.1 hw.2 hstep, deletesOwned_step hw.2 hstep⟩)
    ⟨fun u tid htold => by simp [hlog] at htold, fun p h del hp => by simp [hidle] at hp⟩ hrun).1

end

/-- In every state that a run reaches: once a delete was answered that it succeeded,
a read answers as if the transcription had never been there, unless it is the
owner's `GET /api/transcriptions/{id}`. -/
theorem answer_deleted_iff (sv : Service) {w t : World} {es : List Event}
    (hidle : ∀ p, w.handlers p = none) (hlog : w.log = [])
    (hrun : (service sv).run w es = some t) {u tid : Uuid}
    (htold : Entry.deleteAnswered u (some tid) (.ok ()) ∈ t.log) (v : Uuid) (r : Read) :
    r.answer v t.db = r.answer v (forget tid t.db) ↔ ¬ (r = .rest tid ∧ v = u) := by
  have htold' : DeletedAsTold t := deletedAsTold_run hidle hlog hrun
  exact answer_forget_iff (htold' u tid htold) r

/-! ### A call by itself -/

section

variable (sv : Service) {w : World} {p : ℕ} {u tid : Uuid} {text : String}

/-- With the rows that both UPDATEs find, the COMMIT is the two UPDATEs at once. -/
theorem apply_cascade {del : Deletion} {db : Database} (hhits : del.hits db ≠ []) :
    del.apply (del.cascade db) db = softDelete del.since del.userId del.tid db := by
  have htranscriptions : ∀ r ∈ db.transcriptions.rows, decide (r.id = del.tid) =
      scopedTo Transcription.userId del.userId (liveTranscription del.tid) r := by
    obtain ⟨hit, hhit⟩ := List.exists_mem_of_ne_nil _ hhits
    obtain ⟨hmem, hpick⟩ := Table.mem_select.mp hhit
    obtain ⟨⟨hid, -⟩, -⟩ : ((hit.id = del.tid ∧ _) ∧ _) := by
      simpa only [scopedTo_eq_true, liveTranscription, Bool.and_eq_true, decide_eq_true_eq]
        using hpick
    intro r hr
    rw [Bool.eq_iff_iff, decide_eq_true_eq]
    constructor
    · intro hrid
      rwa [Table.eq_of_key_eq hr hmem (hrid.trans hid.symm)]
    · intro hrpick
      simp only [scopedTo_eq_true, liveTranscription, Bool.and_eq_true, decide_eq_true_eq]
        at hrpick
      exact hrpick.1.1
  have himages : ∀ img ∈ db.images.rows, (del.cascade db).contains img.id =
      scopedTo Image.userId del.userId (liveImageOf del.tid) img := by
    intro img himg
    rw [Bool.eq_iff_iff, List.contains_iff_mem, Deletion.cascade, List.mem_map]
    constructor
    · rintro ⟨img', himg', hid⟩
      obtain ⟨hmem, hpick⟩ := Table.mem_select.mp himg'
      rwa [← Table.eq_of_key_eq hmem himg hid]
    · exact fun hpick => ⟨img, Table.mem_select.mpr ⟨himg, hpick⟩, rfl⟩
  exact congrArg₂ (fun t i => { db with transcriptions := t, images := i })
    (Table.update_congr htranscriptions) (Table.update_congr himages)

/-- A call that no other step comes into does what `deleteTranscription` says. -/
theorem run_deleteTranscription (hp : w.handlers p = none) (htid : uuid text = some tid)
    (hfree : w.deleteLocks tid = none)
    (hok : (deleteTranscription w.now u text w.db).1 = .ok ()) :
    ∃ t, (service sv).run w
        [.deleteTranscription p u text, go p .ok, go p .ok, go p .ok] = some t ∧
      t.db = (deleteTranscription w.now u text w.db).2 ∧ t.handlers = w.handlers ∧
      t.log = w.log ++
        [.transcriptionDeleted u tid, .deleteAnswered u (some tid) (.ok ())] := by
  have hhits : (Deletion.mk u tid w.now).hits w.db ≠ [] := by
    intro hnone
    have hzero : (scopedSelect w.db.transcriptions Transcription.userId u
        (liveTranscription tid)).length = 0 := List.length_eq_zero_iff.mpr hnone
    rw [deleteTranscription_eq htid, if_pos hzero] at hok
    cases hok
  let del : Deletion := ⟨u, tid, w.now⟩
  let w₁ := w.goto p (.deleting del)
  let w₂ := { w₁.goto p (.cascading del) with
    deleteLocks := Function.update w.deleteLocks tid (some p) }
  let w₃ := w₂.goto p (.deleted del (del.cascade w.db))
  have hcalled : (service sv).step w (.deleteTranscription p u text) = some w₁ := by
    simp only [service, step, World.spawn, hp, beginDelete, htid]
    rfl
  have hfound : (service sv).step w₁ (go p .ok) = some w₂ := by
    simp [service, step, go, w₁, w₂, del, World.goto, resume, resumeDeleting, hhits, hfree]
  have hcascaded : (service sv).step w₂ (go p .ok) = some w₃ := by
    simp [service, step, go, w₁, w₂, w₃, World.goto, resume, resumeCascading]
  have hcommitted : (service sv).step w₃ (go p .ok) =
      some { w₃.finish p (del.entries .ok) with db := del.apply (del.cascade w.db) w.db } := by
    simp [service, step, go, w₁, w₂, w₃, World.goto, resume, resumeDeleted]
  refine ⟨{ w₃.finish p (del.entries .ok) with db := del.apply (del.cascade w.db) w.db },
    ?_, ?_, ?_, rfl⟩
  · simp only [System.run_cons, hcalled, hfound, hcascaded, hcommitted, Option.bind_some]
    rfl
  · exact (apply_cascade hhits).trans (deleteTranscription_ok htid hok).1.symm
  · simp [World.finish, w₁, w₂, w₃, World.goto, Function.update_idem, hp]

end

theorem uuid_minutesId : uuid minutesId = some 9 := by decide +kernel

/-- The minutes are deleted, and some time passes. -/
theorem run_deleteMinutes : ∃ t,
    (service plainService).run minutesWorld (deleteMinutes 0 ++ [.tick 5]) = some t ∧
      Entry.deleteAnswered 1 (some 9) (.ok ()) ∈ t.log := by
  have hok : (deleteTranscription minutesWorld.now 1 minutesId minutesWorld.db).1 = .ok () := by
    rw [deleteTranscription_eq uuid_minutesId, if_neg (by decide +kernel)]
  obtain ⟨t, ht, -, -, hlog⟩ :=
    run_deleteTranscription plainService (p := 0) rfl uuid_minutesId rfl hok
  refine ⟨{ t with now := t.now + 5 }, ?_, ?_⟩
  · rw [System.run_append, deleteMinutes, ht]
    rfl
  · show _ ∈ t.log
    simp [hlog]

theorem answer_deleted_iff_minutes :
    ∃ t, (service plainService).run minutesWorld (deleteMinutes 0 ++ [.tick 5]) = some t ∧
      ((Read.get .stored minutesId).answer 1 t.db =
          (Read.get .stored minutesId).answer 1 (forget 9 t.db) ↔
        ¬ (Read.get .stored minutesId = .rest 9 ∧ (1 : Uuid) = 1)) := by
  obtain ⟨t, ht, htold⟩ := run_deleteMinutes
  exact ⟨t, ht, answer_deleted_iff plainService (fun _ => rfl) rfl ht htold 1
    (.get .stored minutesId)⟩

/-- User 1 deletes the minutes and reads them through the REST endpoint. -/
theorem answer_deleted_fails :
    ∃ (sv : Service) (w t : World) (es : List Event) (u v tid : Uuid) (r : Read),
      (∀ p, w.handlers p = none) ∧ w.log = [] ∧ (service sv).run w es = some t ∧
      Entry.deleteAnswered u (some tid) (.ok ()) ∈ t.log ∧
      r.answer v t.db ≠ r.answer v (forget tid t.db) := by
  obtain ⟨t, ht, htold⟩ := run_deleteMinutes
  refine ⟨plainService, minutesWorld, t, _, 1, 1, 9, .rest 9, fun _ => rfl, rfl, ht, htold,
    fun heq => ?_⟩
  have htold' : DeletedAsTold t := deletedAsTold_run (fun _ => rfl) rfl ht
  exact rest_ne_forget (htold' 1 9 htold) (Answer.rest.inj heq).symm

end TranscriptionApi.Uploads
