import TranscriptionApi.Uploads.Capability
import TranscriptionApi.Uploads.Served

/-!
A transcription, from the answer that it is stored to the reads that follow.

Its row is inserted by the COMMIT that the answer waits for, and no statement of
the service writes another column of it than `deleted_at`. So what a reader gets
is settled by who reads and by one question about what came in between: has a
`delete_transcription` of the owner been committed. Neither a restart nor the work
of other handlers matters.

Where the row comes from is in the handler that commits it: the call that it
answers and the result of the pipeline are both turns of the run.
-/

namespace TranscriptionApi.Uploads

open Api Auth Db Lib Mcp Pipeline Python

/-- A `delete_transcription` of `tid` by `u` has been committed. -/
def World.deleted (w : World) (u tid : Uuid) : Bool := w.log.any (Entry.deletes u tid)

/-- The row of `tx` is as it was inserted; its `deleted_at` is set if its owner has
deleted it. -/
def Stands (tx : Transcription) (w : World) : Prop :=
  ∃ at_, w.db.transcriptions.find? tx.id = some { tx with deletedAt := at_ } ∧
    at_.isSome = w.deleted tx.userId tx.id

/-- What the log says is deleted is in the table, under its owner. -/
def DeletesLogged (w : World) : Prop :=
  ∀ u tid, w.deleted u tid = true → Owned w.db tid u

/-! ### The row -/

section Row

variable {sv : Service} {w w' : World} {l : Life} {tx : Transcription}

/-- How a step changes the transcriptions, and what it logs of that. -/
inductive RowsChange (w w' : World) : Prop
  | same (h : w'.db.transcriptions = w.db.transcriptions)
      (hlog : ∀ u tid, w'.deleted u tid = w.deleted u tid)
  | inserted (new : Transcription)
      (h : w.db.transcriptions.insert? new = some w'.db.transcriptions)
      (hlog : ∀ u tid, w'.deleted u tid = w.deleted u tid)
  | deleted (del : Deletion) (found : List Uuid) (hown : Owned w.db del.tid del.userId)
      (h : w'.db = del.apply found w.db)
      (hlog : ∀ u tid, w'.deleted u tid =
        (w.deleted u tid || (del.userId = u && del.tid = tid)))

theorem step_rows (hd : DeletesOwned w) (h : (lives sv).step w l = some w') :
    RowsChange w w' := by
  cases l with
  | restart boot =>
      obtain rfl := Option.some.inj h
      exact .same rfl fun _ _ => rfl
  | turn e =>
      have hm := step_moves h
      -- what a step logs is all that it may have deleted
      have hlogged {es : List Entry} (hlog : w'.log = w.log ++ es) (u tid : Uuid) :
          w'.deleted u tid = (w.deleted u tid || es.any (Entry.deletes u tid)) := by
        rw [World.deleted, hlog, List.any_append]
        rfl
      by_cases hdelete : ∃ p del found, CommitsDelete w e p del found
      · obtain ⟨p, del, found, hc⟩ := hdelete
        obtain ⟨hdb, a, hlog⟩ := hc.effect h
        refine .deleted del found (hd p _ del hc.handler rfl) hdb fun u tid => ?_
        rw [hlogged hlog]
        cases a with
        | _ => simp [Deletion.entries, Deletion.answer, Deletion.failure, Entry.deletes]
      · have hno : ∀ u tid, w'.deleted u tid = w.deleted u tid := by
          intro u tid
          have hnone {es : List Entry} (hlog : w'.log = w.log ++ es)
              (hes : ∀ x ∈ es, x.deletes u tid = false) :
              w'.deleted u tid = w.deleted u tid := by
            rw [hlogged hlog, List.any_eq_false.mpr fun x hx => by simp [hes x hx], Bool.or_false]
          cases hm.log with
          | refused es hlog hes => exact hnone hlog fun x hx => (hes x hx).deletes u tid
          | committed p a wr hc hdb hlog =>
              refine hnone hlog ?_
              cases wr with
              | _ => cases a with
                | _ => simp [Write.entries, Write.effects, Write.answer, Write.success,
                    Write.failure, Entry.deletes]
          | deleted p a del found hc hdb hlog => exact absurd ⟨p, del, found, hc⟩ hdelete
        cases hm.content with
        | same ht hi => exact .same ht hno
        | deleted p del found hc ht hi => exact absurd ⟨p, del, found, hc⟩ hdelete
        | inserted tx ht hi => exact .inserted tx ht hno
        | attached p row at_ img hc ht hi => exact .same ht hno

theorem deletesOwned_life (hd : DeletesOwned w) (h : (lives sv).step w l = some w') :
    DeletesOwned w' := by
  cases l with
  | turn e => exact deletesOwned_step hd h
  | restart boot =>
      obtain rfl := Option.some.inj h
      intro p handler del hp
      cases hp

theorem deletesLogged_step (hw : DeletesLogged w) (hd : DeletesOwned w)
    (h : (lives sv).step w l = some w') : DeletesLogged w' := by
  have hkeeps {tid u : Uuid} (hown : Owned w.db tid u) : Owned w'.db tid u := by
    cases l with
    | turn e => exact (step_moves h).content.owned hown
    | restart boot =>
        obtain rfl := Option.some.inj h
        exact hown
  intro u tid hdel
  apply hkeeps
  cases step_rows hd h with
  | same hrows hlog => exact hw u tid (hlog u tid ▸ hdel)
  | inserted new hrows hlog => exact hw u tid (hlog u tid ▸ hdel)
  | deleted del found hown hdb hlog =>
      rw [hlog, Bool.or_eq_true, Bool.and_eq_true, decide_eq_true_eq, decide_eq_true_eq] at hdel
      rcases hdel with hdel | ⟨rfl, rfl⟩
      · exact hw u tid hdel
      · exact hown

/-- A step leaves the row as it is, unless it commits its deletion. -/
theorem stands_step (hw : Stands tx w) (hd : DeletesOwned w)
    (h : (lives sv).step w l = some w') : Stands tx w' := by
  obtain ⟨at_, hfind, hgone⟩ := hw
  cases step_rows hd h with
  | same hsame hlog => exact ⟨at_, by rw [hsame, hfind], by rw [hlog, hgone]⟩
  | inserted new hnew hlog =>
      have hne : new.id ≠ tx.id := by
        intro heq
        have hfree := (Table.insert?_eq_some hnew).2
        rw [heq, hfind] at hfree
        cases hfree
      exact ⟨at_, by rw [Table.find?_insert? hnew, if_neg hne, hfind], by rw [hlog, hgone]⟩
  | deleted del found hown hdb hlog =>
      rw [Stands, hdb, find?_deleted, hfind, Option.map_some, hlog]
      by_cases hid : del.tid = tx.id
      · -- the delete has found the row, so it is its owner's
        obtain ⟨tx', htx', huser⟩ := hown
        rw [hid, hfind, Option.some.injEq] at htx'
        subst htx'
        refine ⟨some del.since, by rw [if_pos hid.symm]; rfl, ?_⟩
        simp [hid, ← huser]
      · refine ⟨at_, by rw [if_neg (Ne.symm hid)], ?_⟩
        simp [hid, hgone]

/-- What a transcription needs to be followed from its insertion on. -/
theorem stands_run {ls : List Life} (hw : Stands tx w) (hd : DeletesOwned w)
    (h : (lives sv).run w ls = some w') : Stands tx w' :=
  ((lives sv).invariant_run (I := fun w => Stands tx w ∧ DeletesOwned w)
    (fun _ _ _ hI hstep => ⟨stands_step hI.1 hI.2 hstep, deletesOwned_life hI.2 hstep⟩)
    ⟨hw, hd⟩ h).1

end Row

/-! ### The reads -/

section Reads

variable {tx : Transcription} {w : World}

/-- The live row under an id is for its owner, and no other answer depends on
the row. -/
theorem lookupOwnedOr404_eq {α κ : Type*} {key : α → κ} [DecidableEq κ] {t : Table α key}
    {userId : α → Uuid} {deletedAt : α → Option ℤ} {u : Uuid} {idValue : κ}
    {errorCode errorMessage : String} {row : α} (hrow : t.find? idValue = some row) :
    lookupOwnedOr404 t userId deletedAt u idValue errorCode errorMessage =
      if u = userId row ∧ deletedAt row = none then .ok row
      else .error (raiseToolError errorCode errorMessage 404) := by
  have hfound {r : α} {rest : List α}
      (hrows : scopedSelect t userId u (fun r => key r = idValue && (deletedAt r).isNone) =
        r :: rest) : r = row ∧ u = userId row ∧ deletedAt row = none := by
    have hmem := mem_scopedSelect.mp (hrows ▸ List.mem_cons_self)
    simp only [Bool.and_eq_true, decide_eq_true_eq, Option.isNone_iff_eq_none] at hmem
    have hfind := Table.find?_eq_some_iff.mpr ⟨hmem.1, hmem.2.1.1⟩
    obtain rfl := Option.some.inj (hfind.symm.trans hrow)
    exact ⟨rfl, hmem.2.2.symm, hmem.2.1.2⟩
  unfold lookupOwnedOr404
  split
  · rename_i hnil
    rw [if_neg]
    rintro ⟨rfl, hlive⟩
    obtain ⟨hmem, hkey⟩ := Table.find?_eq_some_iff.mp hrow
    have hpick : row ∈ scopedSelect t userId (userId row)
        (fun r => key r = idValue && (deletedAt r).isNone) :=
      mem_scopedSelect.mpr ⟨hmem, by simp [hkey, hlive], rfl⟩
    rw [hnil] at hpick
    cases hpick
  · rename_i r rest hrows
    obtain ⟨rfl, hlive⟩ := hfound hrows
    rw [if_pos hlive]

theorem getTranscription_of_stands (hw : Stands tx w) (ord : RowOrder Image) (v : Uuid)
    {text : String} (htext : uuid text = some tx.id) :
    (Mcp.getTranscription ord v text w.db).1 =
      if v = tx.userId ∧ w.deleted tx.userId tx.id = false then
        .ok (serializeFull tx (ord.order
          (scopedSelect w.db.images Image.userId v (liveImageOf tx.id))))
      else .error (raiseToolError "TRANSCRIPTION_NOT_FOUND" "transcription not found" 404) := by
  obtain ⟨at_, hfind, hgone⟩ := hw
  rw [← hgone]
  simp only [Mcp.getTranscription, htext, mcpRequestSession, lookupTranscription,
    lookupOwnedOr404_eq hfind]
  cases at_ with
  | some at_ => simp
  | none =>
      by_cases hv : v = tx.userId
      · simp [hv, serializeFull, serializeSummary]
      · simp [hv]

theorem rest_of_stands (hw : Stands tx w) (v : Uuid) :
    (v ≠ tx.userId → Api.getTranscription v tx.id w.db = .notFound) ∧
      (v = tx.userId → Api.getTranscription v tx.id w.db = .ok (rowToResponse tx)) := by
  obtain ⟨at_, hfind, -⟩ := hw
  obtain ⟨hmem, -⟩ := Table.find?_eq_some_iff.mp hfind
  have hfound {r : Transcription}
      (hr : r ∈ scopedSelect w.db.transcriptions Transcription.userId v fun r => r.id = tx.id) :
      r = { tx with deletedAt := at_ } ∧ v = tx.userId := by
    obtain ⟨hr, hid, huser⟩ := mem_scopedSelect.mp hr
    obtain rfl := Table.eq_of_key_eq hr hmem (of_decide_eq_true hid)
    exact ⟨rfl, huser.symm⟩
  unfold Api.getTranscription
  constructor
  · intro hv
    split
    · rfl
    · rename_i r rest hrows
      exact absurd (hfound (hrows ▸ List.mem_cons_self)).2 hv
  · rintro rfl
    split
    · rename_i hnil
      have hpick : { tx with deletedAt := at_ } ∈ scopedSelect w.db.transcriptions
          Transcription.userId tx.userId fun r => r.id = tx.id :=
        mem_scopedSelect.mpr ⟨hmem, decide_eq_true rfl, rfl⟩
      rw [hnil] at hpick
      cases hpick
    · rename_i r rest hrows
      obtain ⟨hr, -⟩ := hfound (r := r) (hrows ▸ List.mem_cons_self)
      rw [hr]
      rfl

end Reads

/-! ### Where the row comes from -/

/-- The number under which an event starts a handler. -/
def Event.starts : Event → Option ℕ
  | .resume .. => none
  | e => e.actor

/-- Handler `p` is not started, and its process does not end. -/
def keeps (p : ℕ) : Life → Bool
  | .turn e => e.starts ≠ some p
  | .restart _ => false

/-- The time that passes in the steps. -/
def elapsed : List Life → ℤ
  | [] => 0
  | .turn (.tick d) :: ls => d + elapsed ls
  | _ :: ls => elapsed ls

/-- The owner of the session has called `start_transcription` with its id, at the
time `since`, and handler `p` runs the call; `t₀` is the time before the steps. -/
def CalledIn (t₀ : ℤ) (ls : List Life) (p : ℕ) (row : UploadSession) (since : ℤ) : Prop :=
  ∃ earlier later status uploadId,
    ls = earlier ++ .turn (.startTranscription p status row.userId uploadId) :: later ∧
    uuid uploadId = some row.id ∧ since = t₀ + elapsed earlier ∧ ∀ l ∈ later, keeps p l

/-- In that call the pipeline has returned the result `r`, with the id of its
row `tx`. -/
def DeliveredIn (t₀ : ℤ) (ls : List Life) (p : ℕ) (row : UploadSession) (tx : Transcription)
    (r : TranscriptionResult) : Prop :=
  ∃ called later since txId rm,
    ls = called ++ .turn (.resume p (.result r txId) rm) :: later ∧
    CalledIn t₀ called p row since ∧ (∀ l ∈ later, keeps p l) ∧
    tx = transcriptionRow row txId since r

def Handler.FromCall (t₀ : ℤ) (ls : List Life) (p : ℕ) : Handler → Prop
  | .loading row since => CalledIn t₀ ls p row since
  | .orchestrating row since => CalledIn t₀ ls p row since
  | .writing (.consumed row _ tx r) => DeliveredIn t₀ ls p row tx r
  | .committing (.consumed row _ tx r) => DeliveredIn t₀ ls p row tx r
  | _ => True

/-- Every handler that runs a call has it in its past. -/
structure FromCalls (t₀ : ℤ) (ls : List Life) (w : World) : Prop where
  now : w.now = t₀ + elapsed ls
  calls : ∀ p h, w.handlers p = some h → h.FromCall t₀ ls p

section Steps

variable {sv : Service} {w w' : World} {e : Event} {l : Life} {ls : List Life} {q : ℕ} {t₀ : ℤ}

theorem elapsed_append (ls ls' : List Life) : elapsed (ls ++ ls') = elapsed ls + elapsed ls' := by
  induction ls with
  | nil => simp [elapsed]
  | cons l ls ih =>
      cases l with
      | restart boot => simp [elapsed, ih]
      | turn e =>
          cases e with
          | tick d => simp [elapsed, ih, add_assoc]
          | _ => simp [elapsed, ih]

theorem now_of_step (h : (lives sv).step w l = some w') : w'.now = w.now + elapsed [l] := by
  cases l with
  | restart boot =>
      obtain rfl := Option.some.inj h
      simp [World.restart, elapsed]
  | turn e =>
      have hm : Moves sv w e w' := step_moves h
      cases e with
      | tick d =>
          obtain rfl := Option.some.inj h
          simp [elapsed]
      | _ =>
          rcases hm.now with hsame | ⟨d, hd, -⟩
          · simp [elapsed, hsame]
          · cases hd

/-- A handler in flight stays with its call. -/
theorem keeps_of_handler {h : Handler} (hold : w.handlers q = some h)
    (hstep : step sv w e = some w') : keeps q (.turn e) = true := by
  have hfree {p : ℕ} {w₀ : World} (h : w.spawn p w₀ = some w') :
      decide (some p ≠ some q) = true := by
    refine decide_eq_true fun hpq => ?_
    rw [← Option.some.inj hpq, (spawn_eq_some h).1] at hold
    cases hold
  cases e with
  | uploadAudio p req => exact hfree hstep
  | uploadImage p req filename => exact hfree hstep
  | startTranscription p status userId uploadId => exact hfree hstep
  | purge p => exact hfree hstep
  | deleteTranscription p userId text => exact hfree hstep
  | _ => rfl

theorem keeps_snoc {later : List Life} (h : ∀ l ∈ later, keeps q l) (hl : keeps q l = true) :
    ∀ x ∈ later ++ [l], keeps q x := by
  intro x hx
  rcases List.mem_append.mp hx with hx | hx
  · exact h x hx
  · exact List.mem_singleton.mp hx ▸ hl

theorem CalledIn.snoc {row : UploadSession} {since : ℤ} (h : CalledIn t₀ ls q row since)
    (hl : keeps q l = true) : CalledIn t₀ (ls ++ [l]) q row since := by
  obtain ⟨earlier, later, status, uploadId, rfl, huid, hsince, hlater⟩ := h
  exact ⟨earlier, later ++ [l], status, uploadId, by simp, huid, hsince, keeps_snoc hlater hl⟩

theorem DeliveredIn.snoc {row : UploadSession} {tx : Transcription} {r : TranscriptionResult}
    (h : DeliveredIn t₀ ls q row tx r) (hl : keeps q l = true) :
    DeliveredIn t₀ (ls ++ [l]) q row tx r := by
  obtain ⟨called, later, since, txId, rm, rfl, hcalled, hlater, htx⟩ := h
  exact ⟨called, later ++ [l], since, txId, rm, by simp, hcalled, keeps_snoc hlater hl, htx⟩

theorem Handler.FromCall.snoc {h : Handler} (hh : h.FromCall t₀ ls q) (hl : keeps q l = true) :
    h.FromCall t₀ (ls ++ [l]) q := by
  cases h with
  | loading row since => exact CalledIn.snoc hh hl
  | orchestrating row since => exact CalledIn.snoc hh hl
  | writing wr =>
      cases wr with
      | consumed row at_ tx r => exact DeliveredIn.snoc hh hl
      | _ => trivial
  | committing wr =>
      cases wr with
      | consumed row at_ tx r => exact DeliveredIn.snoc hh hl
      | _ => trivial
  | _ => trivial

/-- A handler that begins to load a session was called by its owner. -/
theorem loading_of_step {row : UploadSession} {since : ℤ} (hold : w.handlers q = none)
    (hq : w'.handlers q = some (.loading row since)) (h : step sv w e = some w') :
    ∃ status uploadId, e = .startTranscription q status row.userId uploadId ∧
      uuid uploadId = some row.id := by
  have hactor : e.actor = some q := by
    by_contra hactor
    rw [(step_moves h).handlers_of_ne hactor, hold] at hq
    cases hq
  have hupload {kind : UploadKind} {req : UploadRequest} {filename : Option String}
      (hq : (beginUpload w q kind req filename).handlers q = some (.loading row since)) :
      False := by
    unfold beginUpload at hq
    split at hq
    · exact (handlers_finish hq).1 rfl
    · split at hq
      · exact (handlers_finish hq).1 rfl
      · rcases handlers_goto hq with ⟨-, heq⟩ | ⟨hne, -⟩
        · cases heq
        · exact hne rfl
  cases e with
  | uploadAudio p req =>
      cases hactor
      obtain ⟨-, rfl⟩ := spawn_eq_some h
      exact (hupload hq).elim
  | uploadImage p req filename =>
      cases hactor
      obtain ⟨-, rfl⟩ := spawn_eq_some h
      exact (hupload hq).elim
  | startTranscription p status userId uploadId =>
      cases hactor
      obtain ⟨-, rfl⟩ := spawn_eq_some h
      unfold beginStart at hq
      split at hq
      · exact absurd rfl (handlers_finish hq).1
      · split at hq
        · exact absurd rfl (handlers_finish hq).1
        · rename_i hrow
          rcases handlers_goto hq with ⟨-, heq⟩ | ⟨hne, -⟩
          · cases heq
            obtain ⟨huid, -, -, rfl⟩ := selectUpload_eq_ok hrow
            exact ⟨status, uploadId, rfl, huid⟩
          · exact absurd rfl hne
  | purge p =>
      cases hactor
      obtain ⟨-, rfl⟩ := spawn_eq_some h
      rcases handlers_goto hq with ⟨-, heq⟩ | ⟨hne, -⟩
      · cases heq
      · exact absurd rfl hne
  | deleteTranscription p userId text =>
      cases hactor
      obtain ⟨-, rfl⟩ := spawn_eq_some h
      unfold beginDelete at hq
      split at hq
      · exact absurd rfl (handlers_finish hq).1
      · rcases handlers_goto hq with ⟨-, heq⟩ | ⟨hne, -⟩
        · cases heq
        · exact absurd rfl hne
  | resume p a rm =>
      cases hactor
      simp only [step, hold, Option.bind_none] at h
      cases h
  | _ => cases hactor

/-- A handler that goes on to its UPDATE has the result of the pipeline. -/
theorem result_of_step {row : UploadSession} {since : ℤ} {wr : Write}
    (hold : w.handlers q = some (.orchestrating row since))
    (hq : w'.handlers q = some (.writing wr)) (h : step sv w e = some w') :
    ∃ r txId rm, e = .resume q (.result r txId) rm ∧
      wr = .consumed row w.now (transcriptionRow row txId since r) r := by
  obtain ⟨a, rm, rfl⟩ := resume_of_moved hold hq (by simp) h
  simp only [step, hold, Option.bind_some, resume] at h
  cases a with
  | result r txId =>
      cases h
      rcases handlers_goto hq with ⟨-, heq⟩ | ⟨hne, -⟩
      · cases heq
        exact ⟨r, txId, rm, rfl, rfl⟩
      · exact absurd rfl hne
  | failed e =>
      cases h
      exact absurd rfl (handlers_finish hq).1
  | cancelled =>
      cases h
      exact absurd rfl (handlers_finish hq).1
  | _ => cases h

theorem fromCalls_step (hw : FromCalls t₀ ls w) (h : (lives sv).step w l = some w') :
    FromCalls t₀ (ls ++ [l]) w' := by
  refine ⟨by rw [elapsed_append, ← add_assoc, ← hw.now, now_of_step h], fun p handler hp => ?_⟩
  cases l with
  | restart boot =>
      obtain rfl := Option.some.inj h
      cases hp
  | turn e =>
      rcases (step_moves h).turns hp with hold | hturn
      · exact (hw.calls p handler hold).snoc (keeps_of_handler hold h)
      · cases hturn with
        | loading row hold hrow hkind =>
            obtain ⟨status, uploadId, rfl, huid⟩ := loading_of_step hold hp h
            exact ⟨ls, [], status, uploadId, rfl, huid, hw.now,
              fun x hx => absurd hx List.not_mem_nil⟩
        | passed rm row since he hold hstatus hnow =>
            have hcalled : CalledIn t₀ ls p row since := hw.calls p _ hold
            exact hcalled.snoc (keeps_of_handler hold h)
        | orchestrated row since r txId hold =>
            obtain ⟨r', txId', rm, rfl, heq⟩ := result_of_step hold hp h
            obtain ⟨-, -, htx, rfl⟩ := Write.consumed.inj heq
            exact ⟨ls, [], since, txId', rm, rfl, hw.calls p _ hold,
              fun x hx => absurd hx List.not_mem_nil, htx⟩
        | updated rm wr he hold =>
            have hfrom := (hw.calls p _ hold).snoc (keeps_of_handler hold h)
            cases wr with
            | consumed row at_ tx r => exact hfrom
            | _ => trivial
        | _ => trivial

/-- A step that tells a caller of a transcription is the COMMIT of its row. -/
theorem told_step {es : List Entry} {s : Option Uuid} {a : StartAnswer}
    (h : (lives sv).step w l = some w') (hlog : w'.log = w.log ++ es)
    (ha : Entry.startAnswered s (.ok a) ∈ es) :
    ∃ p rm row at_ tx r, l = .turn (.resume p .ok rm) ∧
      w.handlers p = some (.committing (.consumed row at_ tx r)) ∧ s = some row.id ∧
      a = startAnswer tx r ∧ w.db.transcriptions.insert? tx = some w'.db.transcriptions := by
  cases l with
  | restart boot =>
      obtain rfl := Option.some.inj h
      obtain rfl := List.self_eq_append_right.mp hlog
      cases ha
  | turn e =>
      cases (step_moves h).log with
      | refused es' hlog' hes =>
          obtain rfl := List.append_cancel_left (hlog'.symm.trans hlog)
          exact (hes _ ha).elim
      | deleted p await del found hc hdb hlog' =>
          obtain rfl := List.append_cancel_left (hlog'.symm.trans hlog)
          cases await with
          | _ => simp [Deletion.entries, Deletion.answer, Deletion.failure] at ha
      | committed p await wr hc hdb hlog' =>
          obtain ⟨⟨await, rm, rfl, hawait⟩, hp⟩ := hc
          obtain ⟨db, hdb, rfl⟩ := step_committing hp hawait h
          obtain rfl : wr.entries await = es := by
            refine List.append_cancel_left (Eq.trans ?_ hlog)
            exact congrArg (· ++ wr.entries await) (accept_log wr).symm
          cases wr with
          | consumed row at_ tx r =>
              obtain ⟨t, ht, rfl⟩ := Option.map_eq_some_iff.mp hdb
              cases await with
              | ok =>
                  simp only [Write.entries, Write.effects, Write.answer, Write.success,
                    List.mem_append, List.mem_singleton, reduceCtorEq, false_or,
                    Entry.startAnswered.injEq, Except.ok.injEq] at ha
                  exact ⟨p, rm, row, at_, tx, r, rfl, hp, ha.1, ha.2, ht⟩
              | _ =>
                  simp [Write.entries, Write.effects, Write.answer, Write.failure] at ha
          | _ =>
              cases await with
              | _ =>
                  simp [Write.entries, Write.effects, Write.answer, Write.success,
                    Write.failure] at ha

end Steps

/-! ### From the answer on -/

/-- What the readers of the transcription `tx` get in `t`. -/
structure Readable (t : World) (tx : Transcription) : Prop where
  /-- `get_transcription` and the `transcription://` resource -/
  get : ∀ (ord : RowOrder Image) (v : Uuid) (text : String), uuid text = some tx.id →
    (Mcp.getTranscription ord v text t.db).1 =
      if v = tx.userId ∧ t.deleted tx.userId tx.id = false then
        .ok (serializeFull tx (ord.order
          (scopedSelect t.db.images Image.userId v (liveImageOf tx.id))))
      else .error (raiseToolError "TRANSCRIPTION_NOT_FOUND" "transcription not found" 404)
  /-- `GET /api/transcriptions/{id}`, for the others -/
  hidden : ∀ v, v ≠ tx.userId → Api.getTranscription v tx.id t.db = .notFound
  /-- and for the owner, who has not deleted it -/
  rest : t.deleted tx.userId tx.id = false →
    Api.getTranscription tx.userId tx.id t.db = .ok (rowToResponse tx)

/-- What the deletes have left behind. -/
structure DeletesKept (w : World) : Prop where
  owned : DeletesOwned w
  logged : DeletesLogged w

theorem deletesKept_step {sv : Service} {w w' : World} {l : Life} (hw : DeletesKept w)
    (h : (lives sv).step w l = some w') : DeletesKept w' :=
  ⟨deletesOwned_life hw.owned h, deletesLogged_step hw.logged hw.owned h⟩

theorem deletesKept_initial {w : World} (h : Initial w) : DeletesKept w where
  owned := fun p handler del hp => by simp [h.handlers p] at hp
  logged := fun u tid hdel => by simp [World.deleted, h.log] at hdel

theorem readable_of_inserted {sv : Service} {w w' t : World} {l : Life} {ls : List Life}
    {tx : Transcription} (hw : DeletesKept w) (hstep : (lives sv).step w l = some w')
    (hinsert : w.db.transcriptions.insert? tx = some w'.db.transcriptions)
    (hlive : tx.deletedAt = none) (hrun : (lives sv).run w' ls = some t) : Readable t tx := by
  have hfree := (Table.insert?_eq_some hinsert).2
  have hnew : w'.db.transcriptions.find? tx.id = some tx := by
    rw [Table.find?_insert? hinsert, if_pos rfl]
  have hnone : w.deleted tx.userId tx.id = false := by
    by_contra hdel
    obtain ⟨tx', htx', -⟩ := hw.logged tx.userId tx.id (by simpa using hdel)
    rw [hfree] at htx'
    cases htx'
  -- the step that inserts the row commits no delete
  have hlog : w'.deleted tx.userId tx.id = false := by
    cases step_rows hw.owned hstep with
    | same hrows hlog => rw [hlog, hnone]
    | inserted new hrows hlog => rw [hlog, hnone]
    | deleted del found hown hdb hlog =>
        rw [hdb, find?_deleted, hfree] at hnew
        cases hnew
  have hstands : Stands tx w' := ⟨none, by rw [hnew, ← hlive], by rw [hlog]; rfl⟩
  have hend := stands_run hstands (deletesKept_step hw hstep).owned hrun
  exact ⟨fun ord v text htext => getTranscription_of_stands hend ord v htext,
    fun v => (rest_of_stands hend v).1, fun _ => (rest_of_stands hend tx.userId).2 rfl⟩

/-- What an answer of the step `l` between `t₀` and `t₁` is worth in `t`, when the
steps `before` lead from `w` to `t₀`. -/
structure KeptAsTold (w : World) (before : List Life) (t₀ : World) (l : Life) (t₁ t : World) :
    Prop where
  /-- `start_transcription` -/
  started : ∀ es s a, t₁.log = t₀.log ++ es → Entry.startAnswered s (.ok a) ∈ es →
    ∃ p rm row tx r, l = .turn (.resume p .ok rm) ∧ s = some row.id ∧
      DeliveredIn w.now before p row tx r ∧ uuid a.transcriptionId = some tx.id ∧ Readable t tx
  /-- `POST /api/transcriptions` -/
  posted : ∀ u filename bytesWritten txId since r,
    l = .turn (.postTranscription u filename bytesWritten txId since r) →
      Readable t (pipelineRow u (uploadFilename filename) bytesWritten txId since r)

/-- A transcription that the service has told its caller of is served as the
pipeline returned it, to the caller alone, until he deletes it: over any order of
the steps that follow, restarts included. -/
theorem keptAsTold_of_lives (sv : Service) {w t₀ t₁ t : World} (hw : Initial w)
    {before after : List Life} {l : Life} (hbefore : (lives sv).run w before = some t₀)
    (hstep : (lives sv).step t₀ l = some t₁) (hafter : (lives sv).run t₁ after = some t) :
    KeptAsTold w before t₀ l t₁ t := by
  have hkept : DeletesKept t₀ :=
    (lives sv).invariant_run (fun _ _ _ => deletesKept_step) (deletesKept_initial hw) hbefore
  refine ⟨fun es s a hlog ha => ?_, ?_⟩
  · have hcalls : FromCalls w.now before t₀ := (lives sv).invariant_history
      (fun _ _ _ _ => fromCalls_step)
      ⟨by simp [elapsed], fun p h hp => by simp [hw.handlers] at hp⟩ hbefore
    obtain ⟨p, rm, row, at_, tx, r, rfl, hp, rfl, rfl, hinsert⟩ := told_step hstep hlog ha
    have hdelivered : DeliveredIn w.now before p row tx r := hcalls.calls p _ hp
    have hlive : tx.deletedAt = none := by
      obtain ⟨called, later, since, txId, rm', -, -, -, rfl⟩ := hdelivered
      rfl
    exact ⟨p, rm, row, tx, r, rfl, rfl, hdelivered, uuid_uuidStr tx.id,
      readable_of_inserted hkept hstep hinsert hlive hafter⟩
  · rintro u filename bytesWritten txId since r rfl
    obtain ⟨db, hdb, rfl⟩ := Option.map_eq_some_iff.mp hstep
    obtain ⟨rows, hinsert, rfl⟩ := Option.map_eq_some_iff.mp hdb
    exact readable_of_inserted hkept hstep hinsert rfl hafter

/-- An upload and a start on it, to its COMMIT. -/
def oneStart : List Life :=
  (oneUpload ++ [start 1, go 1 .ok, go 1 (.result pipelineResult 9), go 1 .ok]).map .turn

/-- The process ends, and another user tries a delete. -/
def deleteOfAnother : List Life :=
  [.restart bootAfterUpload, .turn (.deleteTranscription 2 2 minutesId), .turn (go 2 .ok)]

/-- A start is answered, and read after what follows. -/
theorem keptAsTold_of_lives_oneStart :
    ∃ t₀ t₁ t : World, (lives plainService).run emptyWorld oneStart = some t₀ ∧
      (lives plainService).step t₀ (.turn (go 1 .ok)) = some t₁ ∧
      (lives plainService).run t₁ deleteOfAnother = some t ∧
      KeptAsTold emptyWorld oneStart t₀ (.turn (go 1 .ok)) t₁ t := by
  obtain ⟨t, ht⟩ := Option.isSome_iff_exists.mp
    (by decide +kernel : ((lives plainService).run emptyWorld (oneStart ++ .turn (go 1 .ok) ::
      deleteOfAnother)).isSome = true)
  rw [(lives plainService).run_append, Option.bind_eq_some_iff] at ht
  obtain ⟨t₀, hbefore, hrest⟩ := ht
  obtain ⟨t₁, hstep, hafter⟩ := ((lives plainService).run_cons_eq_some).mp hrest
  exact ⟨t₀, t₁, t, hbefore, hstep, hafter,
    keptAsTold_of_lives plainService initial_emptyWorld hbefore hstep hafter⟩

end TranscriptionApi.Uploads
