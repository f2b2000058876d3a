import TranscriptionApi.Uploads.Invariants

/-!
The status of an upload session over time.

The handlers overwrite the status by id, with no regard to what it is by then.
Whether the status only moves forward is therefore decided at the COMMITs: it
does, exactly as long as none of them lands on a row that has reached another
terminal status in the meantime.
-/

namespace TranscriptionApi.Db.UploadStatus

/-- The edges of the state machine of an upload session. -/
def next : UploadStatus → UploadStatus → Bool
  | .requested, .uploaded => true
  | .requested, .expired => true
  | .uploaded, .consumed => true
  | .uploaded, .expired => true
  | _, _ => false

def terminal : UploadStatus → Bool
  | .consumed => true
  | .expired => true
  | _ => false

end TranscriptionApi.Db.UploadStatus

namespace TranscriptionApi.Uploads

open Api Auth Db Lib Mcp Pipeline Python

/-- Every session that is there stays there, and its status stays or moves
along an edge. -/
def StatusMovesOn (w : World) (_ : Event) (w' : World) : Prop :=
  ∀ i a, w.db.status? i = some a →
    ∃ b, w'.db.status? i = some b ∧ (a = b ∨ a.next b = true)

/-- A COMMIT about to happen finds none of its rows in a terminal status other
than the one it writes. -/
def CommitsOnOpenRows (w : World) (e : Event) (_ : World) : Prop :=
  ∀ p wr, Commits w e p wr → ∀ i ∈ wr.ids, ∀ st, w.db.status? i = some st →
    st.terminal = true → st = wr.target

section

variable {sv : Service} {w w' : World} {e : Event} {p : ℕ} {a : Await} {wr : Write}

theorem status?_of_committed {db : Database} (hdb : wr.apply w.db = some db) (i : Uuid) :
    db.status? i = (w.db.status? i).map fun st => if i ∈ wr.ids then wr.target else st := by
  unfold Database.status?
  rw [Write.find?_apply hdb, Option.map_map, Option.map_map]
  refine Option.map_congr fun r _ => ?_
  simp only [Function.comp_apply]
  split
  · exact wr.set_status r
  · rfl

/-- A start has checked that its session is uploaded, and no statement makes a
row `requested` again. -/
theorem consumed_not_requested (hw : Sound sv w)
    (hp : w.handlers p = some (.committing wr)) (htarget : wr.target = .consumed) {i : Uuid}
    (hi : i ∈ wr.ids) {st : UploadStatus} (hst : w.db.status? i = some st) :
    st ≠ .requested := by
  cases wr with
  | consumed row at_ tx r =>
      have hstarted : Started row := hw.facts p _ hp
      obtain ⟨r', hr', hlead⟩ := hw.known p _ hp row List.mem_cons_self
      obtain rfl := List.mem_singleton.mp hi
      obtain ⟨r'', hr'', rfl⟩ := Database.status?_eq_some_iff.mp hst
      obtain rfl := Option.some.inj (hr'.symm.trans hr'')
      exact hlead.status (by simp [hstarted.status])
  | _ => cases htarget

/-- What a COMMIT does to the statuses is in order exactly when none of its
rows has gone to another terminal status. -/
theorem statusMovesOn_committed (hw : Sound sv w) (hp : w.handlers p = some (.committing wr))
    {db : Database} (hdb : wr.apply w.db = some db) :
    StatusMovesOn w e { (w.accept wr).finish p (wr.entries a) with db := db } ↔
      ∀ i ∈ wr.ids, ∀ st, w.db.status? i = some st → st.terminal = true → st = wr.target := by
  constructor
  · intro h i hi st hst hterminal
    obtain ⟨b, hb, hmove⟩ := h i st hst
    change db.status? i = some b at hb
    rw [status?_of_committed hdb, hst, Option.map_some, if_pos hi, Option.some.injEq] at hb
    rcases hmove with heq | hnext
    · rw [heq, hb]
    · -- no edge leaves a terminal status
      cases st with
      | requested => cases hterminal
      | uploaded => cases hterminal
      | consumed => cases hnext
      | expired => cases hnext
  · intro h i st hst
    refine ⟨_, (status?_of_committed hdb i).trans (by rw [hst, Option.map_some]), ?_⟩
    split
    · rename_i hi
      cases htarget : wr.target with
      | requested => exact absurd htarget wr.target_ne_requested
      | uploaded =>
          cases st with
          | requested => exact .inr rfl
          | uploaded => exact .inl rfl
          | consumed => simpa [htarget] using h i hi _ hst rfl
          | expired => simpa [htarget] using h i hi _ hst rfl
      | consumed =>
          cases st with
          | requested => exact absurd rfl (consumed_not_requested hw hp htarget hi hst)
          | uploaded => exact .inr rfl
          | consumed => exact .inl rfl
          | expired => simpa [htarget] using h i hi _ hst rfl
      | expired =>
          cases st with
          | requested => exact .inr rfl
          | uploaded => exact .inr rfl
          | consumed => simpa [htarget] using h i hi _ hst rfl
          | expired => exact .inl rfl
    · exact .inl rfl

/-- A step that is no COMMIT changes no status. -/
theorem statusMovesOn_of_not_committing (h : SessionsChange w w' e)
    (hno : ∀ p wr, ¬ Commits w e p wr) : StatusMovesOn w e w' := by
  intro i a ha
  cases h with
  | same h =>
      refine ⟨a, ?_, .inl rfl⟩
      rw [Database.status?, h]
      exact ha
  | requested row hfree hnonce hstatus huploaded hconsumed hbound h =>
      obtain ⟨r, hr, rfl⟩ := Database.status?_eq_some_iff.mp ha
      have hne : row.id ≠ i := by
        rintro rfl
        rw [World.session?, hr] at hfree
        cases hfree
      refine ⟨r.status, Database.status?_eq_some_iff.mpr ⟨r, ?_, rfl⟩, .inl rfl⟩
      have hrow := h i
      rw [if_neg hne] at hrow
      exact hrow.trans hr
  | committed p wr hc h => exact absurd hc (hno p wr)

theorem statusMovesOn_iff_step (hw : Sound sv w) (h : (service sv).step w e = some w') :
    StatusMovesOn w e w' ↔ CommitsOnOpenRows w e w' := by
  rcases commit_cases h with ⟨p, a, wr, db, hc, hdb, rfl⟩ | hno
  · rw [statusMovesOn_committed hw hc.handler hdb, CommitsOnOpenRows]
    symm
    exact hc.forall_iff
  · refine ⟨fun _ p wr hc => absurd hc (hno p wr), fun _ => ?_⟩
    exact statusMovesOn_of_not_committing (step_moves h).sessions hno

end

/-- Over every interleaving, the statuses move along the state machine exactly
when every COMMIT finds its rows still open, or already where it moves them. -/
theorem statusMovesOn_iff (sv : Service) {w : World} (hw : Initial w) (es : List Event) :
    (service sv).Along StatusMovesOn w es ↔ (service sv).Along CommitsOnOpenRows w es :=
  (service sv).along_iff (fun _ _ _ hs hstep _ => sound_step hs hstep)
    (fun _ _ _ hs hstep => statusMovesOn_iff_step hs hstep) (sound_initial hw)

/-- Two requests upload to one session; it is transcribed when the first is
through, and then the second finishes. -/
def lateUpload : List Event :=
  [requestAudio, .uploadAudio 0 uploadRequest, .uploadAudio 1 uploadRequest] ++
    finishUpload 0 [1, 2, 3, 4] ++ [start 2] ++ finishStart 2 9 ++
    [go 1 .ok, go 1 (.chunk [1, 2, 3, 4]), go 1 (.chunk []), go 1 .ok]

theorem statusMovesOn_iff_lateUpload :
    (service plainService).Along StatusMovesOn emptyWorld lateUpload ↔
      (service plainService).Along CommitsOnOpenRows emptyWorld lateUpload :=
  statusMovesOn_iff plainService initial_emptyWorld lateUpload

def statusAfter (es : List Event) (i : Uuid) : Option UploadStatus :=
  ((service plainService).run emptyWorld es).bind fun w => w.db.status? i

/-- The second upload takes the consumed session back to `uploaded`. -/
theorem statusMovesOn_fails :
    ¬ ∀ (sv : Service) (w : World) (es : List Event), Initial w →
      (service sv).Along StatusMovesOn w es := by
  intro h
  have hbefore : statusAfter lateUpload 7 = some .consumed := by decide +kernel
  have hafter : statusAfter (lateUpload ++ [go 1 .ok]) 7 = some .uploaded := by decide +kernel
  obtain ⟨w, hw, hconsumed⟩ := Option.bind_eq_some_iff.mp hbefore
  obtain ⟨w', hw', huploaded⟩ := Option.bind_eq_some_iff.mp hafter
  rw [System.run_append, hw, Option.bind_some, System.run_cons_eq_some] at hw'
  obtain ⟨w'', hstep, hrun⟩ := hw'
  obtain rfl := Option.some.inj hrun
  have hmoves := System.Along.at_step _
    (h plainService emptyWorld (lateUpload ++ go 1 .ok :: []) initial_emptyWorld) hw hstep
  obtain ⟨b, hb, hnext⟩ := hmoves 7 _ hconsumed
  rw [huploaded, Option.some.injEq] at hb
  subst hb
  revert hnext
  decide

end TranscriptionApi.Uploads
