import TranscriptionApi.Pipeline.Lock

/-!
What a caller of `orchestrate` learns of the deadline of its pipeline.

The `except TimeoutError` around the second `wait_for` answers for two things: the
`TimeoutError` that `wait_for` raises when the deadline has passed, and one that the
pipeline raises itself, which `wait_for` hands on like any other exception. Here the
runs of `orchestration` carry the exceptions along, and a note of each deadline that
passed while its pipeline was running. What a call leaves with is then a function of
these notes.
-/

namespace TranscriptionApi.Pipeline

open Lib

/-- The calls, with the exceptions their pipelines raised and what became of their
deadlines. -/
structure Traced (ε : Type) where
  process : Process
  raised : ℕ → Option ε
  /-- the deadline passed while the pipeline was running -/
  expired : ℕ → Bool
  /-- after that the call was cancelled from outside, before the pipeline had ended -/
  cutOff : ℕ → Bool

/-- A turn, or the turn of a pipeline that raises an exception. -/
inductive TracedEvent (ε : Type) where
  | turn (e : Event)
  | raises (p : ℕ) (exc : ε)

/-- How a call of `orchestrate` ends for its caller. -/
inductive CallEnd (ε : Type) where
  | returned
  | gpuBusy
  | pipelineTimeout
  | raised (exc : ε)
  | cancelled

/-- The call waits for its pipeline, which has not ended. -/
def Process.awaitsPipeline (s : Process) (p : ℕ) : Bool :=
  (s.calls p).any fun c => c.phase = .running && c.pipeline.alive

/-- The call waits for the end of the pipeline it has stopped at the deadline. -/
def Process.awaitsStopped (s : Process) (p : ℕ) : Bool :=
  (s.calls p).any fun c => c.phase = .stopping true

section Steps

variable {ε : Type} (isTimeoutError : ε → Bool)

def tracedStep (s : Traced ε) : TracedEvent ε → Option (Traced ε)
  | .turn (.pipelineRuns _ (.raised _)) => none
  | .turn e => (step s.process e).map fun process =>
      { s with
        process
        expired := fun p => s.expired p || (e = .deadline p && s.process.awaitsPipeline p)
        cutOff := fun p => s.cutOff p || (e = .cancel p && s.process.awaitsStopped p) }
  | .raises p exc =>
      -- in a cancelled pipeline the await raises `CancelledError` first
      if (s.process.calls p).any Call.pipelineCancelled then none
      else (step s.process (.pipelineRuns p (.raised (isTimeoutError exc)))).map fun process =>
        { s with process, raised := Function.update s.raised p (some exc) }

def tracedOrchestration : System (Traced ε) (TracedEvent ε) := ⟨tracedStep isTimeoutError⟩

/-- The event without its exception. -/
def TracedEvent.plain : TracedEvent ε → Event
  | .turn e => e
  | .raises p exc => .pipelineRuns p (.raised (isTimeoutError exc))

/-- What the caller gets, with the exception that the pipeline raised. -/
def Outcome.leaves (raised : Option ε) : Outcome → Option (CallEnd ε)
  | .returned => some .returned
  | .gpuBusy => some .gpuBusy
  | .pipelineTimeout => some .pipelineTimeout
  | .raised => raised.map .raised
  | .cancelled => some .cancelled

/-- What leaves a call of `orchestrate` that has ended. -/
def Traced.leaves (s : Traced ε) (p : ℕ) : Option (CallEnd ε) :=
  match (s.process.calls p).map Call.phase with
  | some (.ended outcome) => outcome.leaves (s.raised p)
  | _ => none

end Steps

/-! ### What the notes say -/

section Noted

variable {ε : Type} (isTimeoutError : ε → Bool)

/-- How a pipeline ends that raises `exc`. -/
def endOf (exc : ε) : PipelineEnd := if isTimeoutError exc then .timeoutError else .raised

/-- The outcome of a call, from what is noted of it. -/
inductive EndedAs : Outcome → Option ε → Bool → Bool → Prop
  | quiet (outcome : Outcome) (htimeout : outcome ≠ .pipelineTimeout)
      (hraised : outcome ≠ .raised) : EndedAs outcome none false false
  | raised (exc : ε) : EndedAs (endOf isTimeoutError exc).outcome (some exc) false false
  | expired : EndedAs .pipelineTimeout none true false
  | cutOff : EndedAs .cancelled none true true

/-- What is noted of a call, by its phase. -/
structure Call.Noted (c : Call) (raised : Option ε) (expired cutOff : Bool) : Prop where
  before : c.phase = .acquiring ∨ (∃ timedOut, c.phase = .abandoning timedOut) →
    raised = none ∧ expired = false ∧ cutOff = false
  running : c.phase = .running → expired = false ∧ cutOff = false ∧
    (raised = none ∧ (∀ r, c.pipeline = .done r → r = .returned ∨ r = .cancelled) ∨
      ∃ exc, raised = some exc ∧ c.pipeline = .done (endOf isTimeoutError exc))
  stopping : ∀ timedOut, c.phase = .stopping timedOut → raised = none ∧ expired = timedOut ∧
    cutOff = false ∧ ∀ r, c.pipeline = .done r → r = .cancelled
  ended : ∀ outcome, c.phase = .ended outcome →
    EndedAs isTimeoutError outcome raised expired cutOff

variable {isTimeoutError} {s s' : Process} {p : ℕ} {c : Call} {raised : Option ε}
  {expired cutOff : Bool}

/-- The `acquire` task is not looked at. -/
theorem Call.Noted.setAcquire (h : c.Noted isTimeoutError raised expired cutOff)
    (acquire : AcquireTask) :
    Call.Noted isTimeoutError { c with acquire } raised expired cutOff :=
  ⟨h.before, h.running, h.stopping, h.ended⟩

theorem Call.Noted.abandon (h : c.Noted isTimeoutError raised expired cutOff)
    (hphase : c.phase = .acquiring) (timedOut : Bool) :
    Call.Noted isTimeoutError { c with phase := .abandoning timedOut, acquireCancelled := true }
      raised expired cutOff where
  before := fun _ => h.before (.inl hphase)
  running := fun h => by cases h
  stopping := fun _ h => by cases h
  ended := fun _ h => by cases h

theorem Call.Noted.proceed (h : c.Noted isTimeoutError raised expired cutOff)
    (hphase : c.phase = .acquiring ∨ ∃ timedOut, c.phase = .abandoning timedOut) :
    Call.Noted isTimeoutError { c with phase := .running, pipeline := .created } raised expired
      cutOff where
  before := fun h => by rcases h with h | ⟨_, h⟩ <;> cases h
  running := fun _ => by
    obtain ⟨hraised, hexpired, hcutOff⟩ := h.before hphase
    exact ⟨hexpired, hcutOff, .inl ⟨hraised, fun r hr => by cases hr⟩⟩
  stopping := fun _ h => by cases h
  ended := fun _ h => by cases h

theorem Call.noted_ended {outcome : Outcome}
    (h : EndedAs isTimeoutError outcome raised expired cutOff) :
    Call.Noted isTimeoutError { c with phase := .ended outcome } raised expired cutOff where
  before := fun h => by rcases h with h | ⟨_, h⟩ <;> cases h
  running := fun h => by cases h
  stopping := fun _ h => by cases h
  ended := fun _ h' => by
    cases h'
    exact h

/-- A call that ends before it has the lock. -/
theorem Call.Noted.leave (h : c.Noted isTimeoutError raised expired cutOff)
    (hphase : c.phase = .acquiring ∨ ∃ timedOut, c.phase = .abandoning timedOut)
    {outcome : Outcome} (htimeout : outcome ≠ .pipelineTimeout) (hraised : outcome ≠ .raised) :
    Call.Noted isTimeoutError { c with phase := .ended outcome } raised expired cutOff := by
  obtain ⟨rfl, rfl, rfl⟩ := h.before hphase
  exact Call.noted_ended (.quiet outcome htimeout hraised)

/-- While its pipeline is alive a call has nothing noted that it raised. -/
theorem Call.Noted.quiet_of_alive (h : c.Noted isTimeoutError raised expired cutOff)
    (hphase : c.phase = .running) (halive : c.pipeline.alive = true) : raised = none := by
  obtain ⟨-, -, ⟨hraised, -⟩ | ⟨exc, -, hdone⟩⟩ := h.running hphase
  · exact hraised
  · rw [hdone] at halive
    cases halive

/-- The pipeline moves on, or is interrupted. -/
theorem Call.Noted.setPipeline (h : c.Noted isTimeoutError raised expired cutOff)
    (halive : c.pipeline.alive = true) {pipeline : PipelineTask}
    (hquiet : ∀ r, pipeline = .done r → r = .returned ∨ r = .cancelled)
    (hstopped : ∀ timedOut, c.phase = .stopping timedOut →
      ∀ r, pipeline = .done r → r = .cancelled) :
    Call.Noted isTimeoutError { c with pipeline } raised expired cutOff where
  before := h.before
  running := fun hphase => by
    obtain ⟨hexpired, hcutOff, -⟩ := h.running hphase
    exact ⟨hexpired, hcutOff, .inl ⟨h.quiet_of_alive hphase halive, hquiet⟩⟩
  stopping := fun timedOut hphase => by
    obtain ⟨hraised, hexpired, hcutOff, -⟩ := h.stopping timedOut hphase
    exact ⟨hraised, hexpired, hcutOff, hstopped timedOut hphase⟩
  ended := h.ended

end Noted

/-! ### The runs -/

section Runs

variable {ε : Type} {isTimeoutError : ε → Bool} {s t : Traced ε} {p : ℕ}

/-- The notes of every call agree with it. -/
structure Traced.Sound (isTimeoutError : ε → Bool) (s : Traced ε) : Prop where
  accounted : Accounted s.process
  noted : ∀ p c, s.process.calls p = some c →
    c.Noted isTimeoutError (s.raised p) (s.expired p) (s.cutOff p)
  fresh : ∀ p, s.process.calls p = none →
    s.raised p = none ∧ s.expired p = false ∧ s.cutOff p = false

theorem tracedStep_turn {e : Event} (h : tracedStep isTimeoutError s (.turn e) = some t) :
    (∀ p b, e ≠ .pipelineRuns p (.raised b)) ∧ step s.process e = some t.process ∧
      t.raised = s.raised ∧
      (∀ p, t.expired p = (s.expired p || (e = .deadline p && s.process.awaitsPipeline p))) ∧
      ∀ p, t.cutOff p = (s.cutOff p || (e = .cancel p && s.process.awaitsStopped p)) := by
  unfold tracedStep at h
  split at h
  · cases h
  · rename_i e' hplain heq
    cases heq
    obtain ⟨process, hstep, rfl⟩ := Option.map_eq_some_iff.mp h
    exact ⟨hplain, hstep, rfl, fun _ => rfl, fun _ => rfl⟩
  · rename_i heq
    cases heq

theorem tracedStep_raises {exc : ε} (h : tracedStep isTimeoutError s (.raises p exc) = some t) :
    (∀ c, s.process.calls p = some c → c.pipelineCancelled = false) ∧
      step s.process (.pipelineRuns p (.raised (isTimeoutError exc))) = some t.process ∧
      t.raised = Function.update s.raised p (some exc) ∧ t.expired = s.expired ∧
      t.cutOff = s.cutOff := by
  rw [tracedStep] at h
  split at h
  · cases h
  · rename_i hrunning
    obtain ⟨process, hstep, rfl⟩ := Option.map_eq_some_iff.mp h
    refine ⟨fun c hc => ?_, hstep, rfl, rfl, rfl⟩
    rw [hc] at hrunning
    simpa using hrunning

theorem plain_of_tracedStep {e : TracedEvent ε} (h : tracedStep isTimeoutError s e = some t) :
    step s.process (e.plain isTimeoutError) = some t.process := by
  cases e with
  | turn e => exact (tracedStep_turn h).2.1
  | raises p exc => exact (tracedStep_raises h).2.1

/-- Without their notes the runs are those of `orchestration`. -/
theorem run_of_tracedRun {es : List (TracedEvent ε)}
    (hrun : (tracedOrchestration isTimeoutError).run s es = some t) :
    orchestration.run s.process (es.map (TracedEvent.plain isTimeoutError)) =
      some t.process := by
  induction es generalizing s with
  | nil =>
      rw [System.run_nil, Option.some.injEq] at hrun
      rw [hrun]
      rfl
  | cons e es ih =>
      obtain ⟨s', hstep, hrest⟩ := (System.run_cons_eq_some _).mp hrun
      exact (System.run_cons_eq_some _).mpr ⟨s'.process, plain_of_tracedStep hstep, ih hrest⟩

end Runs

end TranscriptionApi.Pipeline
