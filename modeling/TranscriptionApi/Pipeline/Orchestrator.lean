import Mathlib.Logic.Function.Basic
import TranscriptionApi.Lib.AsyncLock
import TranscriptionApi.Lib.Transition

/-!
`orchestrate`: the lock, the two `wait_for` calls around it and around the
pipeline, and the worker threads the pipeline hands its stages to.

`asyncio.wait_for`, as Python 3.10 and 3.11 have it, runs the awaited coroutine
in a task of its own. When the deadline passes, or the caller is cancelled, it
cancels that task and waits for it to end; when the task has already ended its
result counts, whatever woke the caller. So a call consists of its own task and
of two more, which the event loop runs in any order, and a step below is one
turn of one of them. A stage runs in a thread that no cancellation reaches:
cancelling the pipeline only takes back work that no thread has picked up yet.
-/

namespace TranscriptionApi.Pipeline

open Lib

/-- The tasks that deal with the lock: the one that runs `orchestrate`, and the
one `wait_for` makes of `acquire`. -/
inductive Task where
  | call (p : ℕ)
  | acquire (p : ℕ)
  deriving DecidableEq

/-- `_OrchestrationLock`. -/
structure OrchestrationLock where
  lock : AsyncLock Task
  ownerTask : Option Task

namespace OrchestrationLock

def release (l : OrchestrationLock) : OrchestrationLock := ⟨l.lock.release, none⟩

def heldByCurrentTask (l : OrchestrationLock) (current : Task) : Bool :=
  l.ownerTask = some current

/-- The `except CancelledError` branch of `acquire`. -/
def leave (l : OrchestrationLock) (t : Task) : OrchestrationLock :=
  if (l.lock.abandon t).locked && l.ownerTask.isNone then
    { l with lock := (l.lock.abandon t).release }
  else { l with lock := l.lock.abandon t }

end OrchestrationLock

/-- What the pipeline runs in worker threads. -/
inductive Stage where
  | normalize
  | transcribe
  | diarize
  deriving DecidableEq

/-- The stages that use the models on the GPU. -/
def Stage.gpu : Stage → Bool
  | .normalize => false
  | .transcribe => true
  | .diarize => true

/-- The work item of a stage. -/
inductive Job where
  | idle
  | queued
  | executing
  | finished
  deriving DecidableEq

inductive PipelineEnd where
  | returned
  | timeoutError
  | raised
  | cancelled
  deriving DecidableEq

/-- The task of `_run_pipeline`, by the await it is in. -/
inductive PipelineTask where
  | absent
  | created
  | awaiting (stage : Stage)
  | persisting
  | done (result : PipelineEnd)
  deriving DecidableEq

/-- The task of `_orchestrator_lock.acquire`. -/
inductive AcquireTask where
  | created
  | waiting
  | taken
  | cancelled
  deriving DecidableEq

inductive Outcome where
  | returned
  | gpuBusy
  | pipelineTimeout
  | raised
  | cancelled
  deriving DecidableEq

/-- Where the task of the call is. -/
inductive Phase where
  /-- in the `wait_for` of the lock -/
  | acquiring
  /-- that `wait_for` has cancelled its task -/
  | abandoning (timedOut : Bool)
  /-- in the `wait_for` of the pipeline, the lock held -/
  | running
  /-- that `wait_for` has cancelled its task -/
  | stopping (timedOut : Bool)
  | ended (outcome : Outcome)
  deriving DecidableEq

structure Call where
  phase : Phase
  acquire : AcquireTask
  acquireCancelled : Bool
  pipeline : PipelineTask
  pipelineCancelled : Bool

structure Process where
  lock : OrchestrationLock
  calls : ℕ → Option Call
  jobs : ℕ → Stage → Job

/-- What a turn of the pipeline comes to, up to its next await. -/
inductive Turn where
  | ok
  /-- a cache hit after `normalize`, no segments after `transcribe` -/
  | shortcut
  | raised (timeoutError : Bool)
  deriving DecidableEq

inductive Event where
  | call (p : ℕ)
  | acquireRuns (p : ℕ)
  /-- the awaited task has ended -/
  | resume (p : ℕ)
  /-- the deadline of the `wait_for` the call is in -/
  | deadline (p : ℕ)
  | cancel (p : ℕ)
  | pipelineRuns (p : ℕ) (turn : Turn)
  | jobStarts (p : ℕ) (stage : Stage)
  | jobEnds (p : ℕ) (stage : Stage)
  | jobCancelled (p : ℕ) (stage : Stage)
  deriving DecidableEq

namespace Process

def setCall (s : Process) (p : ℕ) (c : Call) : Process :=
  { s with calls := Function.update s.calls p (some c) }

def setJob (s : Process) (p : ℕ) (stage : Stage) (job : Job) : Process :=
  { s with jobs := Function.update s.jobs p (Function.update (s.jobs p) stage job) }

end Process

def newCall : Call where
  phase := .acquiring
  acquire := .created
  acquireCancelled := false
  pipeline := .absent
  pipelineCancelled := false

/-- How the exception or the result of the pipeline leaves `orchestrate`. -/
def PipelineEnd.outcome : PipelineEnd → Outcome
  | .returned => .returned
  | .timeoutError => .pipelineTimeout
  | .raised => .raised
  | .cancelled => .cancelled

/-- The same after `wait_for` has cancelled the pipeline at its deadline, which
turns `CancelledError` into `TimeoutError`. -/
def PipelineEnd.stopped : PipelineEnd → Outcome
  | .cancelled => .pipelineTimeout
  | r => r.outcome

namespace PipelineTask

def alive : PipelineTask → Bool
  | .absent => false
  | .done _ => false
  | _ => true

/-- The body of `_run_pipeline` from one await to the next. -/
def next : PipelineTask → Turn → PipelineTask
  | _, .raised true => .done .timeoutError
  | _, .raised false => .done .raised
  | .created, _ => .awaiting .normalize
  | .awaiting .normalize, .ok => .awaiting .transcribe
  | .awaiting .normalize, .shortcut => .persisting
  | .awaiting .transcribe, .ok => .awaiting .diarize
  | .awaiting .transcribe, .shortcut => .persisting
  | .awaiting .diarize, _ => .persisting
  | .persisting, _ => .done .returned
  | pipeline, _ => pipeline

/-- What the task awaits has ended. -/
def ready (jobs : Stage → Job) : PipelineTask → Bool
  | .created => true
  | .awaiting stage => jobs stage = .finished
  | .persisting => true
  | _ => false

end PipelineTask

section Step

variable (s : Process) (p : ℕ) (c : Call)

/-- The task of `acquire` runs. -/
def acquireRuns : Option Process :=
  match c.acquire with
  | .created =>
      if c.acquireCancelled then some (s.setCall p { c with acquire := .cancelled })
      else if s.lock.lock.available then
        some { s.setCall p { c with acquire := .taken } with
          lock := ⟨s.lock.lock.take, some (.acquire p)⟩ }
      else
        some { s.setCall p { c with acquire := .waiting } with
          lock := { s.lock with lock := s.lock.lock.enqueue (.acquire p) } }
  | .waiting =>
      if c.acquireCancelled then
        some { s.setCall p { c with acquire := .cancelled } with lock := s.lock.leave (.acquire p) }
      else if s.lock.lock.status (.acquire p) = some .woken then
        some { s.setCall p { c with acquire := .taken } with
          lock := ⟨s.lock.lock.wakeTake (.acquire p), some (.acquire p)⟩ }
      else none
  | _ => none

/-- `wait_for` cancels the task of `acquire`. -/
def cancelAcquire (timedOut : Bool) : Process :=
  { s.setCall p { c with phase := .abandoning timedOut, acquireCancelled := true } with
    lock := { s.lock with lock := s.lock.lock.cancelWaiter (.acquire p) } }

/-- `acquired = True`, and `wait_for` makes a task of the pipeline. -/
def proceed : Process := s.setCall p { c with phase := .running, pipeline := .created }

def leave (outcome : Outcome) : Process := s.setCall p { c with phase := .ended outcome }

/-- The `except TimeoutError` branch around the lock. -/
def gpuBusy : Process :=
  { leave s p c .gpuBusy with
    lock := if s.lock.heldByCurrentTask (.call p) then s.lock.release else s.lock }

/-- `wait_for` cancels the task of the pipeline. -/
def stop (timedOut : Bool) : Process :=
  s.setCall p { c with phase := .stopping timedOut, pipelineCancelled := true }

/-- The `finally` block: the lock was acquired. -/
def finish (outcome : Outcome) : Process := { leave s p c outcome with lock := s.lock.release }

/-- The task of the call runs after the awaited task has ended. -/
def resume : Option Process :=
  match c.phase with
  | .acquiring =>
      match c.acquire with
      | .taken => some (proceed s p c)
      | .cancelled => some (leave s p c .cancelled)
      | _ => none
  | .abandoning timedOut =>
      match c.acquire with
      | .taken => some (if timedOut then proceed s p c else leave s p c .cancelled)
      | .cancelled => some (if timedOut then gpuBusy s p c else leave s p c .cancelled)
      | _ => none
  | .running =>
      match c.pipeline with
      | .done r => some (finish s p c r.outcome)
      | _ => none
  | .stopping timedOut =>
      match c.pipeline with
      | .done r => some (finish s p c (if timedOut then r.stopped else .cancelled))
      | _ => none
  | .ended _ => none

/-- The task of the call runs because the deadline has passed. -/
def deadline : Option Process :=
  match c.phase with
  | .acquiring =>
      match c.acquire with
      | .created | .waiting => some (cancelAcquire s p c true)
      | _ => resume s p c
  | .running => if c.pipeline.alive then some (stop s p c true) else resume s p c
  | _ => none

/-- The task of the call runs because it was cancelled. -/
def cancel : Option Process :=
  match c.phase with
  | .acquiring =>
      match c.acquire with
      | .created | .waiting => some (cancelAcquire s p c false)
      | _ => resume s p c
  | .abandoning _ => some (leave s p c .cancelled)
  | .running => if c.pipeline.alive then some (stop s p c false) else resume s p c
  | .stopping _ => some (finish s p c .cancelled)
  | .ended _ => none

/-- The task of the pipeline runs. -/
def pipelineRuns (turn : Turn) : Option Process :=
  if c.pipeline.alive && c.pipelineCancelled then
    some (s.setCall p { c with pipeline := .done .cancelled })
  else if c.pipeline.ready (s.jobs p) then
    let next := s.setCall p { c with pipeline := c.pipeline.next turn }
    match c.pipeline.next turn with
    | .awaiting stage => some (next.setJob p stage .queued)
    | _ => some next
  else none

end Step

def step (s : Process) : Event → Option Process
  | .call p => if (s.calls p).isNone then some (s.setCall p newCall) else none
  | .acquireRuns p => (s.calls p).bind (acquireRuns s p)
  | .resume p => (s.calls p).bind (resume s p)
  | .deadline p => (s.calls p).bind (deadline s p)
  | .cancel p => (s.calls p).bind (cancel s p)
  | .pipelineRuns p turn => (s.calls p).bind fun c => pipelineRuns s p c turn
  | .jobStarts p stage =>
      if s.jobs p stage = .queued then some (s.setJob p stage .executing) else none
  | .jobEnds p stage =>
      if s.jobs p stage = .executing then some (s.setJob p stage .finished) else none
  | .jobCancelled p stage =>
      if s.jobs p stage = .queued ∧ (s.calls p).any Call.pipelineCancelled then
        some (s.setJob p stage .idle)
      else none

/-- The calls of `orchestrate` in one process. -/
def orchestration : System Process Event := ⟨step⟩

/-- No call has been made yet. -/
def idleProcess : Process where
  lock := ⟨.free, none⟩
  calls := fun _ => none
  jobs := fun _ _ => .idle

end TranscriptionApi.Pipeline
