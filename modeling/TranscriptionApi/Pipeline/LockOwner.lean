import TranscriptionApi.Pipeline.Lock

/-!
Whom the lock takes for its owner.

`held_by_current_task` compares the task that ran `acquire` with the one that asks.
`orchestrate` asks from its own task, and `wait_for` has run `acquire` in another
one. So the answer is no in every state, also to the call that holds the lock. The
branch that asks is only reached once the `acquire` task was cancelled before it
had the lock, so that it has nothing to release either.
-/

namespace TranscriptionApi.Pipeline

open Lib

/-- A call that holds the lock is told so in its own task, and no other call is. -/
def OwnerSeen (s : Process) : Prop :=
  ∀ p c, s.calls p = some c → c.Holds →
    s.lock.heldByCurrentTask (.call p) = true ∧
      ∀ q, q ≠ p → s.lock.heldByCurrentTask (.call q) = false

section

variable {s : Process} {es : List Event}

/-- No task that runs `orchestrate` is ever the owner. -/
theorem OrchestrationLock.Sound.not_heldByCurrentTask {l : OrchestrationLock} (h : l.Sound)
    (p : ℕ) : l.heldByCurrentTask (.call p) = false := by
  rw [OrchestrationLock.heldByCurrentTask, decide_eq_false_iff_not]
  intro howner
  obtain ⟨q, hq⟩ := h.owner _ howner
  cases hq

/-- A call whose `acquire` task was cancelled in the queue does not hold the lock. -/
theorem not_holds_of_cancelled {c : Call} (h : c.acquire = .cancelled) : ¬c.Holds := by
  rintro ⟨htaken, -⟩
  cases h.symm.trans htaken

/-- In every state of every run, the lock answers the call that holds it as it should
exactly when no call holds it: it never does. The `TimeoutError` branch releases
nothing, and its call has nothing to release. -/
theorem ownerSeen_iff (hrun : orchestration.run idleProcess es = some s) :
    (OwnerSeen s ↔ ∀ p c, s.calls p = some c → ¬c.Holds) ∧
      (∀ p, s.lock.heldByCurrentTask (.call p) = false) ∧
      ∀ p c, s.calls p = some c → c.phase = .abandoning true → c.acquire = .cancelled →
        ¬c.Holds ∧ (gpuBusy s p c).lock = s.lock := by
  have hsound := (accounted_of_run hrun).exclusive.lock
  have hnever := hsound.not_heldByCurrentTask
  refine ⟨⟨fun h p c hc hholds => ?_, fun h p c hc hholds => absurd hholds (h p c hc)⟩, hnever,
    fun p c hc hphase hacquire => ⟨not_holds_of_cancelled hacquire, ?_⟩⟩
  · have hseen := (h p c hc hholds).1
    rw [hnever p] at hseen
    cases hseen
  · rw [gpuBusy_eq hsound]
    rfl

/-- The two turns after which a call has the lock. -/
def takenLock : List Event := [.call 0, .acquireRuns 0]

theorem exists_takenLock : ∃ s c, orchestration.run idleProcess takenLock = some s ∧
    s.calls 0 = some c ∧ c.Holds := by
  have hend : ((orchestration.run idleProcess takenLock).bind fun s =>
      (s.calls 0).map fun c => (c.acquire, c.phase)) = some (.taken, .acquiring) := by
    decide +kernel
  obtain ⟨s, hs, hend⟩ := Option.bind_eq_some_iff.mp hend
  obtain ⟨c, hc, hend⟩ := Option.map_eq_some_iff.mp hend
  obtain ⟨hacquire, hphase⟩ := Prod.mk.inj hend
  exact ⟨s, c, hs, hc, hacquire, fun outcome hended => by cases hphase.symm.trans hended⟩

theorem ownerSeen_iff_takenLock : ∃ s, orchestration.run idleProcess takenLock = some s ∧
    ¬OwnerSeen s := by
  obtain ⟨s, c, hs, hc, hholds⟩ := exists_takenLock
  exact ⟨s, hs, fun h => (ownerSeen_iff hs).1.mp h 0 c hc hholds⟩

/-- The holder is not told that it holds the lock. -/
theorem not_forall_ownerSeen :
    ¬∀ (es : List Event) (s : Process), orchestration.run idleProcess es = some s →
      OwnerSeen s := by
  intro h
  obtain ⟨s, c, hs, hc, hholds⟩ := exists_takenLock
  have hseen := (h takenLock s hs 0 c hc hholds).1
  have hsound := (accounted_of_run hs).exclusive.lock
  rw [hsound.not_heldByCurrentTask 0] at hseen
  cases hseen

end

end TranscriptionApi.Pipeline
