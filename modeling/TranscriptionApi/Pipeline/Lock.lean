import TranscriptionApi.Pipeline.Advances

/-!
The lock is only let go by the call that holds it, and never stays behind.

A call that holds the lock is its owner; here is the converse, that an owner is
a call on its way to the release. What could break it is an `acquire` task that
outlives its call: `wait_for` has cancelled it, the call has ended, and it still
waits in the queue. Such a task never takes the lock, since the cancellation is
the first thing it sees when it runs again.
-/

namespace TranscriptionApi.Pipeline

open Lib

/-- What a call and its `acquire` task know of each other. -/
structure Call.Paired (c : Call) : Prop where
  /-- a cancelled task does not take the lock -/
  withdrawn : c.acquireCancelled = true → c.acquire ≠ .taken
  gone : c.acquire = .cancelled → c.acquireCancelled = true
  abandoning : ∀ timedOut, c.phase = .abandoning timedOut → c.acquireCancelled = true
  /-- a task nobody has cancelled is awaited by its call -/
  awaited : c.acquire ≠ .taken → c.acquireCancelled = false → c.phase = .acquiring

theorem paired_newCall : newCall.Paired := by
  constructor <;> simp [newCall]

structure Accounted (s : Process) : Prop where
  exclusive : Exclusive s
  paired : ∀ p c, s.calls p = some c → c.Paired
  /-- the owner of the lock is a call that holds it -/
  owned : ∀ p, s.lock.ownerTask = some (.acquire p) → ∃ c, s.calls p = some c ∧ c.Holds

section

variable {s s' : Process} {p : ℕ} {c : Call} {e : Event}

/-- A turn that changes one call and not the owner of the lock. -/
theorem accounted_setCall (h : Accounted s) (hs' : Exclusive s') (c' : Call)
    (hc : s.calls p = some c) (hcalls : s'.calls = (s.setCall p c').calls)
    (howner : s'.lock.ownerTask = s.lock.ownerTask) (hpaired : c'.Paired)
    (hholds : c.Holds → c'.Holds) : Accounted s' where
  exclusive := hs'
  paired := fun q d hq => by
    rw [hcalls] at hq
    rcases calls_setCall hq with ⟨-, rfl⟩ | ⟨-, hq⟩
    · exact hpaired
    · exact h.paired q d hq
  owned := fun q hq => by
    rw [howner] at hq
    obtain ⟨d, hd, hdholds⟩ := h.owned q hq
    rw [hcalls]
    by_cases hqp : q = p
    · subst hqp
      obtain rfl := Option.some.inj (hc.symm.trans hd)
      exact ⟨c', Function.update_self .., hholds hdholds⟩
    · exact ⟨d, (Function.update_of_ne hqp ..).trans hd, hdholds⟩

/-- The end of a call that does not hold the lock, and of one that releases it. -/
theorem Call.paired_ended (outcome : Outcome) (h : c.Paired)
    (hdone : c.acquire = .taken ∨ c.acquireCancelled = true) :
    Call.Paired { c with phase := .ended outcome } := by
  refine ⟨h.withdrawn, h.gone, fun timedOut hphase => by simp at hphase, fun hnot hkept => ?_⟩
  rcases hdone with htaken | hcancelled
  · exact absurd htaken hnot
  · rw [hkept] at hcancelled
    cases hcancelled

theorem Call.Paired.setPipeline (h : c.Paired) (pipeline : PipelineTask) :
    Call.Paired { c with pipeline } :=
  ⟨h.withdrawn, h.gone, h.abandoning, h.awaited⟩

theorem accounted_step (h : Accounted s) (hstep : orchestration.step s e = some s') :
    Accounted s' := by
  have hs' := exclusive_step h.exclusive hstep
  cases step_advances h.exclusive.lock hstep with
  | called p hc =>
      refine ⟨hs', fun q d hq => ?_, fun q hq => ?_⟩
      · rcases calls_setCall hq with ⟨-, rfl⟩ | ⟨-, hq⟩
        · exact paired_newCall
        · exact h.paired q d hq
      · obtain ⟨d, hd, hholds⟩ := h.owned q hq
        have hqp : q ≠ p := by
          rintro rfl
          cases hc.symm.trans hd
        exact ⟨d, (Function.update_of_ne hqp ..).trans hd, hholds⟩
  | took p c lock hc hbefore hwanted =>
      have hpaired := h.paired p c hc
      have hphase := hpaired.awaited hbefore hwanted
      refine ⟨hs', fun q d hq => ?_, fun q hq => ?_⟩
      · rcases calls_setCall hq with ⟨-, rfl⟩ | ⟨-, hq⟩
        · constructor <;> simp [hwanted, hphase]
        · exact h.paired q d hq
      · obtain rfl := Task.acquire.inj (Option.some.inj hq)
        refine ⟨_, Function.update_self .., rfl, fun outcome hended => ?_⟩
        cases hphase.symm.trans hended
  | waits p c acquire lock hc hbefore hacquire hgone =>
      have hpaired := h.paired p c hc
      apply accounted_setCall h hs' { c with acquire } hc rfl rfl
      · exact ⟨fun _ => hacquire, hgone, hpaired.abandoning, fun _ => hpaired.awaited hbefore⟩
      · exact fun hholds => absurd hholds.1 hbefore
  | abandoned e p c timedOut hc hphase hacquire =>
      apply accounted_setCall h hs'
        { c with phase := .abandoning timedOut, acquireCancelled := true } hc rfl rfl
      · exact ⟨fun _ => hacquire, fun _ => rfl, fun _ _ => rfl, fun _ hkept => nomatch hkept⟩
      · exact fun hholds => absurd hholds.1 hacquire
  | proceeded e p c hc hphase hacquire =>
      have hpaired := h.paired p c hc
      apply accounted_setCall h hs' { c with phase := .running, pipeline := .created } hc rfl rfl
      · exact ⟨hpaired.withdrawn, hpaired.gone, fun _ hphase => (nomatch hphase),
          fun hnot => absurd hacquire hnot⟩
      · exact fun _ => ⟨hacquire, fun _ hended => nomatch hended⟩
  | left e p c outcome hc hphase =>
      have hpaired := h.paired p c hc
      have hcancelled : c.acquireCancelled = true := by
        rcases hphase with ⟨-, hacquire⟩ | ⟨timedOut, hphase⟩
        · exact hpaired.gone hacquire
        · exact hpaired.abandoning timedOut hphase
      apply accounted_setCall h hs' { c with phase := .ended outcome } hc rfl rfl
      · exact Call.paired_ended outcome hpaired (.inr hcancelled)
      · exact fun hholds => absurd hholds.1 (hpaired.withdrawn hcancelled)
  | stopped e p c timedOut he hc hphase =>
      have hpaired := h.paired p c hc
      have htaken := (h.exclusive.call p c hc).running hphase
      apply accounted_setCall h hs'
        { c with phase := .stopping timedOut, pipelineCancelled := true } hc rfl rfl
      · exact ⟨hpaired.withdrawn, hpaired.gone, fun _ hphase => (nomatch hphase),
          fun hnot => absurd htaken hnot⟩
      · exact fun _ => ⟨htaken, fun _ hended => nomatch hended⟩
  | finished e p c outcome he hc hphase =>
      have htaken := ((h.exclusive.call p c hc).holds (hphase.imp_left And.left)).1
      refine ⟨hs', fun q d hq => ?_, fun q hq => nomatch hq⟩
      rcases calls_setCall hq with ⟨-, rfl⟩ | ⟨-, hq⟩
      · exact Call.paired_ended outcome (h.paired p c hc) (.inl htaken)
      · exact h.paired q d hq
  | interrupted p turn c hc =>
      exact accounted_setCall h hs' { c with pipeline := .done .cancelled } hc rfl rfl
        ((h.paired p c hc).setPipeline _) fun hholds => hholds
  | turned p turn c pipeline hc =>
      exact accounted_setCall h hs' { c with pipeline } hc rfl rfl
        ((h.paired p c hc).setPipeline _) fun hholds => hholds
  | submitted p turn c stage hc =>
      exact accounted_setCall h hs' { c with pipeline := .awaiting stage } hc rfl rfl
        ((h.paired p c hc).setPipeline _) fun hholds => hholds
  | jobStarted p stage hjob => exact ⟨hs', h.paired, h.owned⟩
  | jobEnded e p stage job hjob hjob' => exact ⟨hs', h.paired, h.owned⟩

theorem accounted_idle : Accounted idleProcess where
  exclusive := exclusive_idle
  paired := fun _ _ hc => nomatch hc
  owned := fun _ howner => nomatch howner

theorem accounted_of_run {es : List Event} (hrun : orchestration.run idleProcess es = some s) :
    Accounted s :=
  orchestration.invariant_run (fun _ _ _ h hstep => accounted_step h hstep) accounted_idle hrun

/-! ### Who releases -/

/-- The turns of the other calls leave the lock with its holder. -/
theorem held_of_step (h : Accounted s) {q : ℕ} {d : Call} (hq : s.calls q = some d)
    (hholds : d.Holds) (hactor : e.actor ≠ q) (hstep : orchestration.step s e = some s') :
    s'.lock.ownerTask = some (.acquire q) ∧ s'.lock.lock.locked = true := by
  have hs' := accounted_step h hstep
  have howner := h.exclusive.owner q d hq hholds
  suffices howner' : s'.lock.ownerTask = some (.acquire q) by
    refine ⟨howner', ?_⟩
    rw [hs'.exclusive.lock.locked, howner']
    rfl
  cases step_advances h.exclusive.lock hstep with
  | took p c lock hc hbefore hwanted hopen =>
      -- it would have had to find the lock open
      have hlocked := h.exclusive.lock.locked
      rw [hopen, howner] at hlocked
      cases hlocked
  | finished e p c outcome he hc hphase =>
      have hother := (h.exclusive.call p c hc).holds (hphase.imp_left And.left)
      exact absurd (he.trans (h.exclusive.eq_of_holds hc hq hother hholds)) hactor
  | _ => exact howner

/-- In every state of every run at most one call is between its acquire and its
release, no turn of another call takes the lock from it, and once all calls
have ended the lock is free. -/
theorem lock_of_run {es : List Event} (hrun : orchestration.run idleProcess es = some s) :
    (∀ p q c d, s.calls p = some c → s.calls q = some d → c.Holds → d.Holds → p = q) ∧
      (∀ e s' q d, s.calls q = some d → d.Holds → e.actor ≠ q →
        orchestration.step s e = some s' →
          s'.lock.ownerTask = some (.acquire q) ∧ s'.lock.lock.locked = true) ∧
      ((∀ p c, s.calls p = some c → ∃ outcome, c.phase = .ended outcome) →
        s.lock.lock.locked = false ∧ s.lock.ownerTask = none) := by
  have h := accounted_of_run hrun
  refine ⟨fun p q c d hp hq hc hd => h.exclusive.eq_of_holds hp hq hc hd,
    fun e s' q d hq hd hactor hstep => held_of_step h hq hd hactor hstep, fun hall => ?_⟩
  have howner : s.lock.ownerTask = none := by
    cases howner : s.lock.ownerTask with
    | none => rfl
    | some t =>
        obtain ⟨p, rfl⟩ := h.exclusive.lock.owner t howner
        obtain ⟨c, hc, hholds⟩ := h.owned p howner
        obtain ⟨outcome, hended⟩ := hall p c hc
        exact absurd hended (hholds.2 outcome)
  refine ⟨?_, howner⟩
  rw [h.exclusive.lock.locked, howner]
  rfl

/-- The first call runs, the second has timed out in the queue. -/
def crowdedLock : List Event :=
  [.call 0, .call 1, .acquireRuns 0, .acquireRuns 1, .resume 0, .deadline 1, .acquireRuns 1]

theorem lock_of_run_crowdedLock : ∃ s s', orchestration.run idleProcess crowdedLock = some s ∧
    orchestration.step s (.resume 1) = some s' ∧
      s'.lock.ownerTask = some (.acquire 0) ∧ s'.lock.lock.locked = true := by
  have hend : ((orchestration.run idleProcess crowdedLock).bind fun s =>
      (s.calls 0).bind fun c => (orchestration.step s (.resume 1)).map fun _ =>
        (c.acquire, c.phase)) = some (.taken, .running) := by decide +kernel
  obtain ⟨s, hs, hend⟩ := Option.bind_eq_some_iff.mp hend
  obtain ⟨c, hc, hend⟩ := Option.bind_eq_some_iff.mp hend
  obtain ⟨s', hs', hend⟩ := Option.map_eq_some_iff.mp hend
  obtain ⟨hacquire, hphase⟩ := Prod.mk.inj hend
  have hholds : c.Holds := ⟨hacquire, fun outcome hended => by cases hphase.symm.trans hended⟩
  exact ⟨s, s', hs, hs', (lock_of_run hs).2.1 (.resume 1) s' 0 c hc hholds (by decide) hs'⟩

end

end TranscriptionApi.Pipeline
