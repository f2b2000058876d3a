import TranscriptionApi.Pipeline.Orchestrator

/-!
What one turn can do, and what the lock is worth.

`Advances` lists the effects of a turn; the proofs about runs look at these and
not at the code. They hold in the states in which the lock is sound: it is
locked exactly while it has an owner, which is the `acquire` task of a call.
From that follows that no two calls hold it.
-/

namespace TranscriptionApi.Pipeline

open Lib

/-- The lock is locked while it has an owner, the `acquire` task of a call. -/
structure OrchestrationLock.Sound (l : OrchestrationLock) : Prop where
  fair : l.lock.Fair
  locked : l.lock.locked = l.ownerTask.isSome
  owner : ∀ t, l.ownerTask = some t → ∃ p, t = .acquire p

/-- The call whose tasks or worker threads take the turn. -/
def Event.actor : Event → ℕ
  | .call p => p
  | .acquireRuns p => p
  | .resume p => p
  | .deadline p => p
  | .cancel p => p
  | .pipelineRuns p _ => p
  | .jobStarts p _ => p
  | .jobEnds p _ => p
  | .jobCancelled p _ => p

/-- The effects of one turn. -/
inductive Advances (s : Process) : Event → Process → Prop
  | called (p : ℕ) (hc : s.calls p = none) : Advances s (.call p) (s.setCall p newCall)
  | took (p : ℕ) (c : Call) (lock : AsyncLock Task) (hc : s.calls p = some c)
      (hbefore : c.acquire ≠ .taken) (hwanted : c.acquireCancelled = false)
      (hopen : s.lock.lock.locked = false) (hlocked : lock.locked = true) (hfair : lock.Fair) :
      Advances s (.acquireRuns p)
        { s.setCall p { c with acquire := .taken } with lock := ⟨lock, some (.acquire p)⟩ }
  | waits (p : ℕ) (c : Call) (acquire : AcquireTask) (lock : AsyncLock Task)
      (hc : s.calls p = some c) (hbefore : c.acquire ≠ .taken) (hacquire : acquire ≠ .taken)
      (hgone : acquire = .cancelled → c.acquireCancelled = true)
      (hlocked : lock.locked = s.lock.lock.locked) (hfair : lock.Fair) :
      Advances s (.acquireRuns p)
        { s.setCall p { c with acquire } with lock := { s.lock with lock } }
  | abandoned (e : Event) (p : ℕ) (c : Call) (timedOut : Bool) (hc : s.calls p = some c)
      (hphase : c.phase = .acquiring) (hacquire : c.acquire ≠ .taken) :
      Advances s e (cancelAcquire s p c timedOut)
  | proceeded (e : Event) (p : ℕ) (c : Call) (hc : s.calls p = some c)
      (hphase : c.phase = .acquiring ∨ c.phase = .abandoning true)
      (hacquire : c.acquire = .taken) : Advances s e (proceed s p c)
  | left (e : Event) (p : ℕ) (c : Call) (outcome : Outcome) (hc : s.calls p = some c)
      (hphase : c.phase = .acquiring ∧ c.acquire = .cancelled ∨
        ∃ timedOut, c.phase = .abandoning timedOut) :
      Advances s e (leave s p c outcome)
  | stopped (e : Event) (p : ℕ) (c : Call) (timedOut : Bool)
      (he : e = .deadline p ∨ e = .cancel p) (hc : s.calls p = some c)
      (hphase : c.phase = .running) (halive : c.pipeline.alive = true) :
      Advances s e (stop s p c timedOut)
  | finished (e : Event) (p : ℕ) (c : Call) (outcome : Outcome) (he : e.actor = p)
      (hc : s.calls p = some c)
      (hphase : c.phase = .running ∧ c.pipeline.alive = false ∨
        ∃ timedOut, c.phase = .stopping timedOut) : Advances s e (finish s p c outcome)
  | interrupted (p : ℕ) (turn : Turn) (c : Call) (hc : s.calls p = some c)
      (hcancelled : c.pipelineCancelled = true) (halive : c.pipeline.alive = true) :
      Advances s (.pipelineRuns p turn) (s.setCall p { c with pipeline := .done .cancelled })
  | turned (p : ℕ) (turn : Turn) (c : Call) (pipeline : PipelineTask) (hc : s.calls p = some c)
      (hcancelled : c.pipelineCancelled = false) (hready : c.pipeline.ready (s.jobs p) = true)
      (hnext : ∀ stage, pipeline ≠ .awaiting stage) :
      Advances s (.pipelineRuns p turn) (s.setCall p { c with pipeline })
  | submitted (p : ℕ) (turn : Turn) (c : Call) (stage : Stage) (hc : s.calls p = some c)
      (hcancelled : c.pipelineCancelled = false) (hready : c.pipeline.ready (s.jobs p) = true) :
      Advances s (.pipelineRuns p turn)
        ((s.setCall p { c with pipeline := .awaiting stage }).setJob p stage .queued)
  | jobStarted (p : ℕ) (stage : Stage) (hjob : s.jobs p stage = .queued) :
      Advances s (.jobStarts p stage) (s.setJob p stage .executing)
  | jobEnded (e : Event) (p : ℕ) (stage : Stage) (job : Job) (hjob : job ≠ .queued)
      (hjob' : job ≠ .executing) : Advances s e (s.setJob p stage job)

section Inversion

variable {s s' : Process} {p : ℕ} {c : Call} {e : Event}

theorem PipelineTask.alive_of_ready {pipeline : PipelineTask} {jobs : Stage → Job}
    (h : pipeline.ready jobs = true) : pipeline.alive = true := by
  cases pipeline with
  | absent => cases h
  | done r => cases h
  | _ => rfl

theorem acquireRuns_advances (hl : s.lock.Sound) (hc : s.calls p = some c)
    (h : acquireRuns s p c = some s') : Advances s (.acquireRuns p) s' := by
  unfold acquireRuns at h
  split at h
  · rename_i hcreated
    have hbefore : c.acquire ≠ .taken := by simp [hcreated]
    split at h
    · rename_i hcancelled
      cases h
      exact .waits p c .cancelled s.lock.lock hc hbefore (by simp) (fun _ => hcancelled) rfl
        hl.fair
    · rename_i hwanted
      split at h
      · rename_i havailable
        cases h
        exact .took p c _ hc hbefore (by simpa using hwanted)
          (AsyncLock.unlocked_of_available havailable) rfl (hl.fair.take havailable)
      · cases h
        exact .waits p c .waiting _ hc hbefore (by simp) (fun hgone => nomatch hgone) rfl
          (hl.fair.enqueue _)
  · rename_i hwaiting
    have hbefore : c.acquire ≠ .taken := by simp [hwaiting]
    split at h
    · rename_i hcancelled
      cases h
      -- a locked lock has an owner, so there is nothing to release
      have howned : ((s.lock.lock.abandon (.acquire p)).locked && s.lock.ownerTask.isNone) =
          false := by
        rw [AsyncLock.abandon_locked, hl.locked]
        cases s.lock.ownerTask with
        | none => rfl
        | some t => rfl
      rw [OrchestrationLock.leave, howned]
      exact .waits p c .cancelled _ hc hbefore (by simp) (fun _ => hcancelled)
        (AsyncLock.abandon_locked _ _) (hl.fair.abandon _)
    · rename_i hwanted
      split at h
      · rename_i hwoken
        cases h
        exact .took p c _ hc hbefore (by simpa using hwanted) (hl.fair.unlocked_of_woken hwoken)
          rfl (hl.fair.wakeTake hwoken)
      · cases h
  · cases h

theorem gpuBusy_eq (hl : s.lock.Sound) : gpuBusy s p c = leave s p c .gpuBusy := by
  have hother : s.lock.heldByCurrentTask (.call p) = false := by
    rw [OrchestrationLock.heldByCurrentTask, decide_eq_false_iff_not]
    intro howner
    obtain ⟨q, hq⟩ := hl.owner _ howner
    cases hq
  rw [gpuBusy, hother]
  rfl

theorem resume_advances (hl : s.lock.Sound) (he : e.actor = p) (hc : s.calls p = some c)
    (h : resume s p c = some s') : Advances s e s' := by
  unfold resume at h
  cases hphase : c.phase with
  | acquiring =>
      simp only [hphase] at h
      cases hacquire : c.acquire with
      | taken =>
          rw [hacquire] at h
          cases h
          exact .proceeded e p c hc (.inl hphase) hacquire
      | cancelled =>
          rw [hacquire] at h
          cases h
          exact .left e p c _ hc (.inl ⟨hphase, hacquire⟩)
      | _ => simp [hacquire] at h
  | abandoning timedOut =>
      simp only [hphase] at h
      cases hacquire : c.acquire with
      | taken =>
          rw [hacquire] at h
          cases timedOut with
          | true =>
              cases h
              exact .proceeded e p c hc (.inr hphase) hacquire
          | false =>
              cases h
              exact .left e p c _ hc (.inr ⟨_, hphase⟩)
      | cancelled =>
          rw [hacquire] at h
          cases timedOut with
          | true =>
              obtain rfl := Option.some.inj h
              rw [if_pos rfl, gpuBusy_eq hl]
              exact .left e p c _ hc (.inr ⟨_, hphase⟩)
          | false =>
              cases h
              exact .left e p c _ hc (.inr ⟨_, hphase⟩)
      | _ => simp [hacquire] at h
  | running =>
      simp only [hphase] at h
      cases hpipeline : c.pipeline with
      | done r =>
          rw [hpipeline] at h
          cases h
          exact .finished e p c _ he hc (.inl ⟨hphase, by rw [hpipeline]; rfl⟩)
      | _ => simp [hpipeline] at h
  | stopping timedOut =>
      simp only [hphase] at h
      cases hpipeline : c.pipeline with
      | done r =>
          rw [hpipeline] at h
          cases h
          exact .finished e p c _ he hc (.inr ⟨_, hphase⟩)
      | _ => simp [hpipeline] at h
  | ended outcome => simp [hphase] at h

theorem deadline_advances (hl : s.lock.Sound) (hc : s.calls p = some c)
    (h : deadline s p c = some s') : Advances s (.deadline p) s' := by
  unfold deadline at h
  cases hphase : c.phase with
  | acquiring =>
      simp only [hphase] at h
      cases hacquire : c.acquire with
      | created =>
          rw [hacquire] at h
          cases h
          exact .abandoned _ p c true hc hphase (by simp [hacquire])
      | waiting =>
          rw [hacquire] at h
          cases h
          exact .abandoned _ p c true hc hphase (by simp [hacquire])
      | _ =>
          rw [hacquire] at h
          exact resume_advances hl rfl hc h
  | running =>
      simp only [hphase] at h
      split at h
      · rename_i halive
        cases h
        exact .stopped _ p c true (.inl rfl) hc hphase halive
      · exact resume_advances hl rfl hc h
  | _ => simp [hphase] at h

theorem cancel_advances (hl : s.lock.Sound) (hc : s.calls p = some c)
    (h : cancel s p c = some s') : Advances s (.cancel p) s' := by
  unfold cancel at h
  cases hphase : c.phase with
  | acquiring =>
      simp only [hphase] at h
      cases hacquire : c.acquire with
      | created =>
          rw [hacquire] at h
          cases h
          exact .abandoned _ p c false hc hphase (by simp [hacquire])
      | waiting =>
          rw [hacquire] at h
          cases h
          exact .abandoned _ p c false hc hphase (by simp [hacquire])
      | _ =>
          rw [hacquire] at h
          exact resume_advances hl rfl hc h
  | abandoning timedOut =>
      simp only [hphase, Option.some.injEq] at h
      subst h
      exact .left _ p c _ hc (.inr ⟨_, hphase⟩)
  | running =>
      simp only [hphase] at h
      split at h
      · rename_i halive
        cases h
        exact .stopped _ p c false (.inr rfl) hc hphase halive
      · exact resume_advances hl rfl hc h
  | stopping timedOut =>
      simp only [hphase, Option.some.injEq] at h
      subst h
      exact .finished _ p c _ rfl hc (.inr ⟨_, hphase⟩)
  | ended outcome => simp [hphase] at h

theorem pipelineRuns_advances {turn : Turn} (hc : s.calls p = some c)
    (h : pipelineRuns s p c turn = some s') : Advances s (.pipelineRuns p turn) s' := by
  unfold pipelineRuns at h
  split at h
  · rename_i hcancelled
    cases h
    obtain ⟨halive, hcancelled⟩ := (Bool.and_eq_true _ _).mp hcancelled
    exact .interrupted p turn c hc hcancelled halive
  · rename_i hkept
    split at h
    · rename_i hready
      have hcancelled : c.pipelineCancelled = false := by
        rw [PipelineTask.alive_of_ready hready] at hkept
        simpa using hkept
      cases hnext : c.pipeline.next turn with
      | awaiting stage =>
          simp only [hnext, Option.some.injEq] at h
          subst h
          exact .submitted p turn c stage hc hcancelled hready
      | _ =>
          simp only [hnext, Option.some.injEq] at h
          subst h
          exact .turned p turn c _ hc hcancelled hready (by simp)
    · cases h

theorem step_advances (hl : s.lock.Sound) (h : orchestration.step s e = some s') :
    Advances s e s' := by
  have hbind {o : Option Call} {f : Call → Option Process} (h : o.bind f = some s') :
      ∃ c, o = some c ∧ f c = some s' := Option.bind_eq_some_iff.mp h
  change step s e = some s' at h
  cases e with
  | call p =>
      simp only [step] at h
      split at h
      · rename_i hnone
        cases h
        exact .called p (Option.isNone_iff_eq_none.mp hnone)
      · cases h
  | acquireRuns p =>
      obtain ⟨c, hc, h⟩ := hbind h
      exact acquireRuns_advances hl hc h
  | resume p =>
      obtain ⟨c, hc, h⟩ := hbind h
      exact resume_advances hl rfl hc h
  | deadline p =>
      obtain ⟨c, hc, h⟩ := hbind h
      exact deadline_advances hl hc h
  | cancel p =>
      obtain ⟨c, hc, h⟩ := hbind h
      exact cancel_advances hl hc h
  | pipelineRuns p turn =>
      obtain ⟨c, hc, h⟩ := hbind h
      exact pipelineRuns_advances hc h
  | jobStarts p stage =>
      simp only [step] at h
      split at h
      · rename_i hjob
        cases h
        exact .jobStarted p stage hjob
      · cases h
  | jobEnds p stage =>
      simp only [step] at h
      split at h
      · cases h
        exact .jobEnded _ p stage _ (by simp) (by simp)
      · cases h
  | jobCancelled p stage =>
      simp only [step] at h
      split at h
      · cases h
        exact .jobEnded _ p stage _ (by simp) (by simp)
      · cases h

end Inversion

/-! ### Holding the lock -/

/-- The call is on its way from the acquisition of the lock to its release. -/
def Call.Holds (c : Call) : Prop := c.acquire = .taken ∧ ∀ outcome, c.phase ≠ .ended outcome

/-- What holds of a call wherever it is. -/
structure Call.Sound (c : Call) : Prop where
  running : c.phase = .running → c.acquire = .taken
  stopping : ∀ timedOut, c.phase = .stopping timedOut →
    c.acquire = .taken ∧ c.pipelineCancelled = true
  acquiring : c.phase = .acquiring → c.pipeline = .absent
  abandoning : ∀ timedOut, c.phase = .abandoning timedOut → c.pipeline = .absent
  ended : ∀ outcome, c.phase = .ended outcome → c.pipeline.alive = true →
    c.pipelineCancelled = true

theorem sound_newCall : newCall.Sound := by
  constructor <;> simp [newCall]

section Phases

variable {c : Call}

theorem Call.sound_abandoning (timedOut : Bool) (h : c.pipeline = .absent) :
    Call.Sound { c with phase := .abandoning timedOut, acquireCancelled := true } := by
  constructor <;> simp [h]

theorem Call.sound_running (h : c.acquire = .taken) :
    Call.Sound { c with phase := .running, pipeline := .created } := by
  constructor <;> simp [h]

theorem Call.sound_stopping (timedOut : Bool) (h : c.acquire = .taken) :
    Call.Sound { c with phase := .stopping timedOut, pipelineCancelled := true } := by
  constructor <;> simp [h]

theorem Call.sound_ended (outcome : Outcome)
    (h : c.pipeline.alive = true → c.pipelineCancelled = true) :
    Call.Sound { c with phase := .ended outcome } := by
  refine ⟨?_, ?_, ?_, ?_, fun _ _ => h⟩ <;> simp

/-- The task of `acquire` moves: it takes the lock, or it did not have it. -/
theorem Call.Sound.setAcquire (h : c.Sound) {acquire : AcquireTask}
    (hacquire : acquire = .taken ∨ c.acquire ≠ .taken) : Call.Sound { c with acquire } := by
  refine ⟨fun hphase => ?_, fun t hphase => ?_, h.acquiring, h.abandoning, h.ended⟩
  · exact hacquire.resolve_right (not_not_intro (h.running hphase))
  · obtain ⟨htaken, hcancelled⟩ := h.stopping t hphase
    exact ⟨hacquire.resolve_right (not_not_intro htaken), hcancelled⟩

end Phases

theorem PipelineTask.born_of_alive {pipeline : PipelineTask} (h : pipeline.alive = true) :
    pipeline ≠ .absent := by
  rintro rfl
  cases h

/-- A pipeline that nobody has cancelled is awaited by its call. -/
theorem Call.Sound.running_of_alive {c : Call} (h : c.Sound) (halive : c.pipeline.alive = true)
    (hcancelled : c.pipelineCancelled = false) : c.phase = .running := by
  have hborn := PipelineTask.born_of_alive halive
  cases hphase : c.phase with
  | running => rfl
  | acquiring => exact absurd (h.acquiring hphase) hborn
  | abandoning timedOut => exact absurd (h.abandoning timedOut hphase) hborn
  | stopping timedOut =>
      have hstop := (h.stopping timedOut hphase).2
      rw [hcancelled] at hstop
      cases hstop
  | ended outcome =>
      have hended := h.ended outcome hphase halive
      rw [hcancelled] at hended
      cases hended

/-- A call that runs or stops its pipeline holds the lock. -/
theorem Call.Sound.holds {c : Call} (h : c.Sound)
    (hphase : c.phase = .running ∨ ∃ timedOut, c.phase = .stopping timedOut) : c.Holds := by
  rcases hphase with hphase | ⟨timedOut, hphase⟩
  · exact ⟨h.running hphase, fun outcome hended => by cases hphase.symm.trans hended⟩
  · exact ⟨(h.stopping _ hphase).1, fun outcome hended => by cases hphase.symm.trans hended⟩

/-- The pipeline of a call only moves while the call holds the lock. -/
theorem Call.Sound.setPipeline {c : Call} (h : c.Sound) (halive : c.pipeline.alive = true)
    (pipeline : PipelineTask) : Call.Sound { c with pipeline } := by
  have hborn := PipelineTask.born_of_alive halive
  exact ⟨h.running, h.stopping, fun hphase => absurd (h.acquiring hphase) hborn,
    fun t hphase => absurd (h.abandoning t hphase) hborn, fun o hphase _ => h.ended o hphase halive⟩

structure Exclusive (s : Process) : Prop where
  lock : s.lock.Sound
  call : ∀ p c, s.calls p = some c → c.Sound
  /-- a call that holds the lock is its owner -/
  owner : ∀ p c, s.calls p = some c → c.Holds → s.lock.ownerTask = some (.acquire p)

section

variable {s s' : Process} {p q : ℕ} {c : Call} {e : Event}

theorem calls_setCall {c' : Call} (hq : (s.setCall p c).calls q = some c') :
    q = p ∧ c' = c ∨ q ≠ p ∧ s.calls q = some c' := by
  change Function.update s.calls p (some c) q = some c' at hq
  by_cases hqp : q = p
  · subst hqp
    rw [Function.update_self, Option.some.injEq] at hq
    exact .inl ⟨rfl, hq.symm⟩
  · rw [Function.update_of_ne hqp] at hq
    exact .inr ⟨hqp, hq⟩

/-- The two calls that hold the lock are one. -/
theorem Exclusive.eq_of_holds (h : Exclusive s) {c' : Call} (hp : s.calls p = some c)
    (hq : s.calls q = some c') (hc : c.Holds) (hc' : c'.Holds) : p = q := by
  have howner := (h.owner p c hp hc).symm.trans (h.owner q c' hq hc')
  exact Task.acquire.inj (Option.some.inj howner)

/-- A turn that changes one call and leaves the owner of the lock alone. -/
theorem exclusive_of_setCall (h : Exclusive s) (hc : s.calls p = some c) {c' : Call}
    {lock : AsyncLock Task} (hlocked : lock.locked = s.lock.lock.locked) (hfair : lock.Fair)
    (hcall : c'.Sound) (hholds : c'.Holds → c.Holds) :
    Exclusive { s.setCall p c' with lock := { s.lock with lock } } where
  lock := ⟨hfair, hlocked.trans h.lock.locked, h.lock.owner⟩
  call := fun q d hq => by
    rcases calls_setCall hq with ⟨-, rfl⟩ | ⟨-, hq⟩
    · exact hcall
    · exact h.call q d hq
  owner := fun q d hq hd => by
    rcases calls_setCall hq with ⟨rfl, rfl⟩ | ⟨-, hq⟩
    · exact h.owner q c hc (hholds hd)
    · exact h.owner q d hq hd

/-- A turn that leaves the lock alone. -/
theorem exclusive_setCall (h : Exclusive s) (hc : s.calls p = some c) {c' : Call}
    (hcall : c'.Sound) (hholds : c'.Holds → c.Holds) : Exclusive (s.setCall p c') :=
  exclusive_of_setCall h hc rfl h.lock.fair hcall hholds

/-- A call takes the lock while it is open, so when nobody holds it. -/
theorem exclusive_take (h : Exclusive s) (hc : s.calls p = some c) {lock : AsyncLock Task}
    (hopen : s.lock.lock.locked = false) (hlocked : lock.locked = true) (hfair : lock.Fair) :
    Exclusive { s.setCall p { c with acquire := .taken } with
      lock := ⟨lock, some (.acquire p)⟩ } where
  lock := ⟨hfair, hlocked, fun t ht => ⟨p, (Option.some.inj ht).symm⟩⟩
  call := fun q d hq => by
    rcases calls_setCall hq with ⟨-, rfl⟩ | ⟨-, hq⟩
    · exact (h.call p c hc).setAcquire (.inl rfl)
    · exact h.call q d hq
  owner := fun q d hq hd => by
    rcases calls_setCall hq with ⟨rfl, -⟩ | ⟨-, hq⟩
    · rfl
    · have howned : s.lock.lock.locked = true := by
        rw [h.lock.locked, h.owner q d hq hd]
        rfl
      rw [hopen] at howned
      cases howned

theorem exclusive_finish (h : Exclusive s) (hc : s.calls p = some c) (hholds : c.Holds)
    (hstopped : c.pipeline.alive = true → c.pipelineCancelled = true) (outcome : Outcome) :
    Exclusive (finish s p c outcome) where
  lock := ⟨h.lock.fair.release, AsyncLock.release_locked _, fun _ ht => nomatch ht⟩
  call := fun q d hq => by
    rcases calls_setCall hq with ⟨-, rfl⟩ | ⟨-, hq⟩
    · exact Call.sound_ended outcome hstopped
    · exact h.call q d hq
  owner := fun q d hq hd => by
    rcases calls_setCall hq with ⟨-, rfl⟩ | ⟨hne, hq⟩
    · exact absurd rfl (hd.2 outcome)
    · exact absurd (h.eq_of_holds hq hc hd hholds) hne

theorem exclusive_step (h : Exclusive s) (hstep : orchestration.step s e = some s') :
    Exclusive s' := by
  cases step_advances h.lock hstep with
  | called p hc =>
      refine ⟨h.lock, fun q d hq => ?_, fun q d hq hd => ?_⟩
      · rcases calls_setCall hq with ⟨-, rfl⟩ | ⟨-, hq⟩
        · exact sound_newCall
        · exact h.call q d hq
      · rcases calls_setCall hq with ⟨-, rfl⟩ | ⟨-, hq⟩
        · cases hd.1
        · exact h.owner q d hq hd
  | took p c lock hc hbefore hwanted hopen hlocked hfair =>
      exact exclusive_take h hc hopen hlocked hfair
  | waits p c acquire lock hc hbefore hacquire hgone hlocked hfair =>
      apply exclusive_of_setCall h hc hlocked hfair
      · exact (h.call p c hc).setAcquire (.inr hbefore)
      · exact fun hd => absurd hd.1 hacquire
  | abandoned e p c timedOut hc hphase hacquire =>
      apply exclusive_of_setCall h hc (AsyncLock.cancelWaiter_locked _ _)
        (h.lock.fair.cancelWaiter _)
      · exact Call.sound_abandoning timedOut ((h.call p c hc).acquiring hphase)
      · exact fun hd => absurd hd.1 hacquire
  | proceeded e p c hc hphase hacquire =>
      apply exclusive_setCall h hc
      · exact Call.sound_running hacquire
      · refine fun _ => ⟨hacquire, fun outcome hended => ?_⟩
        rcases hphase with hphase | hphase
        · cases hphase.symm.trans hended
        · cases hphase.symm.trans hended
  | left e p c outcome hc hphase =>
      have habsent : c.pipeline = .absent := by
        rcases hphase with ⟨hphase, -⟩ | ⟨timedOut, hphase⟩
        · exact (h.call p c hc).acquiring hphase
        · exact (h.call p c hc).abandoning timedOut hphase
      apply exclusive_setCall h hc
      · apply Call.sound_ended outcome
        rw [habsent]
        exact fun halive => nomatch halive
      · exact fun hd => absurd rfl (hd.2 outcome)
  | stopped e p c timedOut he hc hphase halive =>
      have hcall := h.call p c hc
      apply exclusive_setCall h hc
      · exact Call.sound_stopping timedOut (hcall.running hphase)
      · exact fun hd => ⟨hd.1, fun outcome hended => by cases hphase.symm.trans hended⟩
  | finished e p c outcome he hc hphase =>
      have hcall := h.call p c hc
      apply exclusive_finish h hc
      · exact hcall.holds (hphase.imp_left And.left)
      · rcases hphase with ⟨-, hdone⟩ | ⟨timedOut, hphase⟩
        · exact fun halive => by rw [hdone] at halive; cases halive
        · exact fun _ => (hcall.stopping _ hphase).2
  | interrupted p turn c hc hcancelled halive =>
      exact exclusive_setCall h hc ((h.call p c hc).setPipeline halive _) fun hd => hd
  | turned p turn c pipeline hc hcancelled hready hnext =>
      have halive := PipelineTask.alive_of_ready hready
      exact exclusive_setCall h hc ((h.call p c hc).setPipeline halive _) fun hd => hd
  | submitted p turn c stage hc hcancelled hready =>
      have halive := PipelineTask.alive_of_ready hready
      have hset : Exclusive (s.setCall p { c with pipeline := .awaiting stage }) :=
        exclusive_setCall h hc ((h.call p c hc).setPipeline halive _) fun hd => hd
      exact ⟨hset.lock, hset.call, hset.owner⟩
  | jobStarted p stage hjob => exact ⟨h.lock, h.call, h.owner⟩
  | jobEnded e p stage job hjob hjob' => exact ⟨h.lock, h.call, h.owner⟩

theorem exclusive_idle : Exclusive idleProcess where
  lock := ⟨AsyncLock.fair_free, rfl, fun _ ht => nomatch ht⟩
  call := fun _ _ hc => nomatch hc
  owner := fun _ _ hc => nomatch hc

end

end TranscriptionApi.Pipeline
