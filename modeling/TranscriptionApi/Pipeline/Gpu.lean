import TranscriptionApi.Pipeline.Advances

/-!
One GPU stage at a time.

The lock keeps the calls apart, and a worker thread runs a stage of a call. The
two are one as long as the call waits for the worker. `wait_for` does not: it
cancels the pipeline, the `finally` block opens the lock, and the thread goes on
with the stage. So a run keeps the GPU to one stage exactly as long as no worker
takes a GPU stage while another one executes, one of the two left behind by a
cancelled pipeline.
-/

namespace TranscriptionApi.Pipeline

open Lib

/-- A worker is executing a GPU stage of call `p`. -/
def OnGpu (s : Process) (p : ℕ) (stage : Stage) : Prop :=
  stage.gpu = true ∧ s.jobs p stage = .executing

/-- At most one worker is executing a GPU stage. -/
def GpuExclusive (s : Process) : Prop :=
  ∀ p q stage stage', OnGpu s p stage → OnGpu s q stage' → p = q ∧ stage = stage'

/-- A deadline or a cancellation has cancelled the pipeline of call `p`. -/
def Stray (s : Process) (p : ℕ) : Prop := (s.calls p).any Call.pipelineCancelled = true

/-- Of a GPU stage that starts and one that executes, neither is a stray's. -/
def StartsClear (s : Process) : Event → Prop
  | .jobStarts p stage =>
      stage.gpu = true → ∀ q stage', OnGpu s q stage' → ¬ Stray s p ∧ ¬ Stray s q
  | _ => True

theorem stray_iff {s : Process} {p : ℕ} {c : Call} (hc : s.calls p = some c) :
    Stray s p ↔ c.pipelineCancelled = true := by
  rw [Stray, hc]
  rfl

/-- The work item has not ended. -/
def Job.live : Job → Bool
  | .queued => true
  | .executing => true
  | _ => false

/-- A stage in the hands of the workers is the one its call waits for, unless
the pipeline of the call was cancelled. -/
def StagesAwaited (s : Process) : Prop :=
  ∀ p stage, (s.jobs p stage).live = true → ∃ c, s.calls p = some c ∧
    (c.pipelineCancelled = true ∨ c.phase = .running ∧ c.pipeline = .awaiting stage)

section

variable {s s' : Process} {p q : ℕ} {c : Call} {e : Event} {stage stage' : Stage}

theorem jobs_setJob {job : Job} :
    (s.setJob p stage job).jobs q stage' =
      if q = p ∧ stage' = stage then job else s.jobs q stage' := by
  simp only [Process.setJob, Function.update_apply]
  by_cases hq : q = p
  · subst hq
    by_cases hstage : stage' = stage <;> simp [hstage]
  · simp [hq]

/-! ### What a turn does to the work items -/

theorem jobs_of_advances (h : Advances s e s') (hlive : (s'.jobs p stage).live = true) :
    (s.jobs p stage = s'.jobs p stage) ∨
      (∃ turn, e = .pipelineRuns p turn ∧ ¬ Stray s p ∧ s'.jobs p stage = .queued) ∨
      (e = .jobStarts p stage ∧ s.jobs p stage = .queued ∧ s'.jobs p stage = .executing) := by
  cases h with
  | submitted q turn c stage' hc hcancelled hready =>
      rw [jobs_setJob] at hlive ⊢
      split
      · rename_i heq
        obtain ⟨rfl, rfl⟩ := heq
        exact .inr (.inl ⟨turn, rfl, by simp [stray_iff hc, hcancelled], rfl⟩)
      · exact .inl rfl
  | jobStarted q stage' hjob =>
      rw [jobs_setJob] at hlive ⊢
      split
      · rename_i heq
        obtain ⟨rfl, rfl⟩ := heq
        exact .inr (.inr ⟨rfl, hjob, rfl⟩)
      · exact .inl rfl
  | jobEnded e q stage' job hjob hjob' =>
      rw [jobs_setJob] at hlive ⊢
      split
      · rename_i heq
        rw [if_pos heq] at hlive
        cases job with
        | queued => exact absurd rfl hjob
        | executing => exact absurd rfl hjob'
        | _ => cases hlive
      · exact .inl rfl
  | _ => exact .inl rfl

/-- Only a worker that takes a stage adds one to those executing. -/
theorem onGpu_of_advances (h : Advances s e s') (hgpu : OnGpu s' p stage) :
    OnGpu s p stage ∨ e = .jobStarts p stage ∧ s.jobs p stage = .queued := by
  obtain ⟨hstage, hjob⟩ := hgpu
  rcases jobs_of_advances h (by rw [hjob]; rfl) with hsame | ⟨turn, -, -, hqueued⟩ | ⟨he, hq, -⟩
  · exact .inl ⟨hstage, hsame.trans hjob⟩
  · cases hjob.symm.trans hqueued
  · exact .inr ⟨he, hq⟩

theorem stray_setCall {c' : Call} (h : Stray (s.setCall p c') q) :
    q = p ∧ c'.pipelineCancelled = true ∨ Stray s q := by
  by_cases hq : q = p
  · subst hq
    exact .inl ⟨rfl, (stray_iff (Function.update_self ..)).mp h⟩
  · rw [Stray, show (s.setCall p c').calls q = s.calls q from Function.update_of_ne hq ..] at h
    exact .inr h

/-- A call loses its pipeline by a deadline or a cancellation of its own. -/
theorem stray_of_advances (h : Advances s e s') (hstray : Stray s' p) :
    Stray s p ∨ e = .deadline p ∨ e = .cancel p := by
  -- the other turns on a call keep the flag
  have hkept : ∀ {q : ℕ} {c : Call} (c' : Call), s.calls q = some c →
      c'.pipelineCancelled = c.pipelineCancelled → Stray (s.setCall q c') p →
      Stray s p ∨ e = .deadline p ∨ e = .cancel p := by
    intro q c c' hc hsame hstray
    rcases stray_setCall hstray with ⟨rfl, hcancelled⟩ | hbefore
    · exact .inl ((stray_iff hc).mpr (hsame ▸ hcancelled))
    · exact .inl hbefore
  cases h with
  | called q hc =>
      rcases stray_setCall hstray with ⟨-, hcancelled⟩ | hbefore
      · cases hcancelled
      · exact .inl hbefore
  | took q c lock hc => exact hkept { c with acquire := .taken } hc rfl hstray
  | waits q c acquire lock hc => exact hkept { c with acquire } hc rfl hstray
  | abandoned e q c timedOut hc =>
      exact hkept { c with phase := .abandoning timedOut, acquireCancelled := true }
        hc rfl hstray
  | proceeded e q c hc =>
      exact hkept { c with phase := .running, pipeline := .created } hc rfl hstray
  | left e q c outcome hc => exact hkept { c with phase := .ended outcome } hc rfl hstray
  | stopped e q c timedOut he hc =>
      rcases stray_setCall hstray with ⟨rfl, -⟩ | hbefore
      · exact .inr he
      · exact .inl hbefore
  | finished e q c outcome he hc => exact hkept { c with phase := .ended outcome } hc rfl hstray
  | interrupted q turn c hc =>
      exact hkept { c with pipeline := .done .cancelled } hc rfl hstray
  | turned q turn c pipeline hc => exact hkept { c with pipeline } hc rfl hstray
  | submitted q turn c stage hc =>
      exact hkept { c with pipeline := .awaiting stage } hc rfl hstray
  | jobStarted q stage hjob => exact .inl hstray
  | jobEnded e q stage job => exact .inl hstray

/-! ### A stage and its call -/

/-- A pipeline that runs while it waits for a stage finds that stage ended. -/
theorem PipelineTask.not_live_of_ready {pipeline : PipelineTask} {jobs : Stage → Job}
    (hready : pipeline.ready jobs = true) (hwaits : pipeline = .awaiting stage) :
    (jobs stage).live = false := by
  subst hwaits
  rw [show jobs stage = .finished by simpa [PipelineTask.ready] using hready]
  rfl

theorem stagesAwaited_setCall {c' : Call} (h : StagesAwaited s) (hc : s.calls p = some c)
    (hkeep : ∀ stage, (s.jobs p stage).live = true →
      c.pipelineCancelled = true ∨ c.phase = .running ∧ c.pipeline = .awaiting stage →
      c'.pipelineCancelled = true ∨ c'.phase = .running ∧ c'.pipeline = .awaiting stage) :
    StagesAwaited (s.setCall p c') := by
  intro q stage hlive
  obtain ⟨d, hd, hwaits⟩ := h q stage hlive
  by_cases hq : q = p
  · subst hq
    obtain rfl := Option.some.inj (hc.symm.trans hd)
    exact ⟨c', Function.update_self .., hkeep stage hlive hwaits⟩
  · exact ⟨d, (Function.update_of_ne hq ..).trans hd, hwaits⟩

theorem stagesAwaited_setJob {job : Job} (h : StagesAwaited s)
    (hjob : job.live = true → ∃ c, s.calls p = some c ∧
      (c.pipelineCancelled = true ∨ c.phase = .running ∧ c.pipeline = .awaiting stage)) :
    StagesAwaited (s.setJob p stage job) := by
  intro q stage' hlive
  rw [jobs_setJob] at hlive
  split at hlive
  · rename_i heq
    obtain ⟨rfl, rfl⟩ := heq
    exact hjob hlive
  · exact h q stage' hlive

theorem stagesAwaited_step (hlock : Exclusive s) (h : StagesAwaited s)
    (hstep : orchestration.step s e = some s') : StagesAwaited s' := by
  cases step_advances hlock.lock hstep with
  | called p hc =>
      intro q stage hlive
      obtain ⟨d, hd, hwaits⟩ := h q stage hlive
      have hq : q ≠ p := by
        rintro rfl
        cases hc.symm.trans hd
      exact ⟨d, (Function.update_of_ne hq ..).trans hd, hwaits⟩
  | took p c lock hc => exact stagesAwaited_setCall h hc fun _ _ hwaits => hwaits
  | waits p c acquire lock hc => exact stagesAwaited_setCall h hc fun _ _ hwaits => hwaits
  | abandoned e p c timedOut hc hphase hacquire =>
      apply stagesAwaited_setCall h hc
      rintro stage - (hcancelled | ⟨hrunning, -⟩)
      · exact .inl hcancelled
      · cases hphase.symm.trans hrunning
  | proceeded e p c hc hphase hacquire =>
      apply stagesAwaited_setCall h hc
      rintro stage - (hcancelled | ⟨hrunning, -⟩)
      · exact .inl hcancelled
      · rw [hrunning] at hphase
        simp at hphase
  | left e p c outcome hc hphase =>
      apply stagesAwaited_setCall h hc
      rintro stage - (hcancelled | ⟨hrunning, -⟩)
      · exact .inl hcancelled
      · rw [hrunning] at hphase
        simp at hphase
  | stopped e p c timedOut he hc hphase halive =>
      exact stagesAwaited_setCall h hc fun _ _ _ => .inl rfl
  | finished e p c outcome he hc hphase =>
      apply stagesAwaited_setCall h hc
      rintro stage - (hcancelled | ⟨hrunning, hwaits⟩)
      · exact .inl hcancelled
      -- the call that waits for a stage does not get here by itself
      · rw [hrunning, hwaits] at hphase
        simp [PipelineTask.alive] at hphase
  | interrupted p turn c hc hcancelled halive =>
      exact stagesAwaited_setCall h hc fun _ _ _ => .inl hcancelled
  | turned p turn c pipeline hc hcancelled hready hnext =>
      apply stagesAwaited_setCall h hc
      rintro stage hlive (hstray | ⟨-, hwaits⟩)
      · exact .inl hstray
      · rw [PipelineTask.not_live_of_ready hready hwaits] at hlive
        cases hlive
  | submitted p turn c stage hc hcancelled hready =>
      have hrunning := (hlock.call p c hc).running_of_alive
        (PipelineTask.alive_of_ready hready) hcancelled
      refine stagesAwaited_setJob (stagesAwaited_setCall h hc ?_) fun _ => ?_
      · rintro stage' hlive (hstray | ⟨-, hwaits⟩)
        · exact .inl hstray
        · rw [PipelineTask.not_live_of_ready hready hwaits] at hlive
          cases hlive
      · exact ⟨_, Function.update_self .., .inr ⟨hrunning, rfl⟩⟩
  | jobStarted p stage hjob =>
      apply stagesAwaited_setJob h
      exact fun _ => h p stage (by rw [hjob]; rfl)
  | jobEnded e p stage job hjob hjob' =>
      apply stagesAwaited_setJob h
      cases job with
      | queued => exact absurd rfl hjob
      | executing => exact absurd rfl hjob'
      | _ => exact fun hlive => nomatch hlive

/-- A call whose stage is with the workers, and which nobody cancelled, holds
the lock and waits for that stage. -/
theorem holds_of_live (hlock : Exclusive s) (h : StagesAwaited s)
    (hlive : (s.jobs p stage).live = true) (hstray : ¬ Stray s p) :
    ∃ c, s.calls p = some c ∧ c.Holds ∧ c.pipeline = .awaiting stage := by
  obtain ⟨c, hc, hwaits⟩ := h p stage hlive
  rw [stray_iff hc] at hstray
  obtain ⟨hrunning, hwaits⟩ := hwaits.resolve_left hstray
  refine ⟨c, hc, ⟨(hlock.call p c hc).running hrunning, fun outcome hended => ?_⟩, hwaits⟩
  cases hrunning.symm.trans hended

/-- Two stages with the workers, of calls that nobody cancelled, are one. -/
theorem eq_of_live (hlock : Exclusive s) (h : StagesAwaited s)
    (hp : (s.jobs p stage).live = true) (hq : (s.jobs q stage').live = true)
    (hpc : ¬ Stray s p) (hqc : ¬ Stray s q) : p = q ∧ stage = stage' := by
  obtain ⟨c, hc, hholds, hwaits⟩ := holds_of_live hlock h hp hpc
  obtain ⟨d, hd, hholds', hwaits'⟩ := holds_of_live hlock h hq hqc
  obtain rfl := hlock.eq_of_holds hc hd hholds hholds'
  obtain rfl := Option.some.inj (hc.symm.trans hd)
  exact ⟨rfl, PipelineTask.awaiting.inj (hwaits.symm.trans hwaits')⟩

/-! ### Runs -/

structure GpuKept (s : Process) : Prop where
  lock : Exclusive s
  awaited : StagesAwaited s
  gpu : GpuExclusive s

theorem gpuKept_idle : GpuKept idleProcess where
  lock := exclusive_idle
  awaited := fun _ _ hlive => nomatch hlive
  gpu := fun _ _ _ _ hp => nomatch hp.2

theorem GpuKept.step (h : GpuKept s) (hstep : orchestration.step s e = some s')
    (hgpu : GpuExclusive s') : GpuKept s' :=
  ⟨exclusive_step h.lock hstep, stagesAwaited_step h.lock h.awaited hstep, hgpu⟩

/-- A worker that takes a GPU stage under `StartsClear` finds no other there. -/
theorem GpuKept.free_of_startsClear (h : GpuKept s) (hclear : StartsClear s (.jobStarts p stage))
    (hstage : stage.gpu = true) (hjob : s.jobs p stage = .queued) : ¬ OnGpu s q stage' := by
  intro hgpu
  obtain ⟨hp, hq⟩ := hclear hstage q stage' hgpu
  have hlive : (s.jobs p stage).live = true := by rw [hjob]; rfl
  have hlive' : (s.jobs q stage').live = true := by rw [hgpu.2]; rfl
  obtain ⟨rfl, rfl⟩ := eq_of_live h.lock h.awaited hlive hlive' hp hq
  cases hjob.symm.trans hgpu.2

theorem GpuKept.exclusive_of_startsClear (h : GpuKept s)
    (hstep : orchestration.step s e = some s') (hclear : StartsClear s e) : GpuExclusive s' := by
  have hadvances := step_advances h.lock.lock hstep
  intro p q stage stage' hp hq
  rcases onGpu_of_advances hadvances hp with hp' | ⟨rfl, hjob⟩
  · rcases onGpu_of_advances hadvances hq with hq' | ⟨rfl, hjob⟩
    · exact h.gpu p q stage stage' hp' hq'
    · exact absurd hp' (h.free_of_startsClear hclear hq.1 hjob)
  · rcases onGpu_of_advances hadvances hq with hq' | ⟨he, -⟩
    · exact absurd hq' (h.free_of_startsClear hclear hp.1 hjob)
    · cases he
      exact ⟨rfl, rfl⟩

theorem jobStarts_eq (hstep : orchestration.step s (.jobStarts p stage) = some s') :
    s.jobs p stage = .queued ∧ s' = s.setJob p stage .executing := by
  replace hstep : (if s.jobs p stage = .queued then some (s.setJob p stage .executing)
    else none) = some s' := hstep
  split at hstep
  · rename_i hjob
    exact ⟨hjob, (Option.some.inj hstep).symm⟩
  · cases hstep

theorem startsClear_of_exclusive (hstep : orchestration.step s e = some s')
    (hgpu : GpuExclusive s') : StartsClear s e := by
  cases e with
  | jobStarts p stage =>
      intro hstage q stage' hq
      obtain ⟨hjob, rfl⟩ := jobStarts_eq hstep
      have hne : ¬ (q = p ∧ stage' = stage) := by
        rintro ⟨rfl, rfl⟩
        cases hjob.symm.trans hq.2
      -- both execute now
      exfalso
      apply hne
      apply hgpu q p stage' stage
      · exact ⟨hq.1, by rw [jobs_setJob, if_neg hne]; exact hq.2⟩
      · exact ⟨hstage, by rw [jobs_setJob, if_pos ⟨rfl, rfl⟩]⟩
  | _ => trivial

/-- A run from the start keeps the GPU to one stage exactly as long as no GPU
stage starts beside another of which one has lost its pipeline. -/
theorem gpuExclusive_iff (es : List Event) :
    orchestration.Along (fun _ _ s' => GpuExclusive s') idleProcess es ↔
      orchestration.Along (fun s e _ => StartsClear s e) idleProcess es := by
  apply System.along_iff (I := GpuKept)
  · exact fun s e s' h hstep hgpu => h.step hstep hgpu
  · intro s e s' h hstep
    exact ⟨startsClear_of_exclusive hstep, h.exclusive_of_startsClear hstep⟩
  · exact gpuKept_idle

/-- The first call times out while its worker transcribes; the second one gets
the lock and a worker of its own. -/
def lateTranscription : List Event :=
  [.call 0, .acquireRuns 0, .resume 0, .pipelineRuns 0 .ok, .jobStarts 0 .normalize,
    .jobEnds 0 .normalize, .pipelineRuns 0 .ok, .jobStarts 0 .transcribe, .deadline 0,
    .pipelineRuns 0 .ok, .resume 0,
    .call 1, .acquireRuns 1, .resume 1, .pipelineRuns 1 .ok, .jobStarts 1 .normalize,
    .jobEnds 1 .normalize, .pipelineRuns 1 .ok]

theorem gpuExclusive_fails :
    ¬ ∀ es : List Event,
      orchestration.Along (fun _ _ s' => GpuExclusive s') idleProcess es := by
  intro h
  have hbefore : (orchestration.run idleProcess lateTranscription).map
      (fun s => (s.jobs 0 .transcribe, s.jobs 1 .transcribe)) =
        some (.executing, .queued) := by decide +kernel
  obtain ⟨s, hs, hjobs⟩ := Option.map_eq_some_iff.mp hbefore
  obtain ⟨hleft, hqueued⟩ := Prod.mk.inj hjobs
  have hstep : orchestration.step s (.jobStarts 1 .transcribe) =
      some (s.setJob 1 .transcribe .executing) := if_pos hqueued
  have hgpu := System.Along.at_step _ (h (lateTranscription ++ [.jobStarts 1 .transcribe])) hs hstep
  have hsame := hgpu 0 1 .transcribe .transcribe
    ⟨rfl, by rw [jobs_setJob, if_neg (by simp)]; exact hleft⟩
    ⟨rfl, by rw [jobs_setJob, if_pos ⟨rfl, rfl⟩]⟩
  cases hsame.1

/-! ### Calls that are left to finish -/

/-- No deadline and no cancellation reaches a call whose GPU stage is with the
workers. -/
def Undisturbed (s : Process) (e : Event) : Prop :=
  ∀ p, e = .deadline p ∨ e = .cancel p → ∀ stage : Stage, stage.gpu = true →
    (s.jobs p stage).live = false

/-- No GPU stage with the workers has lost its pipeline. -/
def NoStrays (s : Process) : Prop :=
  ∀ p stage, Stage.gpu stage = true → (s.jobs p stage).live = true → ¬ Stray s p

theorem NoStrays.startsClear (h : NoStrays s) (hstep : orchestration.step s e = some s') :
    StartsClear s e := by
  cases e with
  | jobStarts p stage =>
      intro hstage q stage' hq
      obtain ⟨hjob, -⟩ := jobStarts_eq hstep
      exact ⟨h p stage hstage (by rw [hjob]; rfl), h q stage' hq.1 (by rw [hq.2]; rfl)⟩
  | _ => trivial

theorem NoStrays.step (h : NoStrays s) (hadvances : Advances s e s') (hleft : Undisturbed s e) :
    NoStrays s' := by
  intro p stage hstage hlive hstray
  rcases stray_of_advances hadvances hstray with hbefore | he
  · rcases jobs_of_advances hadvances hlive with hsame | ⟨turn, -, hkept, -⟩ | ⟨-, hqueued, -⟩
    · exact h p stage hstage (by rw [hsame]; exact hlive) hbefore
    · exact hkept hbefore
    · exact h p stage hstage (by rw [hqueued]; rfl) hbefore
  · have hidle := hleft p he stage hstage
    rcases jobs_of_advances hadvances hlive with hsame | ⟨turn, rfl, -⟩ | ⟨rfl, -⟩
    · rw [hsame, hlive] at hidle
      cases hidle
    · simp at he
    · simp at he

/-- As long as every call is left alone while a GPU stage of it is with the
workers, at most one such stage executes. -/
theorem gpuExclusive_of_undisturbed {es : List Event}
    (h : orchestration.Along (fun s e _ => Undisturbed s e) idleProcess es) :
    orchestration.Along (fun _ _ s' => GpuExclusive s') idleProcess es := by
  have hgpu : ∀ s e s', GpuKept s ∧ NoStrays s → Undisturbed s e →
      orchestration.step s e = some s' → GpuExclusive s' :=
    fun s e s' hI hleft hstep => hI.1.exclusive_of_startsClear hstep (hI.2.startsClear hstep)
  refine System.along_of_step _ (fun s e s' hI hleft hstep => ⟨?_, ?_⟩) hgpu
    ⟨gpuKept_idle, fun _ _ _ hlive => nomatch hlive⟩ h
  · exact hI.1.step hstep (hgpu s e s' hI hleft hstep)
  · exact hI.2.step (step_advances hI.1.lock.lock hstep) hleft

end

end TranscriptionApi.Pipeline
