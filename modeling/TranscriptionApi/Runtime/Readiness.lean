import Mathlib.Data.List.Infix
import TranscriptionApi.Lib.Transition
import TranscriptionApi.Mcp.Start

/-!
The models on `app.state`, from the lifespan that loads them to the gates that ask
for them.

A lifespan sets the attributes of a model before it loads it, and its teardown takes
all of them away. It need not get there: a start can be cancelled while a model
loads, and a shutdown while the engine is disposed of. What is left then is there
when the next lifespan of the process begins, which sets the attributes of Whisper
first and those of pyannote only when Whisper has been loaded.
-/

namespace TranscriptionApi.Runtime

open Lib Mcp Python

/-! ### The gates -/

/-- The attributes of one model on `app.state`; `none` is one that is not set. -/
structure ModelState (μ : Type) where
  status : Option String
  detail : Option (Option String)
  model : Option (Option μ)

structure AppState (μ π : Type) where
  whisper : ModelState μ
  pyannote : ModelState π

structure ReadinessResult where
  ready : Bool
  failingModel : Option String
  detail : Option String
  deriving DecidableEq

section Gates

variable {μ π : Type} (app : AppState μ π)

/-- `check_models_ready`; `none` is the `RuntimeError`. -/
def checkModelsReady : Option ReadinessResult :=
  match app.whisper.status with
  | none => none
  | some whisper =>
      let pyannote := app.pyannote.status.getD "loading"
      if whisper = "ready" ∧ pyannote = "ready" then some ⟨true, none, none⟩
      else if whisper ≠ "ready" then some ⟨false, some "whisper", app.whisper.detail.join⟩
      else some ⟨false, some "pyannote", app.pyannote.detail.join⟩

/-- The context variables of a request to the MCP server. -/
structure RuntimeContext (μ π : Type) where
  whisperModel : Option μ
  pyannotePipeline : Option π
  modelsStatus : RuntimeStatus

def armRuntimeFromState : RuntimeContext μ π where
  whisperModel := app.whisper.model.join
  pyannotePipeline := app.pyannote.model.join
  modelsStatus :=
    { whisperStatus := app.whisper.status.getD "unknown"
      pyannoteStatus := app.pyannote.status.getD "unknown"
      whisperDetail := app.whisper.detail.join
      pyannoteDetail := app.pyannote.detail.join }

/-- The `models` block of `/health`, without the memory. -/
structure ModelsHealth where
  whisper : String
  pyannote : String
  whisperDetail : Option String
  pyannoteDetail : Option String

def modelsHealth : ModelsHealth where
  whisper := app.whisper.status.getD "loading"
  pyannote := app.pyannote.status.getD "loading"
  whisperDetail := app.whisper.detail.join
  pyannoteDetail := app.pyannote.detail.join

/-- What the gate of `start_transcription` says where the one of `POST` has this
result. -/
def ReadinessResult.toMcp (r : ReadinessResult) : Except Failure Unit :=
  match r.failingModel with
  | none => .ok ()
  | some model =>
      .error (raiseToolError "MODELS_NOT_LOADED" (model ++ " model is not ready") 503
        [("detail", jsonOfDetail r.detail)])

variable {app}

/-- The two gates agree wherever the first one does not raise. -/
theorem checkModels_armed {r : ReadinessResult} (h : checkModelsReady app = some r) :
    checkModels (some (armRuntimeFromState app).modelsStatus) = r.toMcp := by
  unfold checkModelsReady at h
  cases hwhisper : app.whisper.status with
  | none => simp [hwhisper] at h
  | some whisper =>
      simp only [checkModels, armRuntimeFromState, hwhisper, Option.getD_some]
      simp only [hwhisper] at h
      by_cases hw : whisper = "ready"
      · rw [if_neg (not_not.mpr hw)]
        cases hpyannote : app.pyannote.status with
        | none =>
            simp only [hpyannote, Option.getD_none, hw, ne_eq, not_true_eq_false, if_false] at h
            cases h
            rfl
        | some pyannote =>
            simp only [hpyannote, Option.getD_some, hw, true_and, ne_eq, not_true_eq_false,
              if_false] at h
            rw [Option.getD_some]
            split at h
            · rename_i hp
              rw [if_neg (not_not.mpr hp)]
              cases h
              rfl
            · rename_i hp
              rw [if_pos hp]
              cases h
              rfl
      · rw [if_pos hw]
        rw [if_neg fun hboth => hw hboth.1, if_pos hw] at h
        cases h
        rfl

end Gates

/-! ### The loaders -/

/-- `needle in text`. -/
def within (text needle : String) : Bool := needle.toList <:+: text.toList

/-- How `_whisperx_load_model` ends; what it returns may be `None`. -/
inductive LoadEnd (μ : Type) where
  | returned (model : Option μ)
  | raised (text : String)

/-- `_classify_load_failure`. -/
def classifyLoadFailure (text : String) : String :=
  let msg := lower text
  if within msg "out of memory" ∨ within msg "cuda oom" then "cuda_oom_at_load"
  else if within msg "no cuda" ∨ within msg "cuda is not available" ∨
      within msg "cuda unavailable" then "cuda_unavailable"
  else if within msg "not found" ∨ within msg "no such file" ∨ within msg "missing" ∨
      within msg "404" then "model_not_found"
  else if within msg "compute" ∧ (within msg "unsupported" ∨ within msg "invalid") then
    "compute_type_unsupported"
  else "unknown"

/-- `load_whisper_model`, with the `detail` of the error it raises. -/
def loadWhisperModel {μ : Type} : LoadEnd μ → Except String (Option μ)
  | .returned model => .ok model
  | .raised text => .error (classifyLoadFailure text)

/-- A call of `Pipeline.from_pretrained`. -/
inductive PretrainedEnd (π : Type) where
  | returned (pipeline : Option π)
  | typeError (text : String)
  | raised (text : String)

/-- `_pyannote_from_pretrained`: a `TypeError` about `token` has it try the older
name of the argument. -/
def pyannoteFromPretrained {π : Type} (call retry : PretrainedEnd π) : LoadEnd π :=
  match call with
  | .returned pipeline => .returned pipeline
  | .raised text => .raised text
  | .typeError text =>
      if within text "token" then
        match retry with
        | .returned pipeline => .returned pipeline
        | .raised text => .raised text
        | .typeError text => .raised text
      else .raised text

/-- `load_pyannote_pipeline`. -/
def loadPyannotePipeline {π : Type} (hfToken : String) (call retry : PretrainedEnd π) :
    Except String (Option π) :=
  if hfToken.isEmpty then .error "hf_token_missing"
  else
    match pyannoteFromPretrained call retry with
    | .returned pipeline => .ok pipeline
    | .raised text =>
        let message := lower text
        if within message "401" ∨ within message "unauthorized" then .error "hf_token_invalid"
        else if within message "gated" ∨ within message "accept the terms" ∨
            within message "403" then .error "hf_terms_not_accepted"
        else .error "unknown"

def whisperDetails : List String :=
  ["cuda_unavailable", "cuda_oom_at_load", "model_not_found", "compute_type_unsupported",
    "unknown"]

def pyannoteDetails : List String :=
  ["hf_token_missing", "hf_token_invalid", "hf_terms_not_accepted", "unknown"]

theorem detail_loadWhisperModel {μ : Type} {e : LoadEnd μ} {detail : String}
    (h : loadWhisperModel e = .error detail) : detail ∈ whisperDetails := by
  cases e with
  | returned model => cases h
  | raised text =>
      cases h
      unfold classifyLoadFailure whisperDetails
      dsimp only
      split_ifs <;> simp

theorem detail_loadPyannotePipeline {π : Type} {hfToken : String} {call retry : PretrainedEnd π}
    {detail : String} (h : loadPyannotePipeline hfToken call retry = .error detail) :
    detail ∈ pyannoteDetails := by
  unfold loadPyannotePipeline at h
  unfold pyannoteDetails
  split at h
  · cases h
    simp
  · split at h
    · cases h
    · dsimp only at h
      split_ifs at h <;> cases h <;> simp

/-! ### The lifespan -/

/-- Where a process is in a lifespan, with what its loaders have returned. -/
inductive Phase (μ π : Type) where
  | down
  | loadingWhisper
  | loadingPyannote (whisper : Except String (Option μ))
  | serving (whisper : Except String (Option μ)) (pyannote : Except String (Option π))
  /-- in the `finally`, waiting for the engine -/
  | disposing (whisper : Except String (Option μ)) (pyannote : Except String (Option π))

structure Process (μ π : Type) where
  phase : Phase μ π
  app : AppState μ π

inductive Event (μ π : Type) where
  | starts
  | whisperLoads (e : LoadEnd μ)
  | pyannoteLoads (hfToken : String) (call retry : PretrainedEnd π)
  /-- the server is told to stop while a model loads -/
  | startCancelled
  | stops
  | disposeCancelled
  /-- `dispose` has returned or raised; `_release_models` itself may raise -/
  | disposed (releaseRaises : Bool)

namespace ModelState

variable {μ : Type}

def unset : ModelState μ := ⟨none, none, none⟩

/-- The attributes while the model loads. -/
def loading : ModelState μ := ⟨some "loading", some none, some none⟩

/-- What the lifespan makes of the end of the loader. -/
def settle (s : ModelState μ) : Except String (Option μ) → ModelState μ
  | .ok model => { s with status := some "ready", model := some model }
  | .error detail => { s with status := some "error", detail := some (some detail) }

/-- `_release_models`, on one of the two. -/
def release (s : ModelState μ) : ModelState μ :=
  match s.model with
  | some (some _) => { s with model := some none }
  | _ => s

end ModelState

section Lifespans

variable {μ π : Type}

/-- The teardown after the engine. -/
def tearDown (app : AppState μ π) (releaseRaises : Bool) : AppState μ π :=
  if releaseRaises then ⟨app.whisper.release, app.pyannote.release⟩ else ⟨.unset, .unset⟩

def step (s : Process μ π) : Event μ π → Option (Process μ π)
  | .starts =>
      match s.phase with
      | .down => some ⟨.loadingWhisper, { s.app with whisper := .loading }⟩
      | _ => none
  | .whisperLoads e =>
      match s.phase with
      | .loadingWhisper =>
          let whisper := loadWhisperModel e
          some ⟨.loadingPyannote whisper, ⟨s.app.whisper.settle whisper, .loading⟩⟩
      | _ => none
  | .pyannoteLoads hfToken call retry =>
      match s.phase with
      | .loadingPyannote whisper =>
          let pyannote := loadPyannotePipeline hfToken call retry
          some ⟨.serving whisper pyannote,
            { s.app with pyannote := s.app.pyannote.settle pyannote }⟩
      | _ => none
  | .startCancelled =>
      match s.phase with
      | .loadingWhisper => some { s with phase := .down }
      | .loadingPyannote _ => some { s with phase := .down }
      | _ => none
  | .stops =>
      match s.phase with
      | .serving whisper pyannote => some { s with phase := .disposing whisper pyannote }
      | _ => none
  | .disposeCancelled =>
      match s.phase with
      | .disposing _ _ => some { s with phase := .down }
      | _ => none
  | .disposed releaseRaises =>
      match s.phase with
      | .disposing _ _ => some ⟨.down, tearDown s.app releaseRaises⟩
      | _ => none

/-- A process that goes through lifespans. -/
def lifespans : System (Process μ π) (Event μ π) where
  step := step

/-- Before the first lifespan. -/
def Process.fresh : Process μ π := ⟨.down, ⟨.unset, .unset⟩⟩

/-- What the two loaders of a lifespan come to. -/
def verdict : Except String (Option μ) → Except String (Option π) → ReadinessResult
  | .error detail, _ => ⟨false, some "whisper", some detail⟩
  | .ok _, .error detail => ⟨false, some "pyannote", some detail⟩
  | .ok _, .ok _ => ⟨true, none, none⟩

/-- The attributes are those of the running lifespan, as far as it has got. -/
def Current (s : Process μ π) : Prop :=
  match s.phase with
  | .down => True
  | .loadingWhisper => s.app.whisper = .loading
  | .loadingPyannote whisper =>
      s.app.whisper = ModelState.loading.settle whisper ∧ s.app.pyannote = .loading
  | .serving whisper pyannote =>
      s.app.whisper = ModelState.loading.settle whisper ∧
        s.app.pyannote = ModelState.loading.settle pyannote
  | .disposing whisper pyannote =>
      s.app.whisper = ModelState.loading.settle whisper ∧
        s.app.pyannote = ModelState.loading.settle pyannote

theorem current_step {s s' : Process μ π} {e : Event μ π} (hs : Current s)
    (h : (lifespans).step s e = some s') : Current s' := by
  obtain ⟨phase, app⟩ := s
  cases e with
  | starts =>
      cases phase with
      | down =>
          cases h
          rfl
      | _ => cases h
  | whisperLoads e =>
      cases phase with
      | loadingWhisper =>
          cases h
          have hwhisper : app.whisper = .loading := hs
          exact ⟨congrArg (fun m => ModelState.settle m (loadWhisperModel e)) hwhisper, rfl⟩
      | _ => cases h
  | pyannoteLoads hfToken call retry =>
      cases phase with
      | loadingPyannote whisper =>
          cases h
          obtain ⟨hwhisper, hpyannote⟩ := hs
          exact ⟨hwhisper, congrArg
            (fun m => ModelState.settle m (loadPyannotePipeline hfToken call retry)) hpyannote⟩
      | _ => cases h
  | startCancelled =>
      cases phase with
      | loadingWhisper =>
          cases h
          trivial
      | loadingPyannote whisper =>
          cases h
          trivial
      | _ => cases h
  | stops =>
      cases phase with
      | serving whisper pyannote =>
          cases h
          exact hs
      | _ => cases h
  | disposeCancelled =>
      cases phase with
      | disposing whisper pyannote =>
          cases h
          trivial
      | _ => cases h
  | disposed releaseRaises =>
      cases phase with
      | disposing whisper pyannote =>
          cases h
          trivial
      | _ => cases h

/-! ### What the gates say -/

/-- What the gate is to say in a phase. -/
def Phase.expected : Phase μ π → Option ReadinessResult
  | .down => none
  | .loadingWhisper => some ⟨false, some "whisper", none⟩
  | .loadingPyannote (.ok _) => some ⟨false, some "pyannote", none⟩
  | .loadingPyannote (.error detail) => some ⟨false, some "whisper", some detail⟩
  | .serving whisper pyannote => some (verdict whisper pyannote)
  | .disposing whisper pyannote => some (verdict whisper pyannote)

/-- From the first load of a lifespan to the end of its requests, both gates say
how far it has got and what its loaders came to, whatever was there before it. -/
def GatesAnswer (s : Process μ π) : Prop :=
  ∀ r, s.phase.expected = some r → checkModelsReady s.app = some r ∧
    checkModels (some (armRuntimeFromState s.app).modelsStatus) = r.toMcp

/-- A model has a detail exactly when its status is `error`, and it is one of the
catalogue. -/
structure ModelState.Typed (details : List String) (m : ModelState μ) : Prop where
  error_iff : m.status = some "error" ↔ m.detail.join.isSome
  mem : ∀ d, m.detail.join = some d → d ∈ details

def ModelsTyped (s : Process μ π) : Prop :=
  s.app.whisper.Typed whisperDetails ∧ s.app.pyannote.Typed pyannoteDetails

/-- A status and a detail as `/health` shows them: the detail stands beside the
status `error` only, and is one of the catalogue. -/
structure Told (details : List String) (status : String) (detail : Option String) : Prop where
  error_iff : status = "error" ↔ detail.isSome
  mem : ∀ d, detail = some d → d ∈ details

/-- What `/health` shows of the models. -/
def HealthTyped (s : Process μ π) : Prop :=
  Told whisperDetails (modelsHealth s.app).whisper (modelsHealth s.app).whisperDetail ∧
    Told pyannoteDetails (modelsHealth s.app).pyannote (modelsHealth s.app).pyannoteDetail

/-- Where the gate lets a request through, there are two models to run it on. -/
def Truthful (s : Process μ π) : Prop :=
  ∀ r, checkModelsReady s.app = some r → r.ready = true →
    (armRuntimeFromState s.app).whisperModel.isSome ∧
      (armRuntimeFromState s.app).pyannotePipeline.isSome

/-- No two loaders succeed of which one returns `None`, and no release raises that
has taken away two models. -/
def Usable (s : Process μ π) (e : Event μ π) (s' : Process μ π) : Prop :=
  match e with
  | .pyannoteLoads .. => ∀ w p, s'.phase = .serving (.ok w) (.ok p) → w.isSome ∧ p.isSome
  | .disposed true => ∀ w p, s.phase ≠ .disposing (.ok w) (.ok p)
  | _ => True

theorem checkModelsReady_settled (whisper : Except String (Option μ))
    (pyannote : Except String (Option π)) :
    checkModelsReady ⟨ModelState.loading.settle whisper, ModelState.loading.settle pyannote⟩ =
      some (verdict whisper pyannote) := by
  cases whisper with
  | error detail => cases pyannote <;> rfl
  | ok w => cases pyannote <;> rfl

theorem gatesAnswer_of_current {s : Process μ π} (hs : Current s) : GatesAnswer s := by
  have hgate {r : ReadinessResult} (h : checkModelsReady s.app = some r) :
      checkModelsReady s.app = some r ∧
        checkModels (some (armRuntimeFromState s.app).modelsStatus) = r.toMcp :=
    ⟨h, checkModels_armed h⟩
  intro r hr
  refine hgate ?_
  obtain ⟨phase, whisper, pyannote⟩ := s
  cases phase with
  | down => cases hr
  | loadingWhisper =>
      cases hr
      obtain rfl : whisper = .loading := hs
      cases hstatus : pyannote.status with
      | none => simp [checkModelsReady, ModelState.loading, hstatus]
      | some status => simp [checkModelsReady, ModelState.loading, hstatus]
  | loadingPyannote w =>
      obtain ⟨rfl, rfl⟩ : whisper = _ ∧ pyannote = _ := hs
      cases w with
      | error detail =>
          cases hr
          rfl
      | ok model =>
          cases hr
          rfl
  | serving w p =>
      cases hr
      obtain ⟨rfl, rfl⟩ : whisper = _ ∧ pyannote = _ := hs
      exact checkModelsReady_settled w p
  | disposing w p =>
      cases hr
      obtain ⟨rfl, rfl⟩ : whisper = _ ∧ pyannote = _ := hs
      exact checkModelsReady_settled w p

theorem typed_unset (details : List String) : (ModelState.unset : ModelState μ).Typed details :=
  ⟨by simp [ModelState.unset], fun d h => nomatch h⟩

theorem typed_loading (details : List String) :
    (ModelState.loading : ModelState μ).Typed details :=
  ⟨by simp [ModelState.loading], fun d h => nomatch h⟩

theorem typed_settle {details : List String} {r : Except String (Option μ)}
    (hr : ∀ d, r = .error d → d ∈ details) : (ModelState.loading.settle r).Typed details := by
  cases r with
  | ok model => exact ⟨by simp [ModelState.settle, ModelState.loading], fun d h => nomatch h⟩
  | error detail =>
      refine ⟨by simp [ModelState.settle], fun d h => ?_⟩
      obtain rfl : detail = d := Option.some.inj h
      exact hr detail rfl

theorem ModelState.Typed.release {details : List String} {m : ModelState μ}
    (hm : m.Typed details) : m.release.Typed details := by
  unfold ModelState.release
  split
  · exact ⟨hm.error_iff, hm.mem⟩
  · exact hm

theorem ModelState.Typed.told {details : List String} {m : ModelState μ}
    (hm : m.Typed details) : Told details (m.status.getD "loading") m.detail.join := by
  refine ⟨?_, hm.mem⟩
  rw [← hm.error_iff]
  cases m.status with
  | none => simp
  | some status => simp

theorem ModelsTyped.health {s : Process μ π} (hs : ModelsTyped s) : HealthTyped s :=
  ⟨hs.1.told, hs.2.told⟩

theorem modelsTyped_step {s s' : Process μ π} {e : Event μ π} (hc : Current s)
    (hs : ModelsTyped s) (h : (lifespans).step s e = some s') : ModelsTyped s' := by
  obtain ⟨phase, app⟩ := s
  cases e with
  | starts =>
      cases phase with
      | down =>
          cases h
          exact ⟨typed_loading _, hs.2⟩
      | _ => cases h
  | whisperLoads e =>
      cases phase with
      | loadingWhisper =>
          cases h
          have hwhisper : app.whisper = .loading := hc
          refine ⟨?_, typed_loading _⟩
          rw [hwhisper]
          exact typed_settle fun d => detail_loadWhisperModel
      | _ => cases h
  | pyannoteLoads hfToken call retry =>
      cases phase with
      | loadingPyannote whisper =>
          cases h
          obtain ⟨-, hpyannote⟩ : _ ∧ app.pyannote = .loading := hc
          refine ⟨hs.1, ?_⟩
          show (app.pyannote.settle _).Typed _
          rw [hpyannote]
          exact typed_settle fun d => detail_loadPyannotePipeline
      | _ => cases h
  | startCancelled =>
      cases phase with
      | loadingWhisper =>
          cases h
          exact hs
      | loadingPyannote whisper =>
          cases h
          exact hs
      | _ => cases h
  | stops =>
      cases phase with
      | serving whisper pyannote =>
          cases h
          exact hs
      | _ => cases h
  | disposeCancelled =>
      cases phase with
      | disposing whisper pyannote =>
          cases h
          exact hs
      | _ => cases h
  | disposed releaseRaises =>
      cases phase with
      | disposing whisper pyannote =>
          cases h
          cases releaseRaises with
          | false => exact ⟨typed_unset _, typed_unset _⟩
          | true => exact ⟨hs.1.release, hs.2.release⟩
      | _ => cases h

/-- The gate of two loaded models. -/
theorem truthful_settled_iff {phase : Phase μ π} {whisper : Except String (Option μ)}
    {pyannote : Except String (Option π)} :
    Truthful ⟨phase, ⟨ModelState.loading.settle whisper, ModelState.loading.settle pyannote⟩⟩ ↔
      ∀ w p, whisper = .ok w → pyannote = .ok p → w.isSome ∧ p.isSome := by
  unfold Truthful
  rw [checkModelsReady_settled]
  cases whisper with
  | error detail =>
      refine iff_of_true (fun r hr hready => ?_) fun w p hw _ => nomatch hw
      cases hr
      cases hready
  | ok w =>
      cases pyannote with
      | error detail =>
          refine iff_of_true (fun r hr hready => ?_) fun w p _ hp => nomatch hp
          cases hr
          cases hready
      | ok p =>
          constructor
          · rintro h _ _ ⟨⟩ ⟨⟩
            exact h _ rfl rfl
          · exact fun h r _ _ => h w p rfl rfl

/-- A release that raises leaves the statuses, and no model. -/
theorem truthful_released_iff {whisper : Except String (Option μ)}
    {pyannote : Except String (Option π)} :
    Truthful ⟨.down, tearDown ⟨ModelState.loading.settle whisper,
        ModelState.loading.settle pyannote⟩ true⟩ ↔
      ∀ w p, ¬ (whisper = .ok w ∧ pyannote = .ok p) := by
  cases whisper with
  | error detail =>
      refine iff_of_true (fun r hr hready => ?_) fun w p h => nomatch h.1
      cases pyannote <;> cases hr <;> cases hready
  | ok w =>
      cases pyannote with
      | error detail =>
          refine iff_of_true (fun r hr hready => ?_) fun w p h => nomatch h.2
          cases w <;> cases hr <;> cases hready
      | ok p =>
          refine iff_of_false (fun h => ?_) fun h => h w p ⟨rfl, rfl⟩
          have hready : checkModelsReady (tearDown ⟨ModelState.loading.settle (.ok w),
              ModelState.loading.settle (.ok p)⟩ true) = some ⟨true, none, none⟩ := by
            cases w <;> cases p <;> rfl
          have hnone := (h _ hready rfl).1
          cases w with
          | none => cases hnone
          | some model => cases hnone

theorem truthful_step_iff {s s' : Process μ π} {e : Event μ π} (hc : Current s)
    (hs : Truthful s) (h : (lifespans).step s e = some s') : Truthful s' ↔ Usable s e s' := by
  obtain ⟨phase, app⟩ := s
  have hnot {app : AppState μ π} {phase : Phase μ π}
      (hexpected : ∀ r, checkModelsReady app = some r → r.ready = false) :
      Truthful ⟨phase, app⟩ := by
    intro r hr hready
    rw [hexpected r hr] at hready
    cases hready
  have hcurrent := gatesAnswer_of_current (current_step hc h)
  cases e with
  | starts =>
      cases phase with
      | down =>
          cases h
          refine iff_of_true (hnot fun r hr => ?_) trivial
          rw [(hcurrent _ rfl).1] at hr
          cases hr
          rfl
      | _ => cases h
  | whisperLoads e =>
      cases phase with
      | loadingWhisper =>
          cases h
          refine iff_of_true (hnot fun r hr => ?_) trivial
          cases hload : loadWhisperModel e with
          | error detail =>
              rw [hload] at hcurrent hr
              rw [(hcurrent _ rfl).1] at hr
              cases hr
              rfl
          | ok model =>
              rw [hload] at hcurrent hr
              rw [(hcurrent _ rfl).1] at hr
              cases hr
              rfl
      | _ => cases h
  | pyannoteLoads hfToken call retry =>
      cases phase with
      | loadingPyannote whisper =>
          cases h
          obtain ⟨whisperState, pyannoteState⟩ := app
          obtain ⟨rfl, rfl⟩ : whisperState = _ ∧ pyannoteState = _ := hc
          refine truthful_settled_iff.trans ⟨fun h w p heq => ?_, fun h w p hw hp => h w p ?_⟩
          · injection heq with hw hp
            exact h w p hw hp
          · rw [hw, hp]
      | _ => cases h
  | startCancelled =>
      cases phase with
      | loadingWhisper =>
          cases h
          exact iff_of_true hs trivial
      | loadingPyannote whisper =>
          cases h
          exact iff_of_true hs trivial
      | _ => cases h
  | stops =>
      cases phase with
      | serving whisper pyannote =>
          cases h
          exact iff_of_true hs trivial
      | _ => cases h
  | disposeCancelled =>
      cases phase with
      | disposing whisper pyannote =>
          cases h
          exact iff_of_true hs trivial
      | _ => cases h
  | disposed releaseRaises =>
      cases phase with
      | disposing whisper pyannote =>
          cases h
          obtain ⟨whisperState, pyannoteState⟩ := app
          obtain ⟨rfl, rfl⟩ : whisperState = _ ∧ pyannoteState = _ := hc
          cases releaseRaises with
          | false => exact iff_of_true (fun r hr => nomatch hr) trivial
          | true =>
              refine truthful_released_iff.trans ⟨fun h w p heq => ?_, fun h w p hwp => h w p ?_⟩
              · injection heq with hw hp
                exact h w p ⟨hw, hp⟩
              · rw [hwp.1, hwp.2]
      | _ => cases h

end Lifespans

/-- Over any number of lifespans of a process, whatever their loads come to and
wherever they are cancelled: both gates answer for the running lifespan, and its
details in `/health` are of the catalogue; and a gate that is open has two models
behind it, exactly as long as no two loaders succeed of which one returns `None`
and no release of two models raises. -/
theorem gates_of_lifespans {μ π : Type} (es : List (Event μ π)) :
    (lifespans).Along (fun _ _ s' => GatesAnswer s' ∧ HealthTyped s') .fresh es ∧
      ((lifespans).Along (fun _ _ s' => Truthful s') .fresh es ↔
        (lifespans).Along Usable .fresh es) := by
  have hfresh : Current (Process.fresh : Process μ π) := trivial
  have htyped : ModelsTyped (Process.fresh : Process μ π) := ⟨typed_unset _, typed_unset _⟩
  have htruthful : Truthful (Process.fresh : Process μ π) := fun r hr => nomatch hr
  constructor
  · exact (lifespans).along_of_invariant (I := fun s => Current s ∧ ModelsTyped s)
      (fun s e s' hI h => ⟨current_step hI.1 h, modelsTyped_step hI.1 hI.2 h⟩)
      (fun s e s' hI h => ⟨gatesAnswer_of_current (current_step hI.1 h),
        (modelsTyped_step hI.1 hI.2 h).health⟩) ⟨hfresh, htyped⟩
  · exact (lifespans).along_iff (I := fun s => Current s ∧ Truthful s)
      (fun s e s' hI h hP => ⟨current_step hI.1 h, hP⟩)
      (fun s e s' hI h => truthful_step_iff hI.1 hI.2 h) ⟨hfresh, htruthful⟩

end TranscriptionApi.Runtime
