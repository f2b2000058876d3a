import Mathlib.Logic.Basic
import Mathlib.Data.List.Basic

/-!
Runs of a transition system whose steps are computed.

A system is a step function: `step s e` is the state after the event `e`, and
`none` when `s` does not enable `e`. A run is a list of events, so a concrete
schedule is replayed by evaluation, and a statement about every run is an
induction on the list.

A law of a system often holds only as long as every step stays within some
condition. `Along` says what is asked of a run, one transition at a time, and
the two rules below are how such a law is proved: `invariant_along` carries a
state predicate through the runs that meet a condition, and `along_iff` turns
an equivalence proved for one transition into one for whole runs.
-/

namespace TranscriptionApi.Lib

/-- A step function over states `σ` and events `ε`. -/
structure System (σ ε : Type*) where
  step : σ → ε → Option σ

namespace System

variable {σ ε : Type*} (M : System σ ε)

/-- The state after the events, when every one of them is enabled in turn. -/
def run : σ → List ε → Option σ
  | s, [] => some s
  | s, e :: es => (M.step s e).bind fun s' => run s' es

/-- Every transition that the events make from `s` satisfies `P`. -/
def Along (P : σ → ε → σ → Prop) : σ → List ε → Prop
  | _, [] => True
  | s, e :: es => ∀ s', M.step s e = some s' → P s e s' ∧ Along P s' es

@[simp] theorem run_nil (s : σ) : M.run s [] = some s := rfl

theorem run_cons (s : σ) (e : ε) (es : List ε) :
    M.run s (e :: es) = (M.step s e).bind fun s' => M.run s' es := rfl

theorem run_cons_eq_some {s t : σ} {e : ε} {es : List ε} :
    M.run s (e :: es) = some t ↔ ∃ s', M.step s e = some s' ∧ M.run s' es = some t := by
  simp only [run_cons, Option.bind_eq_some_iff]

theorem run_append (s : σ) (es fs : List ε) :
    M.run s (es ++ fs) = (M.run s es).bind fun s' => M.run s' fs := by
  induction es generalizing s with
  | nil => rfl
  | cons e es ih =>
      rw [List.cons_append, run_cons, run_cons, Option.bind_assoc]
      exact congrArg _ (funext ih)

/-- What holds of every transition of a run holds of the one after a prefix. -/
theorem Along.at_step {P : σ → ε → σ → Prop} {s t u : σ} {es fs : List ε} {e : ε}
    (h : M.Along P s (es ++ e :: fs)) (hrun : M.run s es = some t)
    (hstep : M.step t e = some u) : P t e u := by
  induction es generalizing s with
  | nil =>
      simp only [run_nil, Option.some.injEq] at hrun
      subst hrun
      exact (h u hstep).1
  | cons a es ih =>
      obtain ⟨s', hs', hrest⟩ := (M.run_cons_eq_some).mp hrun
      exact ih (h s' hs').2 hrest

theorem Along.mono {P Q : σ → ε → σ → Prop} {s : σ} {es : List ε}
    (hPQ : ∀ s e s', P s e s' → Q s e s') (h : M.Along P s es) : M.Along Q s es := by
  induction es generalizing s with
  | nil => trivial
  | cons e es ih =>
      intro s' hstep
      obtain ⟨hP, hrest⟩ := h s' hstep
      exact ⟨hPQ _ _ _ hP, ih hrest⟩

theorem Along.and {P Q : σ → ε → σ → Prop} {s : σ} {es : List ε} (hP : M.Along P s es)
    (hQ : M.Along Q s es) : M.Along (fun s e s' => P s e s' ∧ Q s e s') s es := by
  induction es generalizing s with
  | nil => trivial
  | cons e es ih =>
      intro s' hstep
      obtain ⟨hPs, hPrest⟩ := hP s' hstep
      obtain ⟨hQs, hQrest⟩ := hQ s' hstep
      exact ⟨⟨hPs, hQs⟩, ih hPrest hQrest⟩

/-- One transition of the run is `Q`; those before it and after it are `P`. -/
def Once (P Q : σ → ε → σ → Prop) (s : σ) (es : List ε) : Prop :=
  ∃ es₁ e es₂ t u, es = es₁ ++ e :: es₂ ∧ M.run s es₁ = some t ∧ M.step t e = some u ∧
    Q t e u ∧ M.Along P s es₁ ∧ M.Along P u es₂

/-- Test a computable condition along a run. -/
def checkAlong (c : σ → ε → Bool) : σ → List ε → Bool
  | _, [] => true
  | s, e :: es =>
      c s e && match M.step s e with
        | none => true
        | some s' => checkAlong c s' es

theorem along_of_check {c : σ → ε → Bool} {s : σ} {es : List ε}
    (h : M.checkAlong c s es = true) : M.Along (fun s e _ => c s e = true) s es := by
  induction es generalizing s with
  | nil => trivial
  | cons e es ih =>
      intro s' hstep
      rw [checkAlong, hstep, Bool.and_eq_true] at h
      exact ⟨h.1, ih h.2⟩

/-- A condition on the events alone. -/
theorem along_of_forall {C : ε → Prop} {s : σ} {es : List ε} (h : ∀ e ∈ es, C e) :
    M.Along (fun _ e _ => C e) s es := by
  induction es generalizing s with
  | nil => trivial
  | cons e es ih =>
      exact fun s' _ => ⟨h e List.mem_cons_self, ih fun e' he' => h e' (List.mem_cons_of_mem e he')⟩

/-- A predicate that every conditioned step keeps holds in the state a
conditioned run ends in, and so in every state such a run passes through. -/
theorem invariant_along {C : σ → ε → Prop} {I : σ → Prop}
    (hstep : ∀ s e s', I s → C s e → M.step s e = some s' → I s')
    {s t : σ} {es : List ε} (hI : I s)
    (hC : M.Along (fun s e _ => C s e) s es) (hrun : M.run s es = some t) : I t := by
  induction es generalizing s with
  | nil =>
      simp only [run_nil, Option.some.injEq] at hrun
      exact hrun ▸ hI
  | cons e es ih =>
      obtain ⟨s', hs', hrest⟩ := (M.run_cons_eq_some).mp hrun
      obtain ⟨hCs, hCrest⟩ := hC s' hs'
      exact ih (hstep s e s' hI hCs hs') hCrest hrest

/-- The unconditioned rule: a predicate that every step keeps. -/
theorem invariant_run {I : σ → Prop}
    (hstep : ∀ s e s', I s → M.step s e = some s' → I s')
    {s t : σ} {es : List ε} (hI : I s) (hrun : M.run s es = some t) : I t := by
  induction es generalizing s with
  | nil =>
      simp only [run_nil, Option.some.injEq] at hrun
      exact hrun ▸ hI
  | cons e es ih =>
      obtain ⟨s', hs', hrest⟩ := (M.run_cons_eq_some).mp hrun
      exact ih (hstep s e s' hI hs') hrest

theorem Once.here {P Q : σ → ε → σ → Prop} {s s' : σ} {e : ε} {es : List ε}
    (hstep : M.step s e = some s') (hQ : Q s e s') (hrest : M.Along P s' es) :
    M.Once P Q s (e :: es) :=
  ⟨[], e, es, s, s', rfl, rfl, hstep, hQ, trivial, hrest⟩

theorem Along.cons {P : σ → ε → σ → Prop} {s s' : σ} {e : ε} {es : List ε}
    (hstep : M.step s e = some s') (hP : P s e s') (hrest : M.Along P s' es) :
    M.Along P s (e :: es) := by
  intro u hu
  obtain rfl := Option.some.inj (hstep.symm.trans hu)
  exact ⟨hP, hrest⟩

theorem Once.cons {P Q : σ → ε → σ → Prop} {s s' : σ} {e : ε} {es : List ε}
    (hstep : M.step s e = some s') (hP : P s e s') (h : M.Once P Q s' es) :
    M.Once P Q s (e :: es) := by
  obtain ⟨es₁, e₁, es₂, t, u, rfl, hrun, hQstep, hQ, hbefore, hafter⟩ := h
  refine ⟨e :: es₁, e₁, es₂, t, u, rfl, ?_, hQstep, hQ, hbefore.cons M hstep hP, hafter⟩
  exact M.run_cons_eq_some.mpr ⟨s', hstep, hrun⟩

/-- The transition starts from a state with the invariant. -/
theorem Once.mono {P Q Q' : σ → ε → σ → Prop} {I : σ → Prop}
    (hkeep : ∀ s e s', I s → M.step s e = some s' → I s')
    (hQ : ∀ s e s', I s → M.step s e = some s' → Q s e s' → Q' s e s')
    {s : σ} {es : List ε} (hI : I s) (h : M.Once P Q s es) : M.Once P Q' s es := by
  obtain ⟨es₁, e, es₂, t, u, rfl, hrun, hstep, hQt, hbefore, hafter⟩ := h
  exact ⟨es₁, e, es₂, t, u, rfl, hrun, hstep,
    hQ t e u (M.invariant_run hkeep hI hrun) hstep hQt, hbefore, hafter⟩

/-- The rule for a predicate that also speaks of the events so far. -/
theorem invariant_history {I : List ε → σ → Prop}
    (hstep : ∀ es s e s', I es s → M.step s e = some s' → I (es ++ [e]) s')
    {s t : σ} {es : List ε} (hI : I [] s) (hrun : M.run s es = some t) : I es t := by
  have hfrom (past : List ε) (hpast : I past s) : I (past ++ es) t := by
    clear hI
    induction es generalizing s past with
    | nil =>
        simp only [run_nil, Option.some.injEq] at hrun
        rw [List.append_nil]
        exact hrun ▸ hpast
    | cons e es ih =>
        obtain ⟨s', hs', hrest⟩ := (M.run_cons_eq_some).mp hrun
        rw [List.append_cons]
        exact ih hrest (past ++ [e]) (hstep past s e s' hpast hs')
  exact hfrom [] hI

/-- A property of transitions holds along every run from a state satisfying
an invariant, once one step under the invariant and the condition has it. -/
theorem along_of_step {C : σ → ε → Prop} {I : σ → Prop} {P : σ → ε → σ → Prop}
    (hkeep : ∀ s e s', I s → C s e → M.step s e = some s' → I s')
    (hP : ∀ s e s', I s → C s e → M.step s e = some s' → P s e s')
    {s : σ} {es : List ε} (hI : I s) (hC : M.Along (fun s e _ => C s e) s es) :
    M.Along P s es := by
  induction es generalizing s with
  | nil => trivial
  | cons e es ih =>
      intro s' hs'
      obtain ⟨hCs, hCrest⟩ := hC s' hs'
      exact ⟨hP s e s' hI hCs hs', ih (hkeep s e s' hI hCs hs') hCrest⟩

/-- The unconditioned rule: what every step out of an invariant state has. -/
theorem along_of_invariant {I : σ → Prop} {P : σ → ε → σ → Prop}
    (hkeep : ∀ s e s', I s → M.step s e = some s' → I s')
    (hP : ∀ s e s', I s → M.step s e = some s' → P s e s')
    {s : σ} {es : List ε} (hI : I s) : M.Along P s es := by
  induction es generalizing s with
  | nil => trivial
  | cons e es ih =>
      intro s' hs'
      exact ⟨hP s e s' hI hs', ih (hkeep s e s' hI hs')⟩

/-- Two properties of transitions agree on every run, once they agree on every
step out of an invariant state and the steps that have them keep the
invariant. -/
theorem along_iff {I : σ → Prop} {P Q : σ → ε → σ → Prop}
    (hkeep : ∀ s e s', I s → M.step s e = some s' → P s e s' → I s')
    (hPQ : ∀ s e s', I s → M.step s e = some s' → (P s e s' ↔ Q s e s'))
    {s : σ} {es : List ε} (hI : I s) : M.Along P s es ↔ M.Along Q s es := by
  induction es generalizing s with
  | nil => exact Iff.rfl
  | cons e es ih =>
      refine forall_congr' fun s' => forall_congr' fun hs' => ?_
      rw [← hPQ s e s' hI hs']
      exact and_congr_right fun hP => ih (hkeep s e s' hI hs' hP)

/-- The same under a condition that the run meets. -/
theorem along_iff_of_along {C : σ → ε → Prop} {I : σ → Prop} {P Q : σ → ε → σ → Prop}
    (hkeep : ∀ s e s', I s → C s e → M.step s e = some s' → P s e s' → I s')
    (hPQ : ∀ s e s', I s → C s e → M.step s e = some s' → (P s e s' ↔ Q s e s'))
    {s : σ} {es : List ε} (hI : I s) (hC : M.Along (fun s e _ => C s e) s es) :
    M.Along P s es ↔ M.Along Q s es := by
  induction es generalizing s with
  | nil => exact Iff.rfl
  | cons e es ih =>
      refine forall_congr' fun s' => forall_congr' fun hs' => ?_
      obtain ⟨hCs, hCrest⟩ := hC s' hs'
      rw [← hPQ s e s' hI hCs hs']
      exact and_congr_right fun hP => ih (hkeep s e s' hI hCs hs' hP) hCrest

end System

end TranscriptionApi.Lib
