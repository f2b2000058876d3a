import Mathlib.Data.List.Basic
import Mathlib.Logic.Function.Basic

/-!
Transactions under READ COMMITTED.

A statement of a transaction reads the committed state with the transaction's
own writes on top. A write takes the keys it touches, the rows it changes and
the entries it makes in unique indexes, and waits as long as another open
transaction holds one of them. The constraints are checked when the statement
runs; the COMMIT then publishes the writes and a ROLLBACK drops them, and either
one gives the keys back.

So between the check and the COMMIT the committed state changes under the
transaction. `Stable` says when a check does not mind: what was found for a
write is not disturbed by writes to other keys. Then the facts found for the
pending writes hold up to their COMMIT, which is `Guarded` in every reachable
state.
-/

namespace TranscriptionApi.Lib

/-- Writes `ω` to states `δ`, and the keys `κ` they touch; `none` is a violated
constraint. -/
structure Writes (δ ω κ : Type*) where
  apply : ω → δ → Option δ
  keys : ω → List κ

/-- The committed state, the writes of the open transactions and the keys they
hold. -/
structure Transactions (δ ω κ : Type*) where
  committed : δ
  pending : ℕ → List ω
  holder : κ → Option ℕ

namespace Writes

variable {δ ω κ : Type*} (W : Writes δ ω κ)

def applyAll : List ω → δ → Option δ
  | [], d => some d
  | w :: ws, d => (W.apply w d).bind (applyAll ws)

@[simp] theorem applyAll_nil (d : δ) : W.applyAll [] d = some d := rfl

theorem applyAll_cons (w : ω) (ws : List ω) (d : δ) :
    W.applyAll (w :: ws) d = (W.apply w d).bind (W.applyAll ws) := rfl

theorem applyAll_append (ws vs : List ω) (d : δ) :
    W.applyAll (ws ++ vs) d = (W.applyAll ws d).bind (W.applyAll vs) := by
  induction ws generalizing d with
  | nil => rfl
  | cons w ws ih =>
      rw [List.cons_append, applyAll_cons, applyAll_cons, Option.bind_assoc]
      exact congrArg _ (funext ih)

theorem applyAll_singleton (w : ω) (d : δ) : W.applyAll [w] d = W.apply w d := by
  rw [applyAll_cons]
  cases W.apply w d with
  | none => rfl
  | some d' => rfl

/-- What every write keeps, a list of writes keeps. -/
theorem applyAll_rel {R : List ω → δ → δ → Prop} (hnil : ∀ d, R [] d d)
    (hcons : ∀ w ws d d' d'', W.apply w d = some d' → R ws d' d'' → R (w :: ws) d d'')
    {ws : List ω} {d d' : δ} (h : W.applyAll ws d = some d') : R ws d d' := by
  induction ws generalizing d with
  | nil =>
      rw [← Option.some.inj h]
      exact hnil d
  | cons w ws ih =>
      obtain ⟨d₁, hw, hws⟩ := Option.bind_eq_some_iff.mp h
      exact hcons w ws d d₁ d' hw (ih hws)

end Writes

namespace Transactions

variable {δ ω κ : Type*} (W : Writes δ ω κ)

section Operations

variable (s : Transactions δ ω κ) (p : ℕ)

/-- What a statement of transaction `p` reads. -/
def view : Option δ := W.applyAll (s.pending p) s.committed

/-- No other transaction holds a key of the write. -/
def free (w : ω) : Bool := (W.keys w).all fun k => s.holder k = none ∨ s.holder k = some p

def write [DecidableEq κ] (w : ω) : Transactions δ ω κ where
  committed := s.committed
  pending := Function.update s.pending p (s.pending p ++ [w])
  holder := fun k => if k ∈ W.keys w then some p else s.holder k

/-- A statement waits (`none`), violates a constraint (`some none`) or is done. -/
def execute [DecidableEq κ] (w : ω) : Option (Option (Transactions δ ω κ)) :=
  if free W s p w then some (((view W s p).bind (W.apply w)).map fun _ => write W s p w) else none

/-- The transaction ends without its writes. -/
def rollback : Transactions δ ω κ where
  committed := s.committed
  pending := Function.update s.pending p []
  holder := fun k => if s.holder k = some p then none else s.holder k

def commit : Option (Transactions δ ω κ) :=
  (view W s p).map fun d => { rollback s p with committed := d }

end Operations

/-! ### The keys -/

/-- A transaction holds the keys of its writes. -/
def Held (s : Transactions δ ω κ) : Prop :=
  ∀ p, ∀ w ∈ s.pending p, ∀ k ∈ W.keys w, s.holder k = some p

section Keys

variable {W} {s s' : Transactions δ ω κ} {p q : ℕ} {w w' : ω}

/-- The writes of two transactions have no key in common. -/
theorem Held.disjoint (h : Held W s) (hne : p ≠ q) (hw : w ∈ s.pending p)
    (hw' : w' ∈ s.pending q) : ∀ k ∈ W.keys w, k ∉ W.keys w' := by
  intro k hk hk'
  exact hne (Option.some.inj ((h p w hw k hk).symm.trans (h q w' hw' k hk')))

theorem mem_pending_write [DecidableEq κ] (hw : w' ∈ (write W s p w).pending q) :
    q = p ∧ w' = w ∨ w' ∈ s.pending q := by
  simp only [write, Function.update_apply] at hw
  split at hw
  · rename_i hqp
    subst hqp
    rw [List.mem_append, List.mem_singleton] at hw
    rcases hw with hw | rfl
    · exact .inr hw
    · exact .inl ⟨rfl, rfl⟩
  · exact .inr hw

theorem Held.write [DecidableEq κ] (h : Held W s) (hfree : free W s p w = true) :
    Held W (Transactions.write W s p w) := by
  intro q v hv k hk
  simp only [Transactions.write]
  rcases mem_pending_write hv with ⟨rfl, rfl⟩ | hv
  · exact if_pos hk
  · split
    · rename_i hkw
      -- the key was free for `p` and held by `q`
      have hheld := h q v hv k hk
      have hopen := List.all_eq_true.mp hfree k hkw
      rw [hheld, decide_eq_true_eq] at hopen
      rcases hopen with hopen | hopen
      · cases hopen
      · exact hopen.symm
    · exact h q v hv k hk

theorem execute_done [DecidableEq κ] (h : execute W s p w = some (some s')) :
    free W s p w = true ∧ s' = Transactions.write W s p w ∧
      ∃ d d', view W s p = some d ∧ W.apply w d = some d' := by
  unfold execute at h
  split at h
  · rename_i hfree
    obtain ⟨d', hd', rfl⟩ := Option.map_eq_some_iff.mp (Option.some.inj h)
    obtain ⟨d, hd, happly⟩ := Option.bind_eq_some_iff.mp hd'
    exact ⟨hfree, rfl, d, d', hd, happly⟩
  · cases h

theorem pending_rollback_ne (hne : q ≠ p) : (rollback s p).pending q = s.pending q :=
  Function.update_of_ne hne ..

theorem pending_rollback_self : (rollback s p).pending p = [] := Function.update_self ..

theorem Held.rollback (h : Held W s) (p : ℕ) : Held W (s.rollback p) := by
  intro q v hv k hk
  have hqp : q ≠ p := by
    rintro rfl
    rw [pending_rollback_self] at hv
    cases hv
  rw [pending_rollback_ne hqp] at hv
  have hheld := h q v hv k hk
  have hother : s.holder k ≠ some p := by
    rw [hheld]
    exact fun heq => hqp (Option.some.inj heq)
  exact (if_neg hother).trans hheld

theorem commit_eq_some (h : commit W s p = some s') :
    ∃ d, view W s p = some d ∧ s' = { rollback s p with committed := d } := by
  obtain ⟨d, hd, rfl⟩ := Option.map_eq_some_iff.mp h
  exact ⟨d, hd, rfl⟩

theorem Held.commit (h : Held W s) (hcommit : Transactions.commit W s p = some s') : Held W s' := by
  obtain ⟨d, -, rfl⟩ := commit_eq_some hcommit
  exact h.rollback p

end Keys

/-! ### What the checks found -/

/-- `R own d w` is what the check of `w` finds in `d`, given the other writes
of its transaction. -/
structure Stable (R : List ω → δ → ω → Prop) : Prop where
  /-- a write to other keys does not disturb it -/
  keep : ∀ own d d' w w', (∀ k ∈ W.keys w, k ∉ W.keys w') → R own d w →
    W.apply w' d = some d' → R own d' w
  more : ∀ own d w w', R own d w → R (own ++ [w']) d w

def Guarded (R : List ω → δ → ω → Prop) (s : Transactions δ ω κ) : Prop :=
  ∀ p, ∀ w ∈ s.pending p, R (s.pending p) s.committed w

section Guards

variable {W} {R : List ω → δ → ω → Prop} {s s' : Transactions δ ω κ} {p : ℕ}

theorem Stable.keep_all (hR : Stable W R) {own ws : List ω} {d d' : δ} {w : ω}
    (hdisjoint : ∀ w' ∈ ws, ∀ k ∈ W.keys w, k ∉ W.keys w') (h : R own d w)
    (hws : W.applyAll ws d = some d') : R own d' w := by
  induction ws generalizing d with
  | nil =>
      cases hws
      exact h
  | cons v ws ih =>
      obtain ⟨d₁, hv, hws⟩ := Option.bind_eq_some_iff.mp hws
      have hkept := hR.keep own d d₁ w v (hdisjoint v List.mem_cons_self) h hv
      exact ih (fun w' hw' => hdisjoint w' (List.mem_cons_of_mem v hw')) hkept hws

theorem Guarded.write [DecidableEq κ] (hR : Stable W R) (h : Guarded R s) {w : ω}
    (hw : R (s.pending p ++ [w]) s.committed w) : Guarded R (Transactions.write W s p w) := by
  intro q v hv
  by_cases hqp : q = p
  · subst hqp
    have hpending : (Transactions.write W s q w).pending q = s.pending q ++ [w] :=
      Function.update_self ..
    rw [hpending] at hv ⊢
    rw [List.mem_append, List.mem_singleton] at hv
    rcases hv with hv | rfl
    · exact hR.more _ _ _ _ (h q v hv)
    · exact hw
  · have hpending : (Transactions.write W s p w).pending q = s.pending q :=
      Function.update_of_ne hqp ..
    rw [hpending] at hv ⊢
    exact h q v hv

theorem Guarded.rollback (h : Guarded R s) (p : ℕ) : Guarded R (s.rollback p) := by
  intro q v hv
  by_cases hqp : q = p
  · subst hqp
    rw [pending_rollback_self] at hv
    cases hv
  · rw [pending_rollback_ne hqp] at hv ⊢
    exact h q v hv

/-- What the others have checked survives the COMMIT of a transaction. -/
theorem Guarded.commit (hR : Stable W R) (hheld : Held W s) (h : Guarded R s)
    (hcommit : Transactions.commit W s p = some s') : Guarded R s' := by
  obtain ⟨d, hd, rfl⟩ := commit_eq_some hcommit
  intro q v hv
  by_cases hqp : q = p
  · subst hqp
    have hpending : (s.rollback q).pending q = [] := pending_rollback_self
    exact absurd (hpending ▸ hv) List.not_mem_nil
  · have hpending : (s.rollback p).pending q = s.pending q := pending_rollback_ne hqp
    show R ((s.rollback p).pending q) d v
    replace hv : v ∈ (s.rollback p).pending q := hv
    rw [hpending] at hv ⊢
    exact hR.keep_all (fun w' hw' => hheld.disjoint hqp hv hw') (h q v hv) hd

end Guards

end Transactions

end TranscriptionApi.Lib
