import Mathlib.Order.Basic

/-!
Loops that take turns until there is none left to take.

A loop is the function of its turns, `none` where it stops. `Ends turn s t` says
that from `s` it stops in `t`, which it does in one state at most. A measure that
every turn makes smaller bounds the number of turns, so that the loop is a
function, `finish`, and what `Ends` says of a state is what this function gives.
-/

namespace TranscriptionApi.Lib.Loop

variable {σ : Type*} {turn : σ → Option σ}

/-- At most so many turns. -/
def turns (turn : σ → Option σ) : ℕ → σ → σ
  | 0, s => s
  | n + 1, s =>
      match turn s with
      | none => s
      | some s' => turns turn n s'

/-- The loop stops, and this is where. -/
inductive Ends (turn : σ → Option σ) : σ → σ → Prop where
  | stop {s : σ} (h : turn s = none) : Ends turn s s
  | next {s s' t : σ} (h : turn s = some s') (hrest : Ends turn s' t) : Ends turn s t

theorem Ends.unique {s t t' : σ} (h : Ends turn s t) (h' : Ends turn s t') : t = t' := by
  induction h with
  | stop hstop =>
      cases h' with
      | stop => rfl
      | next hnext => exact absurd (hstop.symm.trans hnext) (by simp)
  | next hnext _ ih =>
      cases h' with
      | stop hstop => exact absurd (hstop.symm.trans hnext) (by simp)
      | next hnext' hrest' =>
          obtain rfl := Option.some.inj (hnext.symm.trans hnext')
          exact ih hrest'

/-- Where the loop stops it stands still. -/
theorem Ends.last {s t : σ} (h : Ends turn s t) : turn t = none := by
  induction h with
  | stop hstop => exact hstop
  | next _ _ ih => exact ih

section Measure

variable {m : σ → ℕ} (hm : ∀ s s', turn s = some s' → m s' < m s)
include hm

theorem ends_turns {n : ℕ} {s : σ} (h : m s ≤ n) : Ends turn s (turns turn n s) := by
  induction n generalizing s with
  | zero =>
      cases hturn : turn s with
      | none => exact .stop hturn
      | some s' =>
          have := hm s s' hturn
          omega
  | succ n ih =>
      rw [turns]
      split
      · rename_i hturn
        exact .stop hturn
      · rename_i s' hturn
        have := hm s s' hturn
        exact .next hturn (ih (by omega))

/-- With enough turns the loop is done, whatever it is shown to end in. -/
theorem turns_eq_of_ends {n : ℕ} {s t : σ} (h : m s ≤ n) (hends : Ends turn s t) :
    turns turn n s = t := (ends_turns hm h).unique hends

end Measure

end TranscriptionApi.Lib.Loop
