import Mathlib.Algebra.Order.Field.Basic
import Mathlib.Algebra.Order.Floor.Ring
import Mathlib.Data.Rat.Floor
import Mathlib.Tactic.FieldSimp
import Mathlib.Tactic.Linarith
import Mathlib.Tactic.Positivity
import Mathlib.Tactic.Ring

/-!
The binary64 numbers from one on, as rationals.

Between `2 ^ k` and `2 ^ (k + 1)` they are the multiples of `2 ^ k / 2 ^ 52`,
and the result of an operation is the multiple next to the exact result, the
even one of two that are equally near. The exponent has no upper end here: an
operation that overflows is not one of this file's. What a user of the numbers
needs is that integers below `2 ^ 53` are among them, that rounding never passes
an integer, and how far it goes at most.
-/

namespace TranscriptionApi.Lib.Binary64

/-- The integer next to `y`, the even one when `y` lies in the middle of two. -/
def nearestEven (y : ℚ) : ℤ :=
  if y - y.floor < 1 / 2 ∨ y - y.floor = 1 / 2 ∧ y.floor % 2 = 0 then y.floor else y.floor + 1

/-- The distance of two neighbours around `x`. -/
def spacing (x : ℚ) : ℚ := 2 ^ x.floor.toNat.log2 / 2 ^ 52

/-- The binary64 number that stands for zero or for a rational from one on. -/
def round (x : ℚ) : ℚ := nearestEven (x / spacing x) * spacing x

/-! ### Rounding to an integer -/

theorem le_nearestEven {z : ℤ} {y : ℚ} (h : (z : ℚ) ≤ y) : z ≤ nearestEven y := by
  have hfloor : z ≤ y.floor := Rat.le_floor_iff.mpr h
  unfold nearestEven
  split
  · exact hfloor
  · omega

theorem nearestEven_le_add_half (y : ℚ) : (nearestEven y : ℚ) ≤ y + 1 / 2 := by
  have hfloor : (y.floor : ℚ) ≤ y := Rat.floor_le y
  unfold nearestEven
  split
  · linarith
  · rename_i h
    have hhalf : 1 / 2 ≤ y - y.floor := not_lt.mp fun hlt => h (.inl hlt)
    push_cast
    linarith

theorem nearestEven_intCast (z : ℤ) : nearestEven (z : ℚ) = z := by
  have hfloor : ((z : ℚ)).floor = z := Rat.floor_intCast z
  unfold nearestEven
  rw [hfloor, sub_self, if_pos (.inl (by norm_num))]

theorem nearestEven_le {z : ℤ} {y : ℚ} (h : y ≤ z) : nearestEven y ≤ z := by
  have hreal : (nearestEven y : ℚ) < z + 1 := by
    have := nearestEven_le_add_half y
    linarith
  have hint : nearestEven y < z + 1 := by exact_mod_cast hreal
  omega

/-! ### Rounding to a binary64 number -/

theorem spacing_pos (x : ℚ) : 0 < spacing x := by
  unfold spacing
  positivity

section Binade

variable {x : ℚ} (hx : 1 ≤ x)
include hx

theorem floor_toNat_cast : ((x.floor.toNat : ℕ) : ℚ) = x.floor := by
  have hfloor : (1 : ℤ) ≤ x.floor := Rat.le_floor_iff.mpr (by exact_mod_cast hx)
  exact_mod_cast Int.toNat_of_nonneg (by omega)

theorem floor_toNat_ne_zero : x.floor.toNat ≠ 0 := by
  have hfloor : (1 : ℤ) ≤ x.floor := Rat.le_floor_iff.mpr (by exact_mod_cast hx)
  omega

/-- `x` lies in the binade that its spacing is taken from. -/
theorem pow_log2_le : (2 : ℚ) ^ x.floor.toNat.log2 ≤ x := by
  have hpow : 2 ^ x.floor.toNat.log2 ≤ x.floor.toNat := Nat.log2_self_le (floor_toNat_ne_zero hx)
  calc (2 : ℚ) ^ x.floor.toNat.log2 ≤ (x.floor.toNat : ℚ) := by exact_mod_cast hpow
    _ = x.floor := floor_toNat_cast hx
    _ ≤ x := Rat.floor_le x

theorem lt_pow_log2_succ : x < (2 : ℚ) ^ (x.floor.toNat.log2 + 1) := by
  have hpow : x.floor.toNat + 1 ≤ 2 ^ (x.floor.toNat.log2 + 1) := Nat.lt_log2_self
  calc x < x.floor + 1 := by exact_mod_cast Rat.lt_floor_add_one x
    _ = (x.floor.toNat : ℚ) + 1 := by rw [floor_toNat_cast hx]
    _ ≤ (2 : ℚ) ^ (x.floor.toNat.log2 + 1) := by exact_mod_cast hpow

/-- The half of a spacing is at most one part in `2 ^ 53`. -/
theorem round_le : round x ≤ x + x / 2 ^ 53 := by
  have hpos := spacing_pos x
  have hnear := mul_le_mul_of_nonneg_right (nearestEven_le_add_half (x / spacing x)) hpos.le
  have hspacing : spacing x ≤ x / 2 ^ 52 :=
    div_le_div_of_nonneg_right (pow_log2_le hx) (by positivity)
  have hself : x / spacing x * spacing x = x := div_mul_cancel₀ x hpos.ne'
  unfold round
  rw [add_mul, hself] at hnear
  linarith

theorem spacing_eq {k : ℕ} (hlow : (2 : ℚ) ^ k ≤ x) (hhigh : x < (2 : ℚ) ^ (k + 1)) :
    spacing x = 2 ^ k / 2 ^ 52 := by
  have hle : k < x.floor.toNat.log2 + 1 :=
    (pow_lt_pow_iff_right₀ one_lt_two).mp (hlow.trans_lt (lt_pow_log2_succ hx))
  have hge : x.floor.toNat.log2 < k + 1 :=
    (pow_lt_pow_iff_right₀ one_lt_two).mp ((pow_log2_le hx).trans_lt hhigh)
  rw [spacing, show x.floor.toNat.log2 = k by omega]

end Binade

theorem round_eq_self {x : ℚ} {j : ℤ} (h : x = j * spacing x) : round x = x := by
  have hj : x / spacing x = j := (div_eq_iff (spacing_pos x).ne').mpr h
  rw [round, hj, nearestEven_intCast, ← h]

/-- Below `2 ^ 53` the integers are multiples of the spacing. -/
theorem exists_natCast_eq_mul_spacing {x : ℚ} (n : ℕ) (h : x.floor.toNat < 2 ^ 53) :
    ∃ j : ℤ, (n : ℚ) = j * spacing x := by
  have hlog : x.floor.toNat.log2 ≤ 52 := by
    by_cases hzero : x.floor.toNat = 0
    · simp [hzero]
    · have := (Nat.log2_lt hzero).mpr h
      omega
  refine ⟨(n * 2 ^ (52 - x.floor.toNat.log2) : ℕ), ?_⟩
  have hsplit : (2 : ℚ) ^ 52 = 2 ^ (52 - x.floor.toNat.log2) * 2 ^ x.floor.toNat.log2 := by
    rw [← pow_add, Nat.sub_add_cancel hlog]
  rw [spacing, hsplit]
  push_cast
  field_simp

theorem floor_natCast_toNat (n : ℕ) : ((n : ℚ)).floor.toNat = n := by
  rw [show ((n : ℚ)).floor = (n : ℤ) from Rat.floor_intCast n, Int.toNat_natCast]

theorem round_natCast {n : ℕ} (h : n < 2 ^ 53) : round n = n := by
  obtain ⟨j, hj⟩ := exists_natCast_eq_mul_spacing (x := n) n (by rwa [floor_natCast_toNat])
  exact round_eq_self hj

/-- Rounding does not pass an integer. -/
theorem natCast_le_round {x : ℚ} {n : ℕ} (hn : (n : ℚ) ≤ x) (h : x.floor.toNat < 2 ^ 53) :
    (n : ℚ) ≤ round x := by
  have hpos := spacing_pos x
  obtain ⟨j, hj⟩ := exists_natCast_eq_mul_spacing (x := x) n h
  have hle : (j : ℚ) ≤ x / spacing x := by rwa [le_div_iff₀ hpos, ← hj]
  rw [hj, round]
  exact mul_le_mul_of_nonneg_right (by exact_mod_cast le_nearestEven hle) hpos.le

/-- A rounded number in a binade is a multiple of its spacing that the binade,
or the beginning of the next one, holds. -/
theorem exists_significand {x : ℚ} (hx : 1 ≤ x) :
    ∃ (k : ℕ) (j : ℤ), 2 ^ 52 ≤ j ∧ j ≤ 2 ^ 53 ∧ round x = j * (2 ^ k / 2 ^ 52) := by
  have hpos := spacing_pos x
  refine ⟨x.floor.toNat.log2, nearestEven (x / spacing x), le_nearestEven ?_,
    nearestEven_le ?_, rfl⟩
  · rw [le_div_iff₀ hpos, Int.cast_pow, Int.cast_ofNat, spacing,
      mul_div_cancel₀ _ (by positivity)]
    exact pow_log2_le hx
  · rw [div_le_iff₀ hpos, Int.cast_pow, Int.cast_ofNat, spacing]
    calc x ≤ 2 ^ (x.floor.toNat.log2 + 1) := (lt_pow_log2_succ hx).le
      _ = 2 ^ 53 * (2 ^ x.floor.toNat.log2 / 2 ^ 52) := by ring

theorem one_le_round {x : ℚ} (hx : 1 ≤ x) : 1 ≤ round x := by
  obtain ⟨k, j, hlow, -, hround⟩ := exists_significand hx
  have hj : (2 : ℚ) ^ 52 ≤ j := by exact_mod_cast hlow
  calc (1 : ℚ) ≤ 2 ^ k := one_le_pow₀ one_le_two
    _ = 2 ^ 52 * (2 ^ k / 2 ^ 52) := by rw [mul_div_cancel₀ _ (by positivity)]
    _ ≤ j * (2 ^ k / 2 ^ 52) := mul_le_mul_of_nonneg_right hj (by positivity)
    _ = round x := hround.symm

/-- A multiple of the spacing of a binade is its own rounding. -/
theorem round_significand {k : ℕ} {j : ℤ} (hlow : 2 ^ 52 ≤ j) (hhigh : j < 2 ^ 53) :
    round (j * (2 ^ k / 2 ^ 52)) = j * (2 ^ k / 2 ^ 52) := by
  have hjlow : (2 : ℚ) ^ 52 ≤ j := by exact_mod_cast hlow
  have hjhigh : (j : ℚ) < 2 ^ 53 := by exact_mod_cast hhigh
  have hmin : (2 : ℚ) ^ k ≤ j * (2 ^ k / 2 ^ 52) := by
    calc (2 : ℚ) ^ k = 2 ^ 52 * (2 ^ k / 2 ^ 52) := by rw [mul_div_cancel₀ _ (by positivity)]
      _ ≤ j * (2 ^ k / 2 ^ 52) := mul_le_mul_of_nonneg_right hjlow (by positivity)
  have hmax : j * (2 ^ k / 2 ^ 52) < (2 : ℚ) ^ (k + 1) := by
    calc j * (2 ^ k / 2 ^ 52) < 2 ^ 53 * ((2 : ℚ) ^ k / 2 ^ 52) :=
          mul_lt_mul_of_pos_right hjhigh (by positivity)
      _ = 2 ^ (k + 1) := by ring
  have hspacing := spacing_eq ((one_le_pow₀ one_le_two).trans hmin) hmin hmax
  exact round_eq_self (by rw [hspacing])

theorem round_round {x : ℚ} (hx : 1 ≤ x) : round (round x) = round x := by
  obtain ⟨k, j, hlow, hhigh, hround⟩ := exists_significand hx
  rcases lt_or_eq_of_le hhigh with hlt | htop
  · rw [hround, round_significand hlow hlt]
  · -- it reached the next binade, of which it is the first number
    have hnext : round x = (2 ^ 52 : ℤ) * (2 ^ (k + 1) / 2 ^ 52) := by
      rw [hround, htop, Int.cast_pow, Int.cast_pow]
      ring
    rw [hnext, round_significand le_rfl (by decide)]

end TranscriptionApi.Lib.Binary64

namespace TranscriptionApi.Lib

/-- A binary64 number from one on. -/
structure Binary64 where
  value : ℚ
  one_le : 1 ≤ value
  round_value : Binary64.round value = value

namespace Binary64

/-- The number a decimal literal stands for. -/
def ofRat (x : ℚ) (hx : 1 ≤ x) : Binary64 where
  value := round x
  one_le := one_le_round hx
  round_value := round_round hx

/-- The product of an integer, which becomes a binary64 number first, with one. -/
def natMul (n : ℕ) (m : Binary64) : ℚ := round (round n * m.value)

end Binary64

end TranscriptionApi.Lib
