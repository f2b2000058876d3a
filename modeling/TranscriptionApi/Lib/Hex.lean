import Mathlib.Data.Nat.Notation

/-!
Hexadecimal digits. `letter` is the digit of value ten, so it says which of the
two alphabets a printer uses; a reader takes both.
-/

namespace TranscriptionApi.Lib

def hexChar (letter : Char) (n : ℕ) : Char :=
  Char.ofNat (if n < 10 then 48 + n else letter.toNat + (n - 10))

def hexValue (c : Char) : Option ℕ :=
  let n := c.toNat
  if 48 ≤ n ∧ n ≤ 57 then some (n - 48)
  else if 97 ≤ n ∧ n ≤ 102 then some (n - 87)
  else if 65 ≤ n ∧ n ≤ 70 then some (n - 55)
  else none

theorem hexValue_hexChar {letter : Char} {n : ℕ} (hletter : letter = 'a' ∨ letter = 'A')
    (h : n < 16) : hexValue (hexChar letter n) = some n := by
  have hlower : ∀ d : Fin 16, hexValue (hexChar 'a' d) = some d.val := by decide
  have hupper : ∀ d : Fin 16, hexValue (hexChar 'A' d) = some d.val := by decide
  rcases hletter with rfl | rfl
  · exact hlower ⟨n, h⟩
  · exact hupper ⟨n, h⟩

end TranscriptionApi.Lib
