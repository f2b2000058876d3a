import Mathlib.Algebra.Group.Nat.Defs
import Mathlib.Data.List.Basic

/-!
Base64: three bytes are four digits.

The decoder is the automaton of `binascii.a2b_base64`, which is not strict. It
skips what is neither a digit nor a pad, and a pad that comes too early, and it
stops at the pad that completes a quad. What counts in the end is how many digits
there were: `decode_eq` says so for a text that has its pads at the end.
-/

namespace TranscriptionApi.Lib.Base64

/-- The 64 digits. Several characters may stand for one of them. -/
structure Alphabet where
  char : ℕ → Char
  value : Char → Option ℕ
  value_char : ∀ n < 64, value (char n) = some n
  value_pad : value '=' = none

inductive DecodeError where
  /-- the number of data characters cannot be 1 more than a multiple of 4 -/
  | oneMore
  | incorrectPadding
  deriving DecidableEq

section

variable (A : Alphabet)

/-- The digits of the bytes, without the pads. -/
def digits : List UInt8 → List Char
  | [] => []
  | [a] => [A.char (a.toNat / 4), A.char (a.toNat % 4 * 16)]
  | [a, b] =>
      [A.char (a.toNat / 4), A.char (a.toNat % 4 * 16 + b.toNat / 16),
        A.char (b.toNat % 16 * 4)]
  | a :: b :: c :: bytes =>
      A.char (a.toNat / 4) :: A.char (a.toNat % 4 * 16 + b.toNat / 16) ::
        A.char (b.toNat % 16 * 4 + c.toNat / 64) :: A.char (c.toNat % 64) :: digits bytes

/-- The pads after the digits of `n` bytes. -/
def padding (n : ℕ) : List Char := List.replicate ((3 - n % 3) % 3) '='

def encode (bytes : List UInt8) : List Char := digits A bytes ++ padding bytes.length

/-- The automaton; `quadPos` digits of the quad are read, and `left` holds the bits of
the last one that no byte has yet. -/
def decodeFrom (quadPos left pads : ℕ) : List Char → Except DecodeError (List UInt8)
  | [] =>
      if quadPos = 0 then .ok []
      else if quadPos = 1 then .error .oneMore
      else .error .incorrectPadding
  | c :: text =>
      if c = '=' then
        if 2 ≤ quadPos then
          if 4 ≤ quadPos + (pads + 1) then .ok [] else decodeFrom quadPos left (pads + 1) text
        else decodeFrom quadPos left pads text
      else
        match A.value c with
        | none => decodeFrom quadPos left pads text
        | some v =>
            match quadPos with
            | 0 => decodeFrom 1 v 0 text
            | 1 => (decodeFrom 2 (v % 16) 0 text).map (UInt8.ofNat (left * 4 + v / 16) :: ·)
            | 2 => (decodeFrom 3 (v % 4) 0 text).map (UInt8.ofNat (left * 16 + v / 4) :: ·)
            | _ => (decodeFrom 0 0 0 text).map (UInt8.ofNat (left * 64 + v) :: ·)

def decode (text : List Char) : Except DecodeError (List UInt8) := decodeFrom A 0 0 0 text

/-- The digits in a text. -/
def values (text : List Char) : List ℕ := text.filterMap A.value

end

/-- The bytes that some more digits complete. -/
def bytesFrom : ℕ → ℕ → List ℕ → List UInt8
  | _, _, [] => []
  | 0, _, v :: vs => bytesFrom 1 v vs
  | 1, left, v :: vs => UInt8.ofNat (left * 4 + v / 16) :: bytesFrom 2 (v % 16) vs
  | 2, left, v :: vs => UInt8.ofNat (left * 16 + v / 4) :: bytesFrom 3 (v % 4) vs
  | _, left, v :: vs => UInt8.ofNat (left * 64 + v) :: bytesFrom 0 0 vs

/-- What comes of `n` digits modulo 4 and `k` pads. -/
def closing (n k : ℕ) (bytes : List UInt8) : Except DecodeError (List UInt8) :=
  if n = 0 then .ok bytes
  else if n = 1 then .error .oneMore
  else if 4 ≤ n + k then .ok bytes
  else .error .incorrectPadding

section Decoding

variable (A : Alphabet)

theorem map_closing (n k : ℕ) (b : UInt8) (bytes : List UInt8) :
    (closing n k bytes).map (b :: ·) = closing n k (b :: bytes) := by
  unfold closing
  split
  · rfl
  · split
    · rfl
    · split
      · rfl
      · rfl

/-- Before the third digit of a quad the pads mean nothing. -/
theorem decodeFrom_early {quadPos : ℕ} (h : quadPos < 2) (left pads k : ℕ) :
    decodeFrom A quadPos left pads (List.replicate k '=') = closing quadPos 0 [] := by
  induction k with
  | zero =>
      obtain rfl | rfl : quadPos = 0 ∨ quadPos = 1 := by omega
      · rfl
      · rfl
  | succ k ih =>
      rw [List.replicate_succ, decodeFrom, if_pos rfl, if_neg (by omega)]
      exact ih

theorem decodeFrom_pads {quadPos : ℕ} (h : quadPos < 4) (left k : ℕ) :
    decodeFrom A quadPos left 0 (List.replicate k '=') = closing quadPos k [] := by
  by_cases hearly : quadPos < 2
  · rw [decodeFrom_early A hearly]
    obtain rfl | rfl : quadPos = 0 ∨ quadPos = 1 := by omega
    · rfl
    · rfl
  · obtain rfl | rfl : quadPos = 2 ∨ quadPos = 3 := by omega
    · match k with
      | 0 => rfl
      | 1 => rfl
      | k + 2 =>
          simp only [List.replicate_succ, decodeFrom, closing]
          simp
          omega
    · match k with
      | 0 => rfl
      | k + 1 =>
          simp only [List.replicate_succ, decodeFrom, closing]
          simp
          omega

/-- The automaton on a text with its pads at the end. -/
theorem decodeFrom_eq {quadPos : ℕ} (h : quadPos < 4) (left k : ℕ) {text : List Char}
    (htext : '=' ∉ text) :
    decodeFrom A quadPos left 0 (text ++ List.replicate k '=') =
      closing ((quadPos + (values A text).length) % 4) k
        (bytesFrom quadPos left (values A text)) := by
  induction text generalizing quadPos left with
  | nil =>
      have hmod : (quadPos + (values A []).length) % 4 = quadPos := Nat.mod_eq_of_lt h
      rw [hmod, List.nil_append, decodeFrom_pads A h]
      cases quadPos with
      | zero => rfl
      | succ q => rfl
  | cons c text ih =>
      have hc : c ≠ '=' := fun heq => htext (heq ▸ List.mem_cons_self)
      have hrest : '=' ∉ text := fun hmem => htext (List.mem_cons_of_mem c hmem)
      rw [List.cons_append, decodeFrom, if_neg hc]
      cases hv : A.value c with
      | none =>
          have hvalues : values A (c :: text) = values A text := List.filterMap_cons_none hv
          rw [hvalues]
          exact ih h left hrest
      | some v =>
          have hvalues : values A (c :: text) = v :: values A text := List.filterMap_cons_some hv
          rw [hvalues, List.length_cons]
          -- one digit more, wherever the quad stands
          obtain rfl | rfl | rfl | rfl :
              quadPos = 0 ∨ quadPos = 1 ∨ quadPos = 2 ∨ quadPos = 3 := by omega
          · rw [show 0 + ((values A text).length + 1) = 1 + (values A text).length by omega]
            exact ih (by decide) v hrest
          · rw [show 1 + ((values A text).length + 1) = 2 + (values A text).length by omega]
            exact (congrArg _ (ih (by decide) (v % 16) hrest)).trans (map_closing ..)
          · rw [show 2 + ((values A text).length + 1) = 3 + (values A text).length by omega]
            exact (congrArg _ (ih (by decide) (v % 4) hrest)).trans (map_closing ..)
          · rw [show (3 + ((values A text).length + 1)) % 4 =
              (0 + (values A text).length) % 4 by omega]
            exact (congrArg _ (ih (by decide) 0 hrest)).trans (map_closing ..)

/-- Eight bits of each six make a byte. -/
theorem length_bytesFrom {quadPos : ℕ} (h : quadPos < 4) (left : ℕ) (vs : List ℕ) :
    (bytesFrom quadPos left vs).length + 3 * quadPos / 4 = 3 * (quadPos + vs.length) / 4 := by
  induction vs generalizing quadPos left with
  | nil =>
      cases quadPos with
      | zero => rfl
      | succ q => exact Nat.zero_add _
  | cons v vs ih =>
      obtain rfl | rfl | rfl | rfl :
          quadPos = 0 ∨ quadPos = 1 ∨ quadPos = 2 ∨ quadPos = 3 := by omega
      · have hrest := ih (by decide : 1 < 4) v
        simp only [bytesFrom, List.length_cons]
        omega
      · have hrest := ih (by decide : 2 < 4) (v % 16)
        simp only [bytesFrom, List.length_cons]
        omega
      · have hrest := ih (by decide : 3 < 4) (v % 4)
        simp only [bytesFrom, List.length_cons]
        omega
      · have hrest := ih (by decide : 0 < 4) 0
        simp only [bytesFrom, List.length_cons]
        omega

/-- What a text with its pads at the end decodes to. -/
theorem decode_eq (k : ℕ) {text : List Char} (htext : '=' ∉ text) :
    decode A (text ++ List.replicate k '=') =
      closing ((values A text).length % 4) k (bytesFrom 0 0 (values A text)) := by
  rw [decode, decodeFrom_eq A (by decide) 0 k htext, Nat.zero_add]

end Decoding

/-! ### Round trips -/

section Encoding

variable (A : Alphabet)

theorem char_ne_pad {n : ℕ} (h : n < 64) : A.char n ≠ '=' := by
  intro heq
  have hvalue := A.value_char n h
  rw [heq, A.value_pad] at hvalue
  cases hvalue

/-- The values of the digits of the bytes. -/
def sextets : List UInt8 → List ℕ
  | [] => []
  | [a] => [a.toNat / 4, a.toNat % 4 * 16]
  | [a, b] => [a.toNat / 4, a.toNat % 4 * 16 + b.toNat / 16, b.toNat % 16 * 4]
  | a :: b :: c :: bytes =>
      a.toNat / 4 :: (a.toNat % 4 * 16 + b.toNat / 16) :: (b.toNat % 16 * 4 + c.toNat / 64) ::
        c.toNat % 64 :: sextets bytes

theorem digits_eq_map (bytes : List UInt8) : digits A bytes = (sextets bytes).map A.char := by
  induction bytes using sextets.induct with
  | case1 => rfl
  | case2 a => rfl
  | case3 a b => rfl
  | case4 a b c bytes ih => simp only [digits, sextets, List.map_cons, ih]

theorem sextets_lt (bytes : List UInt8) : ∀ v ∈ sextets bytes, v < 64 := by
  induction bytes using sextets.induct with
  | case1 => exact fun v hv => nomatch hv
  | case2 a =>
      have ha := a.toNat_lt
      simp only [sextets, List.forall_mem_cons]
      exact ⟨by omega, by omega, fun v hv => nomatch hv⟩
  | case3 a b =>
      have ha := a.toNat_lt
      have hb := b.toNat_lt
      simp only [sextets, List.forall_mem_cons]
      exact ⟨by omega, by omega, by omega, fun v hv => nomatch hv⟩
  | case4 a b c bytes ih =>
      have ha := a.toNat_lt
      have hb := b.toNat_lt
      have hc := c.toNat_lt
      simp only [sextets, List.forall_mem_cons]
      exact ⟨by omega, by omega, by omega, by omega, ih⟩

theorem length_sextets (bytes : List UInt8) :
    (sextets bytes).length = (4 * bytes.length + 2) / 3 := by
  induction bytes using sextets.induct with
  | case1 => rfl
  | case2 a => simp [sextets]
  | case3 a b => simp [sextets]
  | case4 a b c bytes ih =>
      simp only [sextets, List.length_cons, ih]
      omega

theorem ofNat_eq {n : ℕ} {a : UInt8} (h : n = a.toNat) : UInt8.ofNat n = a := by
  rw [h]
  exact UInt8.ofNat_toNat

theorem bytesFrom_sextets (bytes : List UInt8) : bytesFrom 0 0 (sextets bytes) = bytes := by
  induction bytes using sextets.induct with
  | case1 => rfl
  | case2 a =>
      have ha := a.toNat_lt
      simp only [sextets, bytesFrom]
      rw [ofNat_eq (a := a) (by omega)]
  | case3 a b =>
      have ha := a.toNat_lt
      have hb := b.toNat_lt
      simp only [sextets, bytesFrom]
      rw [ofNat_eq (a := a) (by omega), ofNat_eq (a := b) (by omega)]
  | case4 a b c bytes ih =>
      have ha := a.toNat_lt
      have hb := b.toNat_lt
      have hc := c.toNat_lt
      simp only [sextets, bytesFrom]
      rw [ih, ofNat_eq (a := a) (by omega), ofNat_eq (a := b) (by omega),
        ofNat_eq (a := c) (by omega)]

theorem values_map_char {vs : List ℕ} (h : ∀ v ∈ vs, v < 64) : values A (vs.map A.char) = vs := by
  induction vs with
  | nil => rfl
  | cons v vs ih =>
      rw [List.forall_mem_cons] at h
      rw [List.map_cons, values, List.filterMap_cons_some (A.value_char v h.1)]
      exact congrArg (v :: ·) (ih h.2)

theorem values_digits (bytes : List UInt8) : values A (digits A bytes) = sextets bytes := by
  rw [digits_eq_map]
  exact values_map_char A (sextets_lt bytes)

theorem pad_notMem_digits (bytes : List UInt8) : '=' ∉ digits A bytes := by
  rw [digits_eq_map]
  intro hmem
  obtain ⟨v, hv, heq⟩ := List.mem_map.mp hmem
  exact char_ne_pad A (sextets_lt bytes v hv) heq

theorem length_digits (bytes : List UInt8) :
    (digits A bytes).length = (4 * bytes.length + 2) / 3 := by
  rw [digits_eq_map, List.length_map, length_sextets]

/-- The digits with enough pads give the bytes back. -/
theorem decode_digits {bytes : List UInt8} {k : ℕ} (h : (3 - bytes.length % 3) % 3 ≤ k) :
    decode A (digits A bytes ++ List.replicate k '=') = .ok bytes := by
  rw [decode_eq A k (pad_notMem_digits A bytes), values_digits, bytesFrom_sextets, length_sextets]
  unfold closing
  split
  · rfl
  · have hlast : bytes.length % 3 = 1 ∨ bytes.length % 3 = 2 := by omega
    rw [if_neg (by omega), if_pos]
    rcases hlast with hone | htwo
    · rw [hone] at h
      omega
    · rw [htwo] at h
      omega

end Encoding

end TranscriptionApi.Lib.Base64
