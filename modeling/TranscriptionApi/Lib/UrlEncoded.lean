import Mathlib.Data.List.Basic
import TranscriptionApi.Lib.Hex

/-!
`application/x-www-form-urlencoded`: a list of pairs of byte strings as one line
of ASCII, and back.

A byte of the plain set stands for itself, a space is `+` and every other byte is
`%` with two digits. Neither `&` nor `=` is plain, so the separators of the line
are the ones that were put there; neither is `#` nor `?`, so the line can follow
a `?` in a URL.
-/

namespace TranscriptionApi.Lib.UrlEncoded

/-- The characters that the format or a URL give a meaning. -/
def reserved : List Char := ['%', '+', '&', '=', '?', '#', ' ']

/-- The bytes that stand for themselves. -/
structure Plain where
  mem : UInt8 → Bool
  ascii : ∀ b, mem b = true → b.toNat < 128
  clear : ∀ b, mem b = true → Char.ofNat b.toNat ∉ reserved

def escape (b : UInt8) : List Char :=
  ['%', hexChar 'A' (b.toNat / 16), hexChar 'A' (b.toNat % 16)]

section Encode

variable (plain : Plain)

def quoteByte (b : UInt8) : List Char :=
  if plain.mem b then [Char.ofNat b.toNat] else if b = 32 then ['+'] else escape b

def quote (bytes : List UInt8) : List Char := bytes.flatMap (quoteByte plain)

def field (p : List UInt8 × List UInt8) : List Char := quote plain p.1 ++ '=' :: quote plain p.2

def encode (ps : List (List UInt8 × List UInt8)) : List Char :=
  ['&'].intercalate (ps.map (field plain))

end Encode

/-- The bytes that a text stands for; a `%` without two digits stands for itself. -/
def unquote : List Char → List UInt8
  | [] => []
  | '%' :: a :: b :: cs =>
      match hexValue a, hexValue b with
      | some x, some y => UInt8.ofNat (16 * x + y) :: unquote cs
      | _, _ => 37 :: unquote (a :: b :: cs)
  | c :: cs => (if c = '+' then [32] else String.utf8EncodeChar c) ++ unquote cs

/-- A field split at its first `=`; without one it is a name alone. -/
def readField (s : List Char) : List UInt8 × List UInt8 :=
  (unquote (s.takeWhile (· ≠ '=')), unquote ((s.dropWhile (· ≠ '=')).drop 1))

/-- The pairs of a line. -/
def decode (s : List Char) : List (List UInt8 × List UInt8) :=
  ((s.splitOn '&').filter (!·.isEmpty)).map readField

/-! ### One byte -/

theorem hexChar_notMem {n : ℕ} (h : n < 16) : hexChar 'A' n ∉ reserved := by
  have hall : ∀ n : Fin 16, hexChar 'A' n ∉ reserved := by decide
  exact hall ⟨n, h⟩

theorem unquote_escape (b : UInt8) (cs : List Char) :
    unquote (escape b ++ cs) = b :: unquote cs := by
  have hb : b.toNat < 256 := b.toNat_lt
  simp only [escape, List.cons_append, List.nil_append, unquote,
    hexValue_hexChar (.inr rfl) (show b.toNat / 16 < 16 by omega),
    hexValue_hexChar (.inr rfl) (show b.toNat % 16 < 16 by omega)]
  rw [Nat.div_add_mod, UInt8.ofNat_toNat]

theorem unquote_cons {c : Char} (hc : c ≠ '%') (cs : List Char) :
    unquote (c :: cs) = (if c = '+' then [32] else String.utf8EncodeChar c) ++ unquote cs := by
  conv_lhs => unfold unquote
  split
  · rename_i heq
    cases heq
  · rename_i heq
    cases heq
    exact absurd rfl hc
  · rename_i heq
    cases heq
    rfl

variable {plain : Plain}

/-- A plain byte is one ASCII character. -/
theorem utf8EncodeChar_plain {b : UInt8} (h : plain.mem b = true) :
    String.utf8EncodeChar (Char.ofNat b.toNat) = [b] := by
  have hb := plain.ascii b h
  have hval : (Char.ofNat b.toNat).val.toNat = b.toNat := by
    have hvalid : b.toNat.isValidChar := Or.inl (by omega)
    rw [Char.ofNat, dif_pos hvalid]
    rfl
  unfold String.utf8EncodeChar
  simp only [hval]
  rw [if_pos (by omega), UInt8.ofNat_toNat]

theorem unquote_quoteByte (b : UInt8) (cs : List Char) :
    unquote (quoteByte plain b ++ cs) = b :: unquote cs := by
  unfold quoteByte
  split
  · rename_i hplain
    have hclear := plain.clear b hplain
    have hpercent : Char.ofNat b.toNat ≠ '%' := fun h => hclear (h ▸ by decide)
    have hplus : Char.ofNat b.toNat ≠ '+' := fun h => hclear (h ▸ by decide)
    rw [List.singleton_append, unquote_cons hpercent, if_neg hplus, utf8EncodeChar_plain hplain]
    rfl
  · split
    · rename_i hspace
      rw [List.singleton_append, unquote_cons (by decide), if_pos rfl, hspace]
      rfl
    · exact unquote_escape b cs

/-- What is written is clear of the separators. -/
theorem quoteByte_clear {b : UInt8} {c : Char} (hc : c ∈ quoteByte plain b) :
    c = '%' ∨ c = '+' ∨ c ∉ reserved := by
  have hb : b.toNat < 256 := b.toNat_lt
  unfold quoteByte at hc
  split at hc
  · rename_i hplain
    rw [List.mem_singleton] at hc
    exact .inr (.inr (hc ▸ plain.clear b hplain))
  · split at hc
    · exact .inr (.inl (List.mem_singleton.mp hc))
    · simp only [escape, List.mem_cons, List.not_mem_nil, or_false] at hc
      rcases hc with rfl | rfl | rfl
      · exact .inl rfl
      · exact .inr (.inr (hexChar_notMem (by omega)))
      · exact .inr (.inr (hexChar_notMem (by omega)))

/-! ### The line -/

theorem unquote_quote (bytes : List UInt8) : unquote (quote plain bytes) = bytes := by
  induction bytes with
  | nil => rfl
  | cons b bytes ih =>
      show unquote (quoteByte plain b ++ quote plain bytes) = _
      rw [unquote_quoteByte, ih]

theorem notMem_quote {d : Char} (hd : d ∈ reserved) (hpercent : d ≠ '%') (hplus : d ≠ '+')
    (bytes : List UInt8) : d ∉ quote plain bytes := by
  intro hmem
  obtain ⟨b, -, hb⟩ := List.mem_flatMap.mp hmem
  rcases quoteByte_clear hb with rfl | rfl | hclear
  · exact hpercent rfl
  · exact hplus rfl
  · exact hclear hd

theorem readField_field (p : List UInt8 × List UInt8) : readField (field plain p) = p := by
  have hname : ∀ c ∈ quote plain p.1, (decide (c ≠ '=')) = true := by
    intro c hc
    rw [decide_eq_true_eq]
    rintro rfl
    exact notMem_quote (by decide) (by decide) (by decide) p.1 hc
  unfold readField field
  rw [List.takeWhile_append_of_pos hname, List.dropWhile_append_of_pos hname]
  simp [unquote_quote]

/-- The line is clear of what ends it in a URL. -/
theorem notMem_encode {d : Char} (hd : d ∈ reserved) (hpercent : d ≠ '%') (hplus : d ≠ '+')
    (hamp : d ≠ '&') (heq : d ≠ '=') (ps : List (List UInt8 × List UInt8)) :
    d ∉ encode plain ps := by
  have hfield (p : List UInt8 × List UInt8) : d ∉ field plain p := by
    simp only [field, List.mem_append, List.mem_cons, not_or]
    exact ⟨notMem_quote hd hpercent hplus _, heq, notMem_quote hd hpercent hplus _⟩
  induction ps with
  | nil => exact List.not_mem_nil
  | cons p ps ih =>
      cases ps with
      | nil =>
          rw [encode, List.map_singleton, List.intercalate_singleton]
          exact hfield p
      | cons q ps =>
          rw [encode, List.map_cons, List.map_cons, List.intercalate_cons_cons]
          simp only [List.mem_append, List.mem_singleton, not_or]
          exact ⟨⟨hfield p, hamp⟩, ih⟩

/-- What was encoded is what is read. -/
theorem decode_encode (ps : List (List UInt8 × List UInt8)) : decode (encode plain ps) = ps := by
  unfold decode encode
  cases ps with
  | nil => rfl
  | cons p ps =>
      have hclear : ∀ l ∈ (p :: ps).map (field plain), '&' ∉ l := by
        intro l hl
        obtain ⟨q, -, rfl⟩ := List.mem_map.mp hl
        simp only [field, List.mem_append, List.mem_cons, not_or]
        exact ⟨notMem_quote (by decide) (by decide) (by decide) _, by decide,
          notMem_quote (by decide) (by decide) (by decide) _⟩
      rw [List.splitOn_intercalate '&' hclear (by simp), List.filter_map, List.map_map]
      have hkept : (p :: ps).filter ((!·.isEmpty) ∘ field plain) = p :: ps := by
        refine List.filter_eq_self.mpr fun q _ => ?_
        simp [field]
      rw [hkept]
      exact (List.map_congr_left fun q _ => readField_field q).trans (List.map_id _)

end TranscriptionApi.Lib.UrlEncoded
