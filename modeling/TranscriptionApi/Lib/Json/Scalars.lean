import Mathlib.Data.Nat.Digits.Lemmas
import TranscriptionApi.Lib.Json.Dumps
import TranscriptionApi.Lib.Json.Loads

/-!
The printed form of a number or a string is scanned to its end and read back.

The text behind it may be anything that does not continue a number. For numbers
all of this is about literals, for strings it is one fact about each escape. At
the end stands the interpreter whose floats are integers, for texts to be
evaluated with.
-/

namespace TranscriptionApi.Lib.Json

/-! ### Number literals -/

/-- A text that does not continue a number. -/
def Stops (s : List Char) : Prop :=
  ∀ c, s.head? = some c → isDigit c = false ∧ c ≠ '.' ∧ c ≠ 'e' ∧ c ≠ 'E'

/-- A text that does not continue a row of digits. -/
def NoDigit (s : List Char) : Prop := ∀ c, s.head? = some c → isDigit c = false

theorem Stops.noDigit {s : List Char} (h : Stops s) : NoDigit s := fun c hc => (h c hc).1

theorem stops_cons {c : Char} {s : List Char}
    (h : isDigit c = false ∧ c ≠ '.' ∧ c ≠ 'e' ∧ c ≠ 'E') :
    Stops (c :: s) := by
  intro c' hc'
  rw [List.head?_cons] at hc'
  exact Option.some.inj hc' ▸ h

theorem takeWhile_digits {ds s : List Char} (hds : ∀ c ∈ ds, isDigit c = true) (hs : NoDigit s) :
    (ds ++ s).takeWhile isDigit = ds := by
  rw [List.takeWhile_append_of_pos hds]
  cases s with
  | nil => exact List.append_nil ds
  | cons c s => rw [List.takeWhile_cons_of_neg (by rw [hs c rfl]; decide), List.append_nil]

theorem dropWhile_digits {ds s : List Char} (hds : ∀ c ∈ ds, isDigit c = true) (hs : NoDigit s) :
    (ds ++ s).dropWhile isDigit = s := by
  rw [List.dropWhile_append_of_pos hds]
  cases s with
  | nil => rfl
  | cons c s => rw [List.dropWhile_cons_of_neg (by rw [hs c rfl]; decide)]

namespace Literal

variable {l : Literal} {s : List Char}

theorem Digits.exists_cons {ds : List Char} (h : Digits ds) :
    ∃ c t, ds = c :: t ∧ isDigit c = true := by
  obtain ⟨c, t, rfl⟩ := List.exists_cons_of_ne_nil h.1
  exact ⟨c, t, rfl, h.2 c List.mem_cons_self⟩

theorem Valid.whole_cons (h : l.Valid) : ∃ c t, l.whole = c :: t ∧ isDigit c = true := by
  rcases h.whole with hw | ⟨hd, -⟩
  · exact ⟨'0', [], hw, rfl⟩
  · exact hd.exists_cons

theorem Valid.exponent_append (h : l.Valid) (hs : Stops s) :
    matchExponent (l.exponent ++ s) = (l.exponent, s) := by
  rcases h.exponent with he | ⟨e, sign, ds, he, hchar, hsign, hds⟩
  · rw [he, List.nil_append]
    cases s with
    | nil => rfl
    | cons c s =>
        obtain ⟨-, -, hlower, hupper⟩ := hs c rfl
        simp [matchExponent, hlower, hupper]
  · obtain ⟨c, t, hct, hc⟩ := hds.exists_cons
    have hmatch : matchSign (sign ++ ds ++ s) = (sign, ds ++ s) := by
      rcases hsign with rfl | rfl | rfl
      · have hminus : c ≠ '-' := by
          rintro rfl
          cases hc
        have hplus : c ≠ '+' := by
          rintro rfl
          cases hc
        rw [List.nil_append, hct, List.cons_append, matchSign]
        · exact fun _ h => hminus (List.cons.inj h).1
        · exact fun _ h => hplus (List.cons.inj h).1
      · rfl
      · rfl
    have hnonempty : (ds.isEmpty) = false := by
      rw [hct]
      rfl
    rw [he, List.append_assoc, List.cons_append, ← List.append_assoc]
    simp only [matchExponent, hmatch, takeWhile_digits hds.2 hs.noDigit,
      dropWhile_digits hds.2 hs.noDigit, hchar, hnonempty, true_and, if_true]

theorem Valid.noDigit_exponent (h : l.Valid) (hs : Stops s) : NoDigit (l.exponent ++ s) := by
  rcases h.exponent with he | ⟨e, sign, ds, he, hchar, -, -⟩
  · rw [he]
    exact hs.noDigit
  · intro c hc
    rw [he, List.append_assoc, List.cons_append, List.head?_cons] at hc
    obtain rfl := Option.some.inj hc
    rcases hchar with rfl | rfl
    · rfl
    · rfl

theorem matchFraction_of_ne {s : List Char} (h : s.head? ≠ some '.') :
    matchFraction s = ([], s) := by
  unfold matchFraction
  split
  · exact absurd rfl h
  · rfl

theorem Valid.fraction_append (h : l.Valid) (hs : Stops s) :
    matchFraction (l.fraction ++ (l.exponent ++ s)) = (l.fraction, l.exponent ++ s) := by
  have hnodigit := h.noDigit_exponent hs
  rcases h.fraction with hf | ⟨ds, hf, hds⟩
  · rw [hf, List.nil_append, matchFraction_of_ne]
    rcases h.exponent with he | ⟨e, sign, ds, he, hchar, -, -⟩
    · rw [he]
      exact fun hdot => (hs '.' hdot).2.1 rfl
    · rw [he, List.append_assoc, List.cons_append, List.head?_cons]
      rintro hdot
      obtain rfl := Option.some.inj hdot
      rcases hchar with hchar | hchar
      · cases hchar
      · cases hchar
  · have hnonempty : ds.isEmpty = false := by
      obtain ⟨c, t, hct, -⟩ := hds.exists_cons
      rw [hct]
      rfl
    rw [hf, List.cons_append]
    simp only [matchFraction, takeWhile_digits hds.2 hnodigit, dropWhile_digits hds.2 hnodigit,
      hnonempty]
    rfl

theorem Valid.noDigit_fraction (h : l.Valid) (hs : Stops s) :
    NoDigit (l.fraction ++ (l.exponent ++ s)) := by
  rcases h.fraction with hf | ⟨ds, hf, -⟩
  · rw [hf]
    exact h.noDigit_exponent hs
  · intro c hc
    rw [hf, List.cons_append, List.head?_cons] at hc
    obtain rfl := Option.some.inj hc
    rfl

theorem Valid.whole_append (h : l.Valid) {t : List Char} (ht : NoDigit t) :
    matchWhole (l.whole ++ t) = some (l.whole, t) := by
  rcases h.whole with hw | ⟨hds, hzero⟩
  · rw [hw]
    rfl
  · obtain ⟨c, ds, hcons, hc⟩ := hds.exists_cons
    have hc0 : c ≠ '0' := by
      rintro rfl
      exact hzero (by rw [hcons, List.head?_cons])
    have htake := takeWhile_digits hds.2 ht
    have hdrop := dropWhile_digits hds.2 ht
    rw [hcons, List.cons_append] at htake hdrop ⊢
    rw [matchWhole, if_neg hc0, if_pos hc, htake, hdrop]

/-- The scanner reads a literal up to its end. -/
theorem Valid.matchNumber_text (h : l.Valid) (hs : Stops s) :
    matchNumber (l.text ++ s) = some (l, s) := by
  have htext : l.text ++ s = (if l.negative then ['-'] else []) ++
      (l.whole ++ (l.fraction ++ (l.exponent ++ s))) := by
    simp only [text, List.append_assoc]
  obtain ⟨c, t, hwhole, hc⟩ := h.whole_cons
  have hhead : (l.text ++ s).head? = some '-' ↔ l.negative = true := by
    rw [htext]
    cases l.negative with
    | true => simp
    | false =>
        have hminus : c ≠ '-' := by
          rintro rfl
          cases hc
        simp [hwhole, hminus]
  have hrest : (if (l.text ++ s).head? = some '-' then (l.text ++ s).drop 1 else l.text ++ s) =
      l.whole ++ (l.fraction ++ (l.exponent ++ s)) := by
    simp only [hhead]
    rw [htext]
    cases l.negative with
    | true => rfl
    | false => rfl
  have hmatch := h.whole_append (h.noDigit_fraction hs)
  rw [← hrest] at hmatch
  have hnegative : decide ((l.text ++ s).head? = some '-') = l.negative := by
    rw [Bool.eq_iff_iff, decide_eq_true_eq, hhead]
  simp only [matchNumber, hmatch, Option.map_some, h.fraction_append hs, h.exponent_append hs,
    hnegative]

/-- A literal starts with a digit, or with a minus sign and a digit. -/
theorem Valid.text_cons (h : l.Valid) : (∃ c t, l.text = c :: t ∧ isDigit c = true) ∨
    ∃ c t, l.text = '-' :: c :: t ∧ isDigit c = true := by
  obtain ⟨c, t, hwhole, hc⟩ := h.whole_cons
  cases hneg : l.negative with
  | true =>
      refine .inr ⟨c, t ++ l.fraction ++ l.exponent, ?_, hc⟩
      simp [text, hneg, hwhole]
  | false =>
      refine .inl ⟨c, t ++ l.fraction ++ l.exponent, ?_, hc⟩
      simp [text, hneg, hwhole]

end Literal

theorem isDigit_iff {c : Char} : isDigit c = true ↔ 48 ≤ c.toNat ∧ c.toNat ≤ 57 := by
  simp [isDigit]

theorem ne_of_isDigit {c d : Char} (hc : isDigit c = true) (hd : isDigit d = false) : c ≠ d := by
  rintro rfl
  rw [hc] at hd
  cases hd

/-! ### Integers -/

theorem toNat_ofNat {n : ℕ} (h : n < 0xd800) : (Char.ofNat n).toNat = n := by
  rw [Char.ofNat, dif_pos (Or.inl h)]
  rfl

theorem toNat_digitChar {d : ℕ} (h : d < 10) : (digitChar d).toNat = 48 + d :=
  toNat_ofNat (by omega)

theorem digits_wholeText (n : ℕ) : Literal.Digits (wholeText n) := by
  unfold wholeText
  split
  · exact ⟨List.cons_ne_nil _ _, fun c hc => by rw [List.mem_singleton.mp hc]; rfl⟩
  · rename_i hn
    have hne : Nat.digits 10 n ≠ [] := Nat.digits_ne_nil_iff_ne_zero.mpr hn
    refine ⟨by simpa using hne, fun c hc => ?_⟩
    obtain ⟨d, hd, rfl⟩ := List.mem_map.mp hc
    have hlt := Nat.digits_lt_base (by decide) (List.mem_reverse.mp hd)
    rw [isDigit_iff, toNat_digitChar hlt]
    omega

theorem valid_intLiteral (n : ℤ) : (intLiteral n).Valid := by
  refine ⟨?_, .inl rfl, .inl rfl⟩
  show wholeText n.natAbs = ['0'] ∨ Literal.Digits (wholeText n.natAbs) ∧ _
  by_cases hn : n.natAbs = 0
  · exact .inl (by rw [hn]; rfl)
  · refine .inr ⟨digits_wholeText _, ?_⟩
    have hne : Nat.digits 10 n.natAbs ≠ [] := Nat.digits_ne_nil_iff_ne_zero.mpr hn
    -- the most significant digit is not zero
    have hlast := Nat.getLast_digit_ne_zero 10 hn
    have hlt := Nat.digits_lt_base (by decide) (List.getLast_mem hne)
    show (wholeText n.natAbs).head? ≠ some '0'
    rw [wholeText, if_neg hn, List.head?_map, List.head?_reverse, List.getLast?_eq_some_getLast hne,
      Option.map_some]
    intro hzero
    have hnat := congrArg Char.toNat (Option.some.inj hzero)
    rw [toNat_digitChar hlt] at hnat
    have h48 : ('0' : Char).toNat = 48 := rfl
    omega

theorem ofDigits_wholeText (n : ℕ) :
    Nat.ofDigits 10 ((wholeText n).reverse.map fun c => c.toNat - 48) = n := by
  unfold wholeText
  split
  · rename_i hn
    rw [hn]
    rfl
  · rw [← List.map_reverse, List.reverse_reverse, List.map_map]
    have hmap : ((Nat.digits 10 n).map ((fun c => c.toNat - 48) ∘ digitChar)) =
        Nat.digits 10 n := by
      refine (List.map_congr_left fun d hd => ?_).trans (List.map_id _)
      have hlt := Nat.digits_lt_base (by decide) hd
      rw [Function.comp_apply, toNat_digitChar hlt]
      exact Nat.add_sub_cancel_left ..
    rw [hmap, Nat.ofDigits_digits]

theorem intValue_intLiteral (n : ℤ) : intValue (intLiteral n) = n := by
  have hwhole : (intLiteral n).whole = wholeText n.natAbs := rfl
  have hnegative : (intLiteral n).negative = decide (n < 0) := rfl
  simp only [intValue, hwhole, hnegative, ofDigits_wholeText, decide_eq_true_eq]
  split
  · omega
  · omega

/-! ### Strings -/

theorem hexUnit_unicodeEscape (u : UInt16) :
    hexUnit (hexChar 'a' (u.toNat / 4096)) (hexChar 'a' (u.toNat / 256 % 16))
      (hexChar 'a' (u.toNat / 16 % 16)) (hexChar 'a' (u.toNat % 16)) = some u := by
  have hu : u.toNat < 65536 := u.toNat_lt
  simp only [hexUnit, hexValue_hexChar (.inl rfl) (by omega : u.toNat / 4096 < 16),
    hexValue_hexChar (.inl rfl) (by omega : u.toNat / 256 % 16 < 16),
    hexValue_hexChar (.inl rfl) (by omega : u.toNat / 16 % 16 < 16),
    hexValue_hexChar (.inl rfl) (by omega : u.toNat % 16 < 16), Option.bind_eq_bind,
    Option.bind_some, Option.pure_def, Option.some.injEq]
  have hsum : 4096 * (u.toNat / 4096) + 256 * (u.toNat / 256 % 16) + 16 * (u.toNat / 16 % 16) +
      u.toNat % 16 = u.toNat := by omega
  rw [hsum, UInt16.ofNat_toNat]

/-- The scanner reads an escaped unit as the unit. -/
theorem scanString_escapeUnit (u : UInt16) (s : List Char) :
    scanString (escapeUnit u ++ s) = (scanString s).map fun r => (u :: r.1, r.2) := by
  have heq {n : ℕ} (hn : n < 65536) (h : u.toNat = n) : u = UInt16.ofNat n := by
    rw [← h, UInt16.ofNat_toNat]
  simp only [escapeUnit]
  iterate 7
    split
    · rename_i h
      rw [heq (by decide) h]
      rfl
  split
  · rename_i hquote hslash _ _ _ _ _ hprintable
    have hc : (Char.ofNat u.toNat).toNat = u.toNat := toNat_ofNat (by omega)
    have hne {d : Char} (h : u.toNat ≠ d.toNat) : Char.ofNat u.toNat ≠ d :=
      fun heq => h (hc.symm.trans (congrArg Char.toNat heq))
    have hunits : utf16 (Char.ofNat u.toNat) = [u] := by
      rw [utf16, hc, if_pos (by omega), UInt16.ofNat_toNat]
    have hplain : ¬((Char.ofNat u.toNat).toNat < 32 ∨ Char.ofNat u.toNat = '\\') := by
      rw [hc]
      exact not_or.mpr ⟨by omega, hne hslash⟩
    rw [List.singleton_append, scanString]
    · rw [if_neg hplain, hunits]
      rfl
    · exact hne hquote
    · exact fun _ _ _ _ _ h => absurd h (hne hslash)
    · exact fun _ _ h => absurd h (hne hslash)
  · rw [unicodeEscape]
    show scanString ('\\' :: 'u' :: _ :: _ :: _ :: _ :: s) = _
    rw [scanString, hexUnit_unicodeEscape]
    rfl

theorem scanString_stringText (str : Str) (s : List Char) :
    scanString (str.flatMap escapeUnit ++ '"' :: s) = some (str, s) := by
  induction str with
  | nil => rfl
  | cons u str ih =>
      rw [List.flatMap_cons, List.append_assoc, scanString_escapeUnit, ih, Option.map_some]

theorem expectString_stringText (str : Str) (s : List Char) :
    expectString (str.flatMap escapeUnit ++ '"' :: s) = .ok (str, s) := by
  rw [expectString, scanString_stringText]

/-! ### Scalars -/

section Scalars

variable {φ : Type}

/-- A text that starts like a number is no constant. -/
theorem scanConstant_literal {l : Literal} (h : l.Valid) (s : List Char) :
    scanConstant (l.text ++ s) = (none : Option (Value φ × List Char)) := by
  have hnone : ((constants : List (List Char × Value φ)).find?
      fun c => c.1.isPrefixOf (l.text ++ s)) = none := by
    rw [List.find?_eq_none]
    intro c hc
    simp only [constants, List.mem_cons, List.not_mem_nil, or_false] at hc
    rcases h.text_cons with ⟨d, t, htext, hd⟩ | ⟨d, t, htext, hd⟩
    · have hne {e : Char} (he : isDigit e = false) : e ≠ d := (ne_of_isDigit hd he).symm
      rw [htext]
      rcases hc with rfl | rfl | rfl | rfl | rfl | rfl
      all_goals simp only [List.cons_append, List.isPrefixOf_cons_cons, Bool.and_eq_true,
        beq_iff_eq, not_and]
      all_goals exact fun h => absurd h (hne rfl)
    · rw [htext]
      rcases hc with rfl | rfl | rfl | rfl | rfl | rfl
      all_goals simp [List.isPrefixOf]
      rintro rfl
      cases hd
  rw [scanConstant, hnone, Option.map_none]

variable (F : Floats φ) (limits : Limits)

theorem scanScalar_int {n : ℤ} (h : (intLiteral n).whole.length ≤ limits.digits)
    {s : List Char} (hs : Stops s) :
    scanScalar F limits ((intLiteral n).text ++ s) = .ok (.int n, s) := by
  have hvalid := valid_intLiteral n
  have hfloat : (intLiteral n).isFloat = false := rfl
  rw [scanScalar, scanConstant_literal hvalid, scanNumber, hvalid.matchNumber_text hs]
  simp only [hfloat, h, intValue_intLiteral, if_true]
  rfl

theorem scanScalar_number (x : Number φ) {s : List Char} (hs : Stops s) :
    scanScalar F limits (numberText F x ++ s) = .ok (.float x, s) := by
  cases x with
  | finite x =>
      obtain ⟨l, hvalid, hfloat, htext⟩ := F.repr_literal x
      rw [numberText, ← htext, scanScalar, scanConstant_literal hvalid, scanNumber,
        hvalid.matchNumber_text hs]
      simp only [hfloat, htext, F.read_repr, if_true]
  | nan => rfl
  | infinity => rfl
  | negInfinity => rfl

end Scalars

/-! ### Floats with an integral value -/

def wholeLiteral (n : ℤ) : Literal := { intLiteral n with fraction := ['.', '0'] }

theorem valid_wholeLiteral (n : ℤ) : (wholeLiteral n).Valid where
  whole := (valid_intLiteral n).whole
  fraction := .inr ⟨['0'], rfl, by simp, by simp [isDigit_iff]⟩
  exponent := .inl rfl

theorem matchNumber_wholeLiteral (n : ℤ) :
    matchNumber (wholeLiteral n).text = some (wholeLiteral n, []) := by
  have hmatch := (valid_wholeLiteral n).matchNumber_text (s := []) fun c hc => by cases hc
  rwa [List.append_nil] at hmatch

def wholeFloats : Floats ℤ where
  repr := fun n => (wholeLiteral n).text
  read := fun text =>
    match matchNumber text with
    | some (l, []) =>
        if l.fraction = ['.', '0'] ∧ l.exponent = [] then .finite (intValue l) else .nan
    | _ => .nan
  repr_literal := fun n => ⟨wholeLiteral n, valid_wholeLiteral n, rfl, rfl⟩
  read_repr := by
    intro n
    simp only [matchNumber_wholeLiteral]
    exact (if_pos ⟨rfl, rfl⟩).trans (congrArg Number.finite (intValue_intLiteral n))

/-- The limits a Python process starts with. -/
def defaultLimits : Limits := ⟨1000, 4300⟩

def wholeInterpreter : Interpreter ℤ := ⟨wholeFloats, defaultLimits⟩

end TranscriptionApi.Lib.Json
