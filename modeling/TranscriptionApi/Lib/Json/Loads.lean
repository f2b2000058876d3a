import Mathlib.Data.Nat.Digits.Defs
import TranscriptionApi.Lib.Hex
import TranscriptionApi.Lib.Json.Value

/-!
`json.loads` of a text, after the C scanner of the `json` module: recursive
descent, with strict strings, the constants `NaN`, `Infinity` and `-Infinity`,
and the last of several entries of one key.

What the scanner does not accept is a `JSONDecodeError`. Two failures are of
another kind: a text nested deeper than the interpreter's recursion goes, and an
integer with more digits than `int` converts. The scanner stops at the first of
them it meets.

The scanner enters a container with two calls for the one character it has
consumed, so twice the length of the text is fuel enough; `scanOnce_fuel` says
that more makes no difference.
-/

namespace TranscriptionApi.Lib.Json

inductive LoadsError where
  /-- `JSONDecodeError` -/
  | decode
  /-- `RecursionError` -/
  | recursion
  /-- the `ValueError` of a long integer -/
  | digits
  deriving DecidableEq

def isSpace (c : Char) : Bool := c = ' ' || c = '\t' || c = '\n' || c = '\r'

def skipSpace (s : List Char) : List Char := s.dropWhile isSpace

/-- The next character that is no whitespace, -/
def peek (s : List Char) : Option Char := (skipSpace s).head?

/-- and what comes after it. -/
def after (s : List Char) : List Char := (skipSpace s).drop 1

/-! ### Strings -/

/-- Four hexadecimal digits. -/
def hexUnit (a b c d : Char) : Option UInt16 := do
  let a ← hexValue a
  let b ← hexValue b
  let c ← hexValue c
  let d ← hexValue d
  return UInt16.ofNat (4096 * a + 256 * b + 16 * c + d)

/-- The character after a backslash. -/
def escapeValue (c : Char) : Option UInt16 :=
  if c = '"' then some 34
  else if c = '\\' then some 92
  else if c = '/' then some 47
  else if c = 'b' then some 8
  else if c = 'f' then some 12
  else if c = 'n' then some 10
  else if c = 'r' then some 13
  else if c = 't' then some 9
  else none

/-- `scanstring`, from behind the opening quote to behind the closing one. -/
def scanString : List Char → Option (Str × List Char)
  | [] => none
  | '"' :: s => some ([], s)
  | '\\' :: 'u' :: a :: b :: c :: d :: s =>
      (hexUnit a b c d).bind fun u => (scanString s).map fun r => (u :: r.1, r.2)
  | '\\' :: c :: s =>
      (escapeValue c).bind fun u => (scanString s).map fun r => (u :: r.1, r.2)
  | c :: s =>
      if c.toNat < 32 ∨ c = '\\' then none
      else (scanString s).map fun r => (utf16 c ++ r.1, r.2)

/-! ### Numbers and constants -/

def matchWhole : List Char → Option (List Char × List Char)
  | [] => none
  | c :: s =>
      if c = '0' then some (['0'], s)
      else if isDigit c then some ((c :: s).takeWhile isDigit, (c :: s).dropWhile isDigit)
      else none

def matchFraction (s : List Char) : List Char × List Char :=
  match s with
  | '.' :: t =>
      if (t.takeWhile isDigit).isEmpty then ([], s)
      else ('.' :: t.takeWhile isDigit, t.dropWhile isDigit)
  | _ => ([], s)

def matchSign : List Char → List Char × List Char
  | '-' :: s => (['-'], s)
  | '+' :: s => (['+'], s)
  | s => ([], s)

def matchExponent (s : List Char) : List Char × List Char :=
  match s with
  | [] => ([], s)
  | e :: t =>
      if (e = 'e' ∨ e = 'E') ∧ ((matchSign t).2.takeWhile isDigit).isEmpty = false then
        (e :: (matchSign t).1 ++ (matchSign t).2.takeWhile isDigit,
          (matchSign t).2.dropWhile isDigit)
      else ([], s)

/-- `_match_number_unicode`. -/
def matchNumber (s : List Char) : Option (Literal × List Char) :=
  let negative := s.head? = some '-'
  (matchWhole (if negative then s.drop 1 else s)).map fun whole =>
    let fraction := matchFraction whole.2
    let exponent := matchExponent fraction.2
    (⟨negative, whole.1, fraction.1, exponent.1⟩, exponent.2)

def intValue (l : Literal) : ℤ :=
  let n : ℕ := Nat.ofDigits 10 (l.whole.reverse.map fun c => c.toNat - 48)
  if l.negative then -n else n

section Scanner

variable {φ : Type} (F : Floats φ) (limits : Limits)

def constants : List (List Char × Value φ) :=
  [(['n', 'u', 'l', 'l'], .null), (['t', 'r', 'u', 'e'], .bool true),
    (['f', 'a', 'l', 's', 'e'], .bool false), (['N', 'a', 'N'], .float .nan),
    (['I', 'n', 'f', 'i', 'n', 'i', 't', 'y'], .float .infinity),
    (['-', 'I', 'n', 'f', 'i', 'n', 'i', 't', 'y'], .float .negInfinity)]

def scanConstant (s : List Char) : Option (Value φ × List Char) :=
  (constants.find? fun c => c.1.isPrefixOf s).map fun c => (c.2, s.drop c.1.length)

def scanNumber (s : List Char) : Except LoadsError (Value φ × List Char) :=
  match matchNumber s with
  | none => .error .decode
  | some (l, s) =>
      if l.isFloat then .ok (.float (F.read l.text), s)
      else if l.whole.length ≤ limits.digits then .ok (.int (intValue l), s)
      else .error .digits

/-- A constant, or else a number. -/
def scanScalar (s : List Char) : Except LoadsError (Value φ × List Char) :=
  match scanConstant s with
  | some r => .ok r
  | none => scanNumber F limits s

def expectString (s : List Char) : Except LoadsError (Str × List Char) :=
  match scanString s with
  | none => .error .decode
  | some r => .ok r

/-- A key, the colon and the whitespace around it. -/
def scanKey (s : List Char) : Except LoadsError (Str × List Char) :=
  if s.head? = some '"' then
    (expectString (s.drop 1)).bind fun r =>
      if peek r.2 = some ':' then .ok (r.1, skipSpace (after r.2)) else .error .decode
  else .error .decode

mutual

/-- `_scan_once_unicode`, `depth` containers away from the recursion limit. -/
def scanOnce : ℕ → ℕ → List Char → Except LoadsError (Value φ × List Char)
  | 0, _, _ => .error .decode
  | fuel + 1, depth, s =>
      if s.head? = some '"' then (expectString (s.drop 1)).map fun r => (.str r.1, r.2)
      else if s.head? = some '[' then
        if depth = 0 then .error .recursion
        else if peek (s.drop 1) = some ']' then .ok (.arr [], after (s.drop 1))
        else (scanItems fuel (depth - 1) (skipSpace (s.drop 1))).map fun r => (.arr r.1, r.2)
      else if s.head? = some '{' then
        if depth = 0 then .error .recursion
        else if peek (s.drop 1) = some '}' then .ok (.obj [], after (s.drop 1))
        else (scanFields fuel (depth - 1) [] (skipSpace (s.drop 1))).map fun r => (.obj r.1, r.2)
      else scanScalar F limits s

/-- `_parse_array_unicode`, at an item. -/
def scanItems : ℕ → ℕ → List Char → Except LoadsError (List (Value φ) × List Char)
  | 0, _, _ => .error .decode
  | fuel + 1, depth, s =>
      (scanOnce fuel depth s).bind fun r =>
        if peek r.2 = some ']' then .ok ([r.1], after r.2)
        else if peek r.2 = some ',' then
          (scanItems fuel depth (skipSpace (after r.2))).map fun q => (r.1 :: q.1, q.2)
        else .error .decode

/-- `_parse_object_unicode`, at a key, with the entries so far. -/
def scanFields : ℕ → ℕ → Fields φ → List Char → Except LoadsError (Fields φ × List Char)
  | 0, _, _, _ => .error .decode
  | fuel + 1, depth, d, s =>
      (scanKey s).bind fun key =>
        (scanOnce fuel depth key.2).bind fun r =>
          if peek r.2 = some '}' then .ok (d.setItem key.1 r.1, after r.2)
          else if peek r.2 = some ',' then
            scanFields fuel depth (d.setItem key.1 r.1) (skipSpace (after r.2))
          else .error .decode

end

/-- `json.loads` of a `str`. -/
def loads (s : List Char) : Except LoadsError (Value φ) :=
  if s.head? = some '\ufeff' then .error .decode
  else
    match scanOnce F limits (2 * s.length + 1) limits.nesting (skipSpace s) with
    | .error e => .error e
    | .ok (v, s) => if (skipSpace s).isEmpty then .ok v else .error .decode

/-! ### Consumption -/

theorem length_dropWhile (p : Char → Bool) (s : List Char) : (s.dropWhile p).length ≤ s.length :=
  (List.dropWhile_suffix p).length_le

theorem length_skipSpace (s : List Char) : (skipSpace s).length ≤ s.length :=
  length_dropWhile isSpace s

theorem length_scanString {s t : List Char} {str : Str} (h : scanString s = some (str, t)) :
    t.length < s.length := by
  fun_induction scanString s generalizing str t with
  | case1 => cases h
  | case2 s =>
      cases h
      exact Nat.lt_succ_self _
  | case3 a b c d s ih =>
      obtain ⟨u, -, h⟩ := Option.bind_eq_some_iff.mp h
      obtain ⟨r, hr, heq⟩ := Option.map_eq_some_iff.mp h
      cases heq
      have := ih hr
      simp only [List.length_cons]
      omega
  | case4 c s hc ih =>
      obtain ⟨u, -, h⟩ := Option.bind_eq_some_iff.mp h
      obtain ⟨r, hr, heq⟩ := Option.map_eq_some_iff.mp h
      cases heq
      have := ih hr
      simp only [List.length_cons]
      omega
  | case5 c s => cases h
  | case6 c s hquote hunicode hescape hc ih =>
      obtain ⟨r, hr, heq⟩ := Option.map_eq_some_iff.mp h
      cases heq
      have := ih hr
      simp only [List.length_cons]
      omega

theorem length_matchWhole {s t ds : List Char} (h : matchWhole s = some (ds, t)) :
    t.length < s.length := by
  cases s with
  | nil => cases h
  | cons c s =>
      simp only [matchWhole] at h
      split at h
      · cases h
        exact Nat.lt_succ_self _
      · split at h
        · rename_i hdigit
          cases h
          rw [List.dropWhile_cons_of_pos hdigit]
          exact Nat.lt_succ_of_le (length_dropWhile ..)
        · cases h

theorem length_matchFraction (s : List Char) : (matchFraction s).2.length ≤ s.length := by
  unfold matchFraction
  split
  · split
    · exact Nat.le_refl _
    · exact Nat.le_succ_of_le (length_dropWhile ..)
  · exact Nat.le_refl _

theorem length_matchSign (s : List Char) : (matchSign s).2.length ≤ s.length := by
  unfold matchSign
  split
  · exact Nat.le_succ _
  · exact Nat.le_succ _
  · exact Nat.le_refl _

theorem length_matchExponent (s : List Char) : (matchExponent s).2.length ≤ s.length := by
  unfold matchExponent
  split
  · exact Nat.le_refl _
  · split
    · exact Nat.le_succ_of_le ((length_dropWhile ..).trans (length_matchSign _))
    · exact Nat.le_refl _

theorem length_matchNumber {s t : List Char} {l : Literal} (h : matchNumber s = some (l, t)) :
    t.length < s.length := by
  obtain ⟨⟨ds, rest⟩, hwhole, heq⟩ := Option.map_eq_some_iff.mp h
  cases heq
  have hrest := length_matchWhole hwhole
  have hfraction := length_matchFraction rest
  have hexponent := length_matchExponent (matchFraction rest).2
  have hdrop : (if s.head? = some '-' then s.drop 1 else s).length ≤ s.length := by
    split
    · exact (List.drop_sublist 1 s).length_le
    · exact Nat.le_refl _
  exact (hexponent.trans hfraction).trans_lt (hrest.trans_le hdrop)

theorem length_scanConstant {s t : List Char} {v : Value φ}
    (h : scanConstant s = some (v, t)) : t.length < s.length := by
  obtain ⟨c, hc, heq⟩ := Option.map_eq_some_iff.mp h
  cases heq
  have hp : c.1 <+: s := by simpa using List.find?_some hc
  have hpos : 0 < c.1.length := by
    have hmem := List.mem_of_find?_eq_some hc
    simp only [constants, List.mem_cons, List.not_mem_nil, or_false] at hmem
    rcases hmem with rfl | rfl | rfl | rfl | rfl | rfl
    all_goals simp
  have hle := hp.length_le
  rw [List.length_drop]
  omega

theorem length_scanScalar {s t : List Char} {v : Value φ}
    (h : scanScalar F limits s = .ok (v, t)) : t.length < s.length := by
  unfold scanScalar at h
  split at h
  · rename_i r hconstant
    cases h
    exact length_scanConstant hconstant
  · unfold scanNumber at h
    split at h
    · cases h
    · rename_i l rest hnumber
      have hrest := length_matchNumber hnumber
      split at h
      · cases h
        exact hrest
      · split at h
        · cases h
          exact hrest
        · cases h

theorem expectString_ok {s t : List Char} {str : Str} (h : expectString s = .ok (str, t)) :
    scanString s = some (str, t) := by
  unfold expectString at h
  split at h
  · cases h
  · rename_i r hr
    cases h
    exact hr

theorem length_drop_one {c : Char} {s : List Char} (h : s.head? = some c) :
    (s.drop 1).length + 1 = s.length := by
  cases s with
  | nil => cases h
  | cons c s => rfl

theorem length_after {c : Char} {s : List Char} (h : peek s = some c) :
    (after s).length + 1 ≤ s.length := by
  rw [after, length_drop_one h]
  exact length_skipSpace s

theorem length_scanKey {s t : List Char} {k : Str} (h : scanKey s = .ok (k, t)) :
    t.length + 2 ≤ s.length := by
  unfold scanKey at h
  split at h
  · rename_i hquote
    obtain ⟨r, hr, h⟩ := bind_eq_ok h
    split at h
    · rename_i hcolon
      cases h
      have hstring := length_scanString (expectString_ok hr)
      have hquote := length_drop_one hquote
      have hcolon := length_after hcolon
      have hspace := length_skipSpace (after r.2)
      omega
    · cases h
  · cases h

/-- A scan that returns has consumed something. -/
def Consumes {α : Type} (scan : List Char → Except LoadsError (α × List Char)) : Prop :=
  ∀ s a t, scan s = .ok (a, t) → t.length < s.length

section Steps

variable {fuel depth : ℕ}

theorem consumes_scanOnce_succ (hitems : ∀ depth, Consumes (scanItems F limits fuel depth))
    (hfields : ∀ depth d, Consumes (scanFields F limits fuel depth d)) :
    Consumes (scanOnce F limits (fuel + 1) depth) := by
  intro s v t h
  rw [scanOnce] at h
  have hspace := length_skipSpace (s.drop 1)
  split at h
  · rename_i hquote
    obtain ⟨r, hr, heq⟩ := map_eq_ok h
    cases heq
    have hstring := length_scanString (expectString_ok hr)
    have hquote := length_drop_one hquote
    omega
  · split at h
    · rename_i hopen
      have hopen := length_drop_one hopen
      split at h
      · cases h
      · split at h
        · rename_i hclose
          cases h
          have hclose := length_after hclose
          omega
        · obtain ⟨r, hr, heq⟩ := map_eq_ok h
          cases heq
          have hrest := hitems _ _ _ _ hr
          omega
    · split at h
      · rename_i hopen
        have hopen := length_drop_one hopen
        split at h
        · cases h
        · split at h
          · rename_i hclose
            cases h
            have hclose := length_after hclose
            omega
          · obtain ⟨r, hr, heq⟩ := map_eq_ok h
            cases heq
            have hrest := hfields _ _ _ _ _ hr
            omega
      · exact length_scanScalar F limits h

theorem consumes_scanItems_succ (honce : Consumes (scanOnce F limits fuel depth))
    (hitems : Consumes (scanItems F limits fuel depth)) :
    Consumes (scanItems F limits (fuel + 1) depth) := by
  intro s vs t h
  rw [scanItems] at h
  obtain ⟨r, hr, h⟩ := bind_eq_ok h
  have hitem := honce _ _ _ hr
  split at h
  · rename_i hclose
    cases h
    have hclose := length_after hclose
    omega
  · split at h
    · rename_i hcomma
      obtain ⟨q, hq, heq⟩ := map_eq_ok h
      cases heq
      have hcomma := length_after hcomma
      have hspace := length_skipSpace (after r.2)
      have hrest := hitems _ _ _ hq
      omega
    · cases h

theorem consumes_scanFields_succ (honce : Consumes (scanOnce F limits fuel depth))
    (hfields : ∀ d, Consumes (scanFields F limits fuel depth d)) (d : Fields φ) :
    Consumes (scanFields F limits (fuel + 1) depth d) := by
  intro s d' t h
  rw [scanFields] at h
  obtain ⟨key, hkey, h⟩ := bind_eq_ok h
  obtain ⟨r, hr, h⟩ := bind_eq_ok h
  have hkey := length_scanKey hkey
  have hitem := honce _ _ _ hr
  split at h
  · rename_i hclose
    cases h
    have hclose := length_after hclose
    omega
  · split at h
    · rename_i hcomma
      have hcomma := length_after hcomma
      have hspace := length_skipSpace (after r.2)
      have hrest := hfields _ _ _ _ h
      omega
    · cases h

/-- Whatever the scanner returns, it has consumed something. -/
theorem consumes_scan (fuel : ℕ) :
    (∀ depth, Consumes (scanOnce F limits fuel depth)) ∧
    (∀ depth, Consumes (scanItems F limits fuel depth)) ∧
    (∀ depth d, Consumes (scanFields F limits fuel depth d)) := by
  induction fuel with
  | zero =>
      refine ⟨fun depth s v t h => ?_, fun depth s vs t h => ?_, fun depth d s d' t h => ?_⟩
      · rw [scanOnce] at h
        cases h
      · rw [scanItems] at h
        cases h
      · rw [scanFields] at h
        cases h
  | succ fuel ih =>
      obtain ⟨honce, hitems, hfields⟩ := ih
      exact ⟨fun depth => consumes_scanOnce_succ F limits hitems hfields,
        fun depth => consumes_scanItems_succ F limits (honce depth) (hitems depth),
        fun depth => consumes_scanFields_succ F limits (honce depth) (hfields depth)⟩

theorem scanOnce_succ {s : List Char}
    (hitems : ∀ s, 2 * s.length + 1 < fuel →
      scanItems F limits (fuel + 1) (depth - 1) s = scanItems F limits fuel (depth - 1) s)
    (hfields : ∀ d s, 2 * s.length + 1 < fuel →
      scanFields F limits (fuel + 1) (depth - 1) d s = scanFields F limits fuel (depth - 1) d s)
    (h : 2 * s.length < fuel + 1) :
    scanOnce F limits (fuel + 2) depth s = scanOnce F limits (fuel + 1) depth s := by
  have hspace := length_skipSpace (s.drop 1)
  rw [scanOnce, scanOnce]
  split
  · rfl
  · split
    · rename_i hopen
      have hopen := length_drop_one hopen
      rw [hitems _ (by omega)]
    · split
      · rename_i hopen
        have hopen := length_drop_one hopen
        rw [hfields _ _ (by omega)]
      · rfl

theorem scanItems_succ {s : List Char}
    (honce : ∀ s, 2 * s.length < fuel →
      scanOnce F limits (fuel + 1) depth s = scanOnce F limits fuel depth s)
    (hitems : ∀ s, 2 * s.length + 1 < fuel →
      scanItems F limits (fuel + 1) depth s = scanItems F limits fuel depth s)
    (h : 2 * s.length + 1 < fuel + 1) :
    scanItems F limits (fuel + 2) depth s = scanItems F limits (fuel + 1) depth s := by
  -- an item and the comma behind it pay for the next one
  rw [scanItems, scanItems, honce _ (by omega)]
  refine bind_congr_ok fun r hr => ?_
  have hitem := (consumes_scan F limits fuel).1 depth _ _ _ hr
  split
  · rfl
  · split
    · rename_i hcomma
      have hcomma := length_after hcomma
      have hspace := length_skipSpace (after r.2)
      rw [hitems _ (by omega)]
    · rfl

theorem scanFields_succ {d : Fields φ} {s : List Char}
    (honce : ∀ s, 2 * s.length < fuel →
      scanOnce F limits (fuel + 1) depth s = scanOnce F limits fuel depth s)
    (hfields : ∀ d s, 2 * s.length + 1 < fuel →
      scanFields F limits (fuel + 1) depth d s = scanFields F limits fuel depth d s)
    (h : 2 * s.length + 1 < fuel + 1) :
    scanFields F limits (fuel + 2) depth d s = scanFields F limits (fuel + 1) depth d s := by
  rw [scanFields, scanFields]
  refine bind_congr_ok fun key hkey => ?_
  have hkey := length_scanKey hkey
  rw [honce _ (by omega)]
  refine bind_congr_ok fun r hr => ?_
  have hitem := (consumes_scan F limits fuel).1 depth _ _ _ hr
  split
  · rfl
  · split
    · rename_i hcomma
      have hcomma := length_after hcomma
      have hspace := length_skipSpace (after r.2)
      rw [hfields _ _ (by omega)]
    · rfl

end Steps

/-- More fuel than twice the length of the text changes nothing. -/
theorem scan_succ (fuel : ℕ) :
    (∀ depth s, 2 * s.length < fuel →
      scanOnce F limits (fuel + 1) depth s = scanOnce F limits fuel depth s) ∧
    (∀ depth s, 2 * s.length + 1 < fuel →
      scanItems F limits (fuel + 1) depth s = scanItems F limits fuel depth s) ∧
    (∀ depth d s, 2 * s.length + 1 < fuel →
      scanFields F limits (fuel + 1) depth d s = scanFields F limits fuel depth d s) := by
  induction fuel with
  | zero =>
      exact ⟨fun _ _ h => absurd h (Nat.not_lt_zero _), fun _ _ h => absurd h (Nat.not_lt_zero _),
        fun _ _ _ h => absurd h (Nat.not_lt_zero _)⟩
  | succ fuel ih =>
      obtain ⟨honce, hitems, hfields⟩ := ih
      exact ⟨fun depth s h => scanOnce_succ F limits (hitems _) (hfields _) h,
        fun depth s h => scanItems_succ F limits (honce depth) (hitems depth) h,
        fun depth d s h => scanFields_succ F limits (honce depth) (hfields depth) h⟩

/-- The scanner never runs out of fuel: all that is enough gives one result. -/
theorem scanOnce_fuel {fuel depth : ℕ} {s : List Char} (h : 2 * s.length + 1 ≤ fuel) :
    scanOnce F limits fuel depth s = scanOnce F limits (2 * s.length + 1) depth s := by
  induction fuel, h using Nat.le_induction with
  | base => rfl
  | succ fuel h ih => rw [(scan_succ F limits fuel).1 depth s h, ih]

/-- So more fuel makes no difference to `loads`. -/
theorem loads_eq {s : List Char} {fuel : ℕ} (h : 2 * s.length + 1 ≤ fuel) :
    loads F limits s =
      if s.head? = some '\ufeff' then .error .decode
      else (scanOnce F limits fuel limits.nesting (skipSpace s)).bind fun r =>
        if (skipSpace r.2).isEmpty then .ok r.1 else .error .decode := by
  have hspace := length_skipSpace s
  unfold loads
  rw [scanOnce_fuel F limits (by omega : 2 * (skipSpace s).length + 1 ≤ 2 * s.length + 1),
    ← scanOnce_fuel F limits (by omega : 2 * (skipSpace s).length + 1 ≤ fuel)]
  split
  · rfl
  · cases scanOnce F limits fuel limits.nesting (skipSpace s) with
    | error e => rfl
    | ok r => rfl

end Scanner

end TranscriptionApi.Lib.Json
