import TranscriptionApi.Lib.Json.Value
import TranscriptionApi.Python

/-!
What Python makes of a parsed JSON value whose type nobody has checked:
`v[k]`, `v.get(k, default)`, its truth, `int(v)`, `uuid.UUID(v)` and
`v.encode("utf-8")`. Each of them raises on the types it is not made for, and
which exception that is decides which `except` clause sees it.

What the interpreter knows of floats and of Unicode digits is a parameter, a
`Runtime`.
-/

namespace TranscriptionApi.Lib.Json

open Python

/-- The exceptions of the interpreter and of libraries. -/
inductive PyError where
  | keyError
  | valueError
  | typeError
  | attributeError
  | overflowError
  | joseError
  /-- any other -/
  | other
  deriving DecidableEq

/-- What the interpreter knows of floats and of digits. -/
structure Runtime (φ : Type) where
  /-- `x == 0.0` -/
  isZero : φ → Bool
  /-- `int(x)` -/
  trunc : φ → ℤ
  /-- `unicodedata.decimal` -/
  decimal : Char → Option ℕ
  /-- `sys.get_int_max_str_digits()`, where 0 is no limit -/
  maxDigits : ℕ

/-! ### Texts -/

def isHighSurrogate (u : UInt16) : Bool := 0xd800 ≤ u.toNat && u.toNat < 0xdc00

def isLowSurrogate (u : UInt16) : Bool := 0xdc00 ≤ u.toNat && u.toNat < 0xe000

/-- The character that a surrogate pair spells. -/
def astral (high low : UInt16) : Char :=
  Char.ofNat (0x10000 + (high.toNat - 0xd800) * 0x400 + (low.toNat - 0xdc00))

/-- The characters of a text; `none` if it has a lone surrogate. -/
def Str.chars? : Str → Option (List Char)
  | [] => some []
  | [u] => if isHighSurrogate u || isLowSurrogate u then none else some [Char.ofNat u.toNat]
  | u :: v :: s =>
      if isHighSurrogate u then
        if isLowSurrogate v then (chars? s).map (astral u v :: ·) else none
      else if isLowSurrogate u then none
      else (chars? (v :: s)).map (Char.ofNat u.toNat :: ·)

/-- The digits of a decimal literal: one underscore may stand between two. -/
def decDigits (decimal : Char → Option ℕ) : ℕ → List Char → Option ℕ
  | acc, [] => some acc
  | acc, '_' :: c :: s => (decimal c).bind fun d => decDigits decimal (10 * acc + d) s
  | acc, c :: s => (decimal c).bind fun d => decDigits decimal (10 * acc + d) s

/-- The whitespace that `int` ignores: an ASCII text is not transformed, so only
that of C counts in it. -/
def intSpace (s : List Char) (c : Char) : Bool :=
  if s.all fun c => c.toNat < 128 then (9 ≤ c.toNat && c.toNat ≤ 13) || c = ' '
  else Python.isSpace c

namespace Runtime

variable {φ : Type} (rt : Runtime φ)

/-- The digits of a literal, without its sign. -/
def natOf (s : List Char) : Option ℕ :=
  if rt.maxDigits ≠ 0 ∧ rt.maxDigits < (s.filter (· ≠ '_')).length then none
  else
    match s with
    | [] => none
    | '_' :: _ => none
    | s => decDigits rt.decimal 0 s

/-- `int(s)` of a text; `none` is the `ValueError`. -/
def intOfText (s : List Char) : Option ℤ :=
  match stripBy (intSpace s) s with
  | '-' :: t => (rt.natOf t).map fun n => -n
  | '+' :: t => (rt.natOf t).map fun n => n
  | t => (rt.natOf t).map fun n => n

end Runtime

/-! ### Operations of any value -/

namespace Value

variable {φ : Type} (rt : Runtime φ)

/-- `v[k]` for a text `k`. -/
def subscript (v : Value φ) (k : Str) : Except PyError (Value φ) :=
  match v with
  | .obj d => (Fields.get? d k).elim (.error .keyError) .ok
  | _ => .error .typeError

/-- `bool(v)`, where `isZero` says which finite floats are zero. -/
def truth (isZero : φ → Bool) : Value φ → Bool
  | .null => false
  | .bool b => b
  | .int n => n ≠ 0
  | .float (.finite x) => !isZero x
  | .float _ => true
  | .str s => !s.isEmpty
  | .arr items => !items.isEmpty
  | .obj fields => !fields.isEmpty

/-- `v or w`. -/
def or (v w : Value φ) : Value φ := if v.truth rt.isZero then v else w

/-- `int(v)`. -/
def toInt : Value φ → Except PyError ℤ
  | .null => .error .typeError
  | .bool b => .ok (if b then 1 else 0)
  | .int n => .ok n
  | .float (.finite x) => .ok (rt.trunc x)
  | .float .nan => .error .valueError
  | .float _ => .error .overflowError
  | .str s => (s.chars?.bind rt.intOfText).elim (.error .valueError) .ok
  | .arr _ => .error .typeError
  | .obj _ => .error .typeError

/-- `uuid.UUID(v)`. -/
def toUuid : Value φ → Except PyError Uuid
  | .null => .error .typeError
  | .str s => (s.chars?.bind fun cs => uuid (String.ofList cs)).elim (.error .valueError) .ok
  | _ => .error .attributeError

/-- `v.encode("utf-8")`. -/
def encode : Value φ → Except PyError (List UInt8)
  | .str s => (s.chars?.map encodeUtf8).elim (.error .valueError) .ok
  | _ => .error .attributeError

end Value

namespace Fields

variable {φ : Type}

/-- `d.get(k, default)`. -/
def getD (d : Fields φ) (k : Str) (default : Value φ) : Value φ := (d.get? k).getD default

end Fields

section

variable {φ : Type} {v : Value φ} {k : Str}

theorem Value.subscript_eq_ok_iff {w : Value φ} :
    v.subscript k = .ok w ↔ ∃ d, v = .obj d ∧ Fields.get? d k = some w := by
  cases v with
  | obj d =>
      simp only [Value.subscript, Value.obj.injEq, exists_eq_left']
      cases Fields.get? d k with
      | none => simp
      | some w' => simp
  | _ => simp [Value.subscript]

/-- The exceptions of `UUID(v)` that are not a `ValueError` come from a value
that is not a text. -/
theorem Value.toUuid_eq_valueError_or_ok_iff :
    (v.toUuid = .error .valueError ∨ ∃ u, v.toUuid = .ok u) ↔ ∃ s, v = .str s := by
  cases v with
  | str s =>
      simp only [Value.toUuid, Value.str.injEq, exists_eq', iff_true]
      cases s.chars?.bind fun cs => uuid (String.ofList cs) with
      | none => exact .inl rfl
      | some u => exact .inr ⟨u, rfl⟩
  | _ => simp [Value.toUuid]

theorem Value.toUuid_ne_keyError (v : Value φ) : v.toUuid ≠ .error .keyError := by
  cases v with
  | str s =>
      simp only [Value.toUuid]
      cases s.chars?.bind fun cs => uuid (String.ofList cs) with
      | none => simp
      | some u => simp
  | _ => simp [Value.toUuid]

end

end TranscriptionApi.Lib.Json
