import Mathlib.Data.Nat.Digits.Defs
import TranscriptionApi.Lib.Hex
import TranscriptionApi.Lib.Json.Value

/-!
`json.dumps` with its default arguments: `ensure_ascii`, the separators `", "`
and `": "`, and NaN and the infinities by their JavaScript names. It fails on a
value nested deeper than the interpreter's recursion goes, and on an integer
with more digits than `str` converts.
-/

namespace TranscriptionApi.Lib.Json

inductive DumpsError where
  | recursion
  | digits
  deriving DecidableEq

def digitChar (d : ℕ) : Char := Char.ofNat (48 + d)

/-- `int.__repr__` of the absolute value. -/
def wholeText (n : ℕ) : List Char :=
  if n = 0 then ['0'] else (Nat.digits 10 n).reverse.map digitChar

def intLiteral (n : ℤ) : Literal := ⟨n < 0, wholeText n.natAbs, [], []⟩

/-- `\u` and four hexadecimal digits. -/
def unicodeEscape (n : ℕ) : List Char :=
  let digit := hexChar 'a'
  ['\\', 'u', digit (n / 4096), digit (n / 256 % 16), digit (n / 16 % 16), digit (n % 16)]

/-- One code unit inside a string, `ESCAPE_ASCII`. -/
def escapeUnit (u : UInt16) : List Char :=
  let n := u.toNat
  if n = 34 then ['\\', '"']
  else if n = 92 then ['\\', '\\']
  else if n = 10 then ['\\', 'n']
  else if n = 13 then ['\\', 'r']
  else if n = 9 then ['\\', 't']
  else if n = 12 then ['\\', 'f']
  else if n = 8 then ['\\', 'b']
  else if 32 ≤ n ∧ n ≤ 126 then [Char.ofNat n]
  else unicodeEscape n

def stringText (s : Str) : List Char := '"' :: s.flatMap escapeUnit ++ ['"']

variable {φ : Type} (F : Floats φ) (limits : Limits)

/-- `floatstr`. -/
def numberText : Number φ → List Char
  | .finite x => F.repr x
  | .nan => ['N', 'a', 'N']
  | .infinity => ['I', 'n', 'f', 'i', 'n', 'i', 't', 'y']
  | .negInfinity => ['-', 'I', 'n', 'f', 'i', 'n', 'i', 't', 'y']

mutual

/-- The text of a value, `depth` containers away from the recursion limit. -/
def valueText (depth : ℕ) : Value φ → Except DumpsError (List Char)
  | .null => .ok ['n', 'u', 'l', 'l']
  | .bool true => .ok ['t', 'r', 'u', 'e']
  | .bool false => .ok ['f', 'a', 'l', 's', 'e']
  | .int n =>
      if (intLiteral n).whole.length ≤ limits.digits then .ok (intLiteral n).text
      else .error .digits
  | .float x => .ok (numberText F x)
  | .str s => .ok (stringText s)
  | .arr items =>
      match depth, items with
      | 0, _ => .error .recursion
      | _ + 1, [] => .ok ['[', ']']
      | depth + 1, item :: items => do
          let first ← valueText depth item
          let others ← itemsText depth items
          return '[' :: first ++ others ++ [']']
  | .obj fields =>
      match depth, fields with
      | 0, _ => .error .recursion
      | _ + 1, [] => .ok ['{', '}']
      | depth + 1, (k, v) :: fields => do
          let first ← valueText depth v
          let others ← fieldsText depth fields
          return '{' :: stringText k ++ ':' :: ' ' :: first ++ others ++ ['}']

/-- The items after the first. -/
def itemsText (depth : ℕ) : List (Value φ) → Except DumpsError (List Char)
  | [] => .ok []
  | item :: items => do
      let first ← valueText depth item
      let others ← itemsText depth items
      return ',' :: ' ' :: first ++ others

/-- The entries after the first. -/
def fieldsText (depth : ℕ) : List (Str × Value φ) → Except DumpsError (List Char)
  | [] => .ok []
  | (k, v) :: fields => do
      let first ← valueText depth v
      let others ← fieldsText depth fields
      return ',' :: ' ' :: stringText k ++ ':' :: ' ' :: first ++ others

end

def dumps (v : Value φ) : Except DumpsError (List Char) := valueText F limits limits.nesting v

end TranscriptionApi.Lib.Json
