import Mathlib.Algebra.Group.Nat.Defs
import Mathlib.Data.List.Basic
import TranscriptionApi.Lib.Hex

/-!
The Python built-ins that the modelled code calls on strings, where Lean has
no function of the same behaviour. Text that reaches the service is a string
of Unicode scalars on both sides, so Python's `str` is `String`.
-/

namespace TranscriptionApi.Python

open Lib

/-- `uuid.UUID` is a 128-bit integer. -/
abbrev Uuid := BitVec 128

/-- `str.isspace` of one character; `str.strip` removes these. -/
def isSpace (c : Char) : Bool :=
  (9 ≤ c.toNat && c.toNat ≤ 13) || (28 ≤ c.toNat && c.toNat ≤ 32) ||
    (0x2000 ≤ c.toNat && c.toNat ≤ 0x200a) ||
    [0x85, 0xa0, 0x1680, 0x2028, 0x2029, 0x202f, 0x205f, 0x3000].contains c.toNat

def stripBy (p : Char → Bool) (s : List Char) : List Char :=
  ((s.dropWhile p).reverse.dropWhile p).reverse

/-- `str.strip()`. -/
def strip (s : String) : String := String.ofList (stripBy isSpace s.toList)

/-- `s.rstrip(c)` for one character. -/
def rstripChar (c : Char) (s : String) : String :=
  String.ofList (s.toList.reverse.dropWhile (· = c)).reverse

/-- `str.lower()`, on the letters an ASCII keyword can be compared with. -/
def lower (s : String) : String := String.ofList (s.toList.map Char.toLower)

/-- The first and the last component of `str.partition(" ")`. -/
def partitionSpace (s : String) : String × String :=
  let before := s.toList.takeWhile (· ≠ ' ')
  let after := (s.toList.dropWhile (· ≠ ' ')).drop 1
  (String.ofList before, String.ofList after)

/-- `str.split(" ", 1)`. -/
def splitSpace (s : String) : List String :=
  if ' ' ∈ s.toList then [(partitionSpace s).1, (partitionSpace s).2] else [s]

/-- `bytes.decode("latin-1")`: one character a byte. -/
def latin1 (bytes : List UInt8) : String :=
  String.ofList (bytes.map fun b => Char.ofNat b.toNat)

/-- `str.encode("utf-8")`. -/
def encodeUtf8 (text : List Char) : List UInt8 := text.flatMap String.utf8EncodeChar

/-- `bytes.decode("utf-8")`; `none` is the `UnicodeDecodeError`. -/
def decodeUtf8 (bytes : List UInt8) : Option (List Char) :=
  bytes.toByteArray.utf8Decode?.map Array.toList

theorem decodeUtf8_encodeUtf8 (text : List Char) : decodeUtf8 (encodeUtf8 text) = some text := by
  have hbytes : (encodeUtf8 text).toByteArray = text.utf8Encode := rfl
  rw [decodeUtf8, hbytes, List.utf8Decode?_utf8Encode, Option.map_some]

theorem decodeUtf8_eq_some {bytes : List UInt8} {text : List Char} :
    decodeUtf8 bytes = some text ↔ encodeUtf8 text = bytes := by
  constructor
  · intro h
    obtain ⟨chars, hchars, rfl⟩ := Option.map_eq_some_iff.mp h
    have hsome : bytes.toByteArray.utf8Decode?.isSome = true := by
      rw [hchars]
      rfl
    have hencode := ByteArray.utf8Encode_get_utf8Decode? (h := hsome)
    rw [Option.get_of_eq_some hsome hchars] at hencode
    exact List.toByteArray_inj.mp hencode
  · rintro rfl
    exact decodeUtf8_encodeUtf8 text

/-- The newlines of a file read in text mode. -/
def universalNewlines : List Char → List Char
  | [] => []
  | '\r' :: '\n' :: s => '\n' :: universalNewlines s
  | '\r' :: s => '\n' :: universalNewlines s
  | c :: s => c :: universalNewlines s

theorem universalNewlines_of_notMem {s : List Char} (h : '\r' ∉ s) : universalNewlines s = s := by
  induction s with
  | nil => rfl
  | cons c s ih =>
      have hc : c ≠ '\r' := fun heq => h (heq ▸ List.mem_cons_self)
      have hs : '\r' ∉ s := fun hmem => h (List.mem_cons_of_mem c hmem)
      rw [universalNewlines, ih hs]
      · rintro s' rfl -
        exact hc rfl
      · exact hc

/-- `str.replace(pat, "")`: occurrences are found from the left and do not
overlap. Each turn consumes a character, so the length is enough fuel. -/
def dropAll (pat : List Char) : Nat → List Char → List Char
  | 0, s => s
  | _ + 1, [] => []
  | fuel + 1, c :: s =>
      if pat.isPrefixOf (c :: s) then dropAll pat fuel ((c :: s).drop pat.length)
      else c :: dropAll pat fuel s

/-- The digits of an integer literal in base 16: `int` allows one underscore
between two digits. -/
def hexDigits : Nat → List Char → Option Nat
  | acc, [] => some acc
  | acc, '_' :: c :: s => (hexValue c).bind fun d => hexDigits (16 * acc + d) s
  | acc, c :: s => (hexValue c).bind fun d => hexDigits (16 * acc + d) s

/-- The digits after an optional `0x`, which may itself end in an underscore. -/
def hexLiteral : List Char → Option Nat
  | [] => none
  | ['0'] => some 0
  | '0' :: x :: s =>
      if x = 'x' ∨ x = 'X' then
        match s with
        | [] => none
        | '_' :: [] => none
        | s => hexDigits 0 s
      else hexDigits 0 ('0' :: x :: s)
  | '_' :: _ => none
  | s => hexDigits 0 s

/-- `int(s, 16)` on a text without a minus sign and with ASCII digits. -/
def intBase16 (s : List Char) : Option Nat :=
  match stripBy isSpace s with
  | '+' :: t => hexLiteral t
  | t => hexLiteral t

/-- `UUID(s)`; `none` is the `ValueError`. -/
def uuid (s : String) : Option Uuid :=
  let n := s.length
  let hex := dropAll "uuid:".toList n (dropAll "urn:".toList n s.toList)
  let hex := (stripBy (fun c => c = '{' || c = '}') hex).filter (· ≠ '-')
  if hex.length = 32 then (intBase16 hex).map (BitVec.ofNat 128) else none

/-- `n` hexadecimal digits of a value, most significant first. -/
def hexString : Nat → Nat → List Char
  | 0, _ => []
  | n + 1, v => hexString n (v / 16) ++ [hexChar 'a' (v % 16)]

/-- `str(u)`: 8-4-4-4-12 digits. -/
def uuidStr (u : Uuid) : String :=
  let h := hexString 32 u.toNat
  String.ofList (h.take 8 ++ '-' :: (h.drop 8).take 4 ++ '-' :: (h.drop 12).take 4 ++
    '-' :: (h.drop 16).take 4 ++ '-' :: h.drop 20)

/-- `repr(s)` as an f-string's `!r` prints it, for printable text. -/
def pyRepr (s : String) : String :=
  let cs := s.toList
  let quote := if cs.contains '\'' && !cs.contains '"' then '"' else '\''
  let escaped := cs.flatMap fun c =>
    if c = '\\' ∨ c = quote then ['\\', c]
    else if c = '\n' then ['\\', 'n']
    else if c = '\r' then ['\\', 'r']
    else if c = '\t' then ['\\', 't']
    else if c.toNat < 32 ∨ c.toNat = 127 then
      '\\' :: 'x' :: hexString 2 c.toNat
    else [c]
  String.ofList (quote :: escaped ++ [quote])

/-! ### Printed UUIDs -/

theorem length_hexString (n v : Nat) : (hexString n v).length = n := by
  induction n generalizing v with
  | zero => rfl
  | succ n ih => rw [hexString, List.length_append, ih, List.length_singleton]

theorem hexString_injective {n v w : Nat} (hv : v < 16 ^ n) (hw : w < 16 ^ n)
    (h : hexString n v = hexString n w) : v = w := by
  induction n generalizing v w with
  | zero => omega
  | succ n ih =>
      rw [Nat.pow_succ] at hv hw
      obtain ⟨hhigh, hlow⟩ := List.append_inj' h rfl
      have hhigh := ih (by omega) (by omega) hhigh
      have hlow := congrArg hexValue (List.cons.inj hlow).1
      rw [hexValue_hexChar (.inl rfl) (Nat.mod_lt _ (by decide)),
        hexValue_hexChar (.inl rfl) (Nat.mod_lt _ (by decide)), Option.some.injEq] at hlow
      omega

/-- The groups of `uuidStr`, put together again. -/
theorem groups_append (h : List Char) : h.take 8 ++ ((h.drop 8).take 4 ++ ((h.drop 12).take 4 ++
    ((h.drop 16).take 4 ++ h.drop 20))) = h := by
  have hstep (n : Nat) : (h.drop n).take 4 ++ h.drop (n + 4) = h.drop n := by
    rw [← List.drop_drop, List.take_append_drop]
  rw [hstep 16, hstep 12, hstep 8, List.take_append_drop]

theorem groups_injective {g h : List Char} (hg : g.length = 32) (hh : h.length = 32)
    (heq : g.take 8 ++ '-' :: (g.drop 8).take 4 ++ '-' :: (g.drop 12).take 4 ++
        '-' :: (g.drop 16).take 4 ++ '-' :: g.drop 20 =
      h.take 8 ++ '-' :: (h.drop 8).take 4 ++ '-' :: (h.drop 12).take 4 ++
        '-' :: (h.drop 16).take 4 ++ '-' :: h.drop 20) : g = h := by
  simp only [List.append_assoc, List.cons_append] at heq
  obtain ⟨h₁, heq⟩ := List.append_inj heq (by simp [hg, hh])
  obtain ⟨h₂, heq⟩ := List.append_inj (List.cons.inj heq).2 (by simp [hg, hh])
  obtain ⟨h₃, heq⟩ := List.append_inj (List.cons.inj heq).2 (by simp [hg, hh])
  obtain ⟨h₄, heq⟩ := List.append_inj (List.cons.inj heq).2 (by simp [hg, hh])
  rw [← groups_append g, ← groups_append h, h₁, h₂, h₃, h₄, (List.cons.inj heq).2]

theorem length_groups {h : List Char} (hh : h.length = 32) :
    (h.take 8 ++ '-' :: (h.drop 8).take 4 ++ '-' :: (h.drop 12).take 4 ++
      '-' :: (h.drop 16).take 4 ++ '-' :: h.drop 20).length = 36 := by
  simp only [List.append_assoc, List.cons_append, List.length_append, List.length_cons,
    List.length_take, List.length_drop, hh]
  decide

theorem length_uuidStr (u : Uuid) : (uuidStr u).length = 36 :=
  String.length_ofList.trans (length_groups (length_hexString 32 u.toNat))

theorem uuidStr_injective {u v : Uuid} (h : uuidStr u = uuidStr v) : u = v := by
  have hdigits : hexString 32 u.toNat = hexString 32 v.toNat :=
    groups_injective (length_hexString ..) (length_hexString ..) (String.ofList_injective h)
  exact BitVec.eq_of_toNat_eq (hexString_injective u.isLt v.isLt hdigits)

/-- The characters that `hexString` prints. -/
theorem mem_hexString {n v : Nat} {c : Char} (h : c ∈ hexString n v) :
    ∃ d : Fin 16, c = hexChar 'a' d := by
  induction n generalizing v with
  | zero => cases h
  | succ n ih =>
      rw [hexString, List.mem_append, List.mem_singleton] at h
      rcases h with h | rfl
      · exact ih h
      · exact ⟨⟨v % 16, Nat.mod_lt _ (by decide)⟩, rfl⟩

theorem hexDigits_cons (acc : Nat) (d : Fin 16) (rest : List Char) :
    hexDigits acc (hexChar 'a' d :: rest) = hexDigits (16 * acc + d) rest := by
  have hline : hexChar 'a' d ≠ '_' := by
    revert d
    decide
  rw [hexDigits, hexValue_hexChar (.inl rfl) d.isLt, Option.bind_some]
  rintro c s hc
  exact absurd hc hline

/-- Printed digits are read from the left. -/
theorem hexDigits_hexString (acc v n : Nat) (rest : List Char) :
    hexDigits acc (hexString n v ++ rest) = hexDigits (16 ^ n * acc + v % 16 ^ n) rest := by
  induction n generalizing acc v rest with
  | zero => simp [hexString, Nat.mod_one]
  | succ n ih =>
      rw [hexString, List.append_assoc, List.singleton_append, ih]
      rw [show v % 16 = ((⟨v % 16, Nat.mod_lt _ (by decide)⟩ : Fin 16) : Nat) from rfl,
        hexDigits_cons]
      congr 1
      rw [Nat.pow_succ', Nat.mod_mul, Nat.mul_add, Nat.mul_assoc]
      dsimp only
      omega

theorem stripBy_of_forall {p : Char → Bool} {s : List Char} (h : ∀ c ∈ s, p c = false) :
    stripBy p s = s := by
  have hkeep {l : List Char} (hl : ∀ c ∈ l, p c = false) : l.dropWhile p = l := by
    cases l with
    | nil => rfl
    | cons c l => rw [List.dropWhile_cons, hl c List.mem_cons_self, if_neg Bool.false_ne_true]
  rw [stripBy, hkeep h, hkeep fun c hc => h c (List.mem_reverse.mp hc), List.reverse_reverse]

/-- A text without the first character of the pattern has no occurrence of it. -/
theorem dropAll_of_notMem {c : Char} {pat s : List Char} (h : c ∉ s) (fuel : Nat) :
    dropAll (c :: pat) fuel s = s := by
  induction fuel generalizing s with
  | zero => rfl
  | succ fuel ih =>
      cases s with
      | nil => rfl
      | cons d s =>
          rw [List.mem_cons, not_or] at h
          have hne : (c :: pat).isPrefixOf (d :: s) = false := by
            rw [List.isPrefixOf, beq_false_of_ne h.1, Bool.false_and]
          rw [dropAll, hne, if_neg Bool.false_ne_true, ih h.2]

theorem intBase16_hexString {n v : Nat} (hn : 2 < n) (hv : v < 16 ^ n) :
    intBase16 (hexString n v) = some v := by
  have hchars {p : Char → Prop} (hp : ∀ d : Fin 16, p (hexChar 'a' d)) :
      ∀ c ∈ hexString n v, p c := by
    intro c hc
    obtain ⟨d, rfl⟩ := mem_hexString hc
    exact hp d
  have hstrip : stripBy isSpace (hexString n v) = hexString n v :=
    stripBy_of_forall (hchars (by decide))
  have hvalue : hexDigits 0 (hexString n v) = some v := by
    have h := hexDigits_hexString 0 v n []
    rw [List.append_nil, Nat.mul_zero, Nat.zero_add, Nat.mod_eq_of_lt hv] at h
    exact h
  have hlength := length_hexString n v
  have hmem := hchars (p := fun c => c ≠ '+' ∧ c ≠ '_' ∧ c ≠ 'x' ∧ c ≠ 'X') (by decide)
  rw [intBase16, hstrip]
  cases hs : hexString n v with
  | nil =>
      rw [hs] at hlength
      exact absurd hlength (by simp; omega)
  | cons c s =>
      rw [hs] at hvalue hmem hlength
      obtain ⟨hplus, hline, -, -⟩ := hmem c List.mem_cons_self
      cases s with
      | nil => exact absurd hlength (by simp; omega)
      | cons x s =>
          obtain ⟨-, -, hx, hX⟩ := hmem x (List.mem_cons_of_mem _ List.mem_cons_self)
          have hliteral : hexLiteral (c :: x :: s) = hexDigits 0 (c :: x :: s) := by
            by_cases hc : c = '0'
            · subst hc
              simp [hexLiteral, hx, hX]
            · simp [hexLiteral, hc, hline]
          simp [hplus, hliteral, hvalue]

theorem filter_groups {h : List Char} (hh : '-' ∉ h) :
    (h.take 8 ++ '-' :: (h.drop 8).take 4 ++ '-' :: (h.drop 12).take 4 ++
      '-' :: (h.drop 16).take 4 ++ '-' :: h.drop 20).filter (· ≠ '-') = h := by
  have hkeep {l : List Char} (hl : l.Sublist h) : l.filter (· ≠ '-') = l :=
    List.filter_eq_self.mpr fun c hc => by
      have hne : c ≠ '-' := fun heq => hh (heq ▸ hl.subset hc)
      simpa using hne
  have hdrop (a b : Nat) : ((h.drop a).take b).Sublist h :=
    (List.take_sublist ..).trans (List.drop_sublist ..)
  simp only [List.append_assoc, List.cons_append, List.filter_append, List.filter_cons,
    hkeep (List.take_sublist 8 h), hkeep (hdrop _ _), hkeep (List.drop_sublist 20 h)]
  exact groups_append h

theorem mem_uuidStr {u : Uuid} {c : Char} (h : c ∈ (uuidStr u).toList) :
    c = '-' ∨ ∃ d : Fin 16, c = hexChar 'a' d := by
  have hhex {l : List Char} (hl : l.Sublist (hexString 32 u.toNat)) (hc : c ∈ l) :
      c = '-' ∨ ∃ d : Fin 16, c = hexChar 'a' d := .inr (mem_hexString (hl.subset hc))
  have hdrop (a b : Nat) : (((hexString 32 u.toNat).drop a).take b).Sublist _ :=
    (List.take_sublist ..).trans (List.drop_sublist ..)
  rw [uuidStr, String.toList_ofList] at h
  simp only [List.append_assoc, List.cons_append, List.mem_append, List.mem_cons] at h
  rcases h with h | rfl | h | rfl | h | rfl | h | rfl | h
  · exact hhex (List.take_sublist ..) h
  · exact .inl rfl
  · exact hhex (hdrop ..) h
  · exact .inl rfl
  · exact hhex (hdrop ..) h
  · exact .inl rfl
  · exact hhex (hdrop ..) h
  · exact .inl rfl
  · exact hhex (List.drop_sublist ..) h

/-- `UUID(str(u))` is `u`. -/
theorem uuid_uuidStr (u : Uuid) : uuid (uuidStr u) = some u := by
  have hchars {p : Char → Prop} (hdash : p '-') (hp : ∀ d : Fin 16, p (hexChar 'a' d)) :
      ∀ c ∈ (uuidStr u).toList, p c := by
    intro c hc
    rcases mem_uuidStr hc with rfl | ⟨d, rfl⟩
    · exact hdash
    · exact hp d
  have hnotu : 'u' ∉ (uuidStr u).toList := fun hmem =>
    hchars (p := fun c => c ≠ 'u') (by decide) (by decide) 'u' hmem rfl
  have hbraces : stripBy (fun c => c = '{' || c = '}') (uuidStr u).toList = (uuidStr u).toList :=
    stripBy_of_forall (hchars (by decide) (by decide))
  have hhex : (uuidStr u).toList.filter (· ≠ '-') = hexString 32 u.toNat := by
    rw [uuidStr, String.toList_ofList]
    refine filter_groups fun hmem => ?_
    obtain ⟨d, hd⟩ := mem_hexString hmem
    revert d
    decide
  unfold uuid
  simp only [show "urn:".toList = 'u' :: "rn:".toList from rfl,
    show "uuid:".toList = 'u' :: "uid:".toList from rfl, dropAll_of_notMem hnotu, hbraces, hhex,
    length_hexString, if_true, intBase16_hexString (by decide : 2 < 32) u.isLt]
  rw [Option.map_some, BitVec.ofNat_toNat, BitVec.setWidth_eq]

/-! ### Dates and URLs -/

/-- `n` decimal digits of a value, most significant first. -/
def decString : Nat → Nat → List Char
  | 0, _ => []
  | n + 1, v => decString n (v / 10) ++ [Char.ofNat (48 + v % 10)]

/-- The civil date of a day counted from 1970-01-01. Years are shifted to
start in March, so that the leap day is the last day of a year. -/
def civilDate (day : Int) : Int × Nat × Nat :=
  let z := day + 719468
  let era := z.fdiv 146097
  let doe := (z - era * 146097).toNat
  let yoe := (doe - doe / 1460 + doe / 36524 - doe / 146096) / 365
  let doy := doe - (365 * yoe + yoe / 4 - yoe / 100)
  let mp := (5 * doy + 2) / 153
  let month := if mp < 10 then mp + 3 else mp - 9
  let year := era * 400 + yoe + (if month ≤ 2 then 1 else 0)
  (year, month, doy - (153 * mp + 2) / 5 + 1)

/-- `datetime.isoformat()` of an instant in UTC. -/
def isoformat (at_ : Int) : String :=
  let second := at_.fdiv 1000000
  let micro := (at_ - second * 1000000).toNat
  let day := second.fdiv 86400
  let ofDay := (second - day * 86400).toNat
  let (year, month, dom) := civilDate day
  let fraction := if micro = 0 then [] else '.' :: decString 6 micro
  String.ofList (decString 4 year.toNat ++ '-' :: decString 2 month ++ '-' :: decString 2 dom ++
    'T' :: decString 2 (ofDay / 3600) ++ ':' :: decString 2 (ofDay / 60 % 60) ++
    ':' :: decString 2 (ofDay % 60) ++ fraction ++ "+00:00".toList)

/-- `quote_plus(s)`, which `urlencode` applies to keys and values. -/
def quotePlus (s : String) : String :=
  String.ofList (s.toUTF8.toList.flatMap fun b =>
    let c := Char.ofNat b.toNat
    if b.toNat < 128 ∧ (c.isAlphanum ∨ c = '_' ∨ c = '.' ∨ c = '-' ∨ c = '~') then [c]
    else if c = ' ' then ['+']
    else '%' :: (hexString 2 b.toNat).map Char.toUpper)

/-- `urlencode({key: value})`. -/
def urlencode (key value : String) : String := quotePlus key ++ "=" ++ quotePlus value

def splitOnSlash (s : List Char) : List (List Char) :=
  s.foldr (fun c parts =>
    if c = '/' then [] :: parts
    else match parts with
      | [] => [[c]]
      | part :: parts => (c :: part) :: parts) [[]]

/-- The dot segments of a path, resolved. -/
def resolveDots (segments : List (List Char)) : List (List Char) :=
  let resolved := segments.foldl (fun acc seg =>
    if seg = ['.', '.'] then acc.dropLast
    else if seg = ['.'] then acc
    else acc ++ [seg]) []
  match segments.getLast? with
  | some ['.'] | some ['.', '.'] => resolved ++ [[]]
  | _ => resolved

/-- `urljoin(base, path)` for an `http` or `https` base and a relative path
without scheme, query or fragment. -/
def urljoin (base path : String) : String :=
  let cs := base.toList
  let scheme := cs.takeWhile (· ≠ ':')
  let rest := (cs.dropWhile (· ≠ ':')).drop 3
  let netloc := rest.takeWhile fun c => c ≠ '/' ∧ c ≠ '?' ∧ c ≠ '#'
  let basePath := (rest.drop netloc.length).takeWhile fun c => c ≠ '?' ∧ c ≠ '#' ∧ c ≠ ';'
  let segments := (splitOnSlash basePath).dropLast ++ splitOnSlash path.toList
  let inner := (segments.drop 1).dropLast.filter (!·.isEmpty)
  let segments := segments.take 1 ++ inner ++ segments.drop (max 1 (segments.length - 1))
  let joined := ['/'].intercalate (resolveDots segments)
  let fullPath := if joined.isEmpty then ['/'] else joined
  String.ofList (scheme ++ "://".toList ++ netloc ++
    (if fullPath.head? = some '/' then [] else ['/']) ++ fullPath)

end TranscriptionApi.Python
