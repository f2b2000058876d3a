import Mathlib.Data.Int.Notation
import Mathlib.Data.List.Basic
import Mathlib.Data.List.Forall2
import Mathlib.Data.List.Nodup

/-!
JSON values as the `json` module of Python knows them.

A string is the sequence of its UTF-16 code units, which is what a JSON text can
tell apart: an astral character and the surrogate pair that spells it are one
value, a lone surrogate is a unit of its own. Floats are those of the
interpreter. They come as a type with their printed form and the reading of a
literal, a `Floats`; the two laws it has to obey are that a printed float is a
float literal and reads back as itself.

An object is the list of its entries in insertion order. `setItem` is the
assignment `d[k] = v` and never makes a second entry of one key.
-/

namespace TranscriptionApi.Lib.Json

/-- UTF-16 code units. -/
abbrev Str := List UInt16

instance : LawfulBEq Str := inferInstance

def utf16 (c : Char) : Str :=
  if c.toNat < 0x10000 then [UInt16.ofNat c.toNat]
  else [UInt16.ofNat (0xd800 + (c.toNat - 0x10000) / 0x400),
    UInt16.ofNat (0xdc00 + (c.toNat - 0x10000) % 0x400)]

def Str.ofString (s : String) : Str := s.toList.flatMap utf16

/-- The code units of a text say where its characters end. -/
theorem utf16_append_injective {c d : Char} {s t : Str} (h : utf16 c ++ s = utf16 d ++ t) :
    c = d ∧ s = t := by
  have hunit {m n : ℕ} (hm : m < 0x10000) (hn : n < 0x10000)
      (heq : UInt16.ofNat m = UInt16.ofNat n) : m = n := by
    have := congrArg UInt16.toNat heq
    rwa [UInt16.toNat_ofNat_of_lt' hm, UInt16.toNat_ofNat_of_lt' hn] at this
  have hchar (e : Char) : e.toNat < 0xd800 ∨ 0xdfff < e.toNat ∧ e.toNat < 0x110000 := e.valid
  have hc := hchar c
  have hd := hchar d
  have hval (heq : c.toNat = d.toNat) : c = d := Char.toNat_inj.mp heq
  unfold utf16 at h
  split at h
  · split at h
    · obtain ⟨hunits, hrest⟩ := List.cons.inj h
      exact ⟨hval (hunit (by omega) (by omega) hunits), hrest⟩
    · have hunits := hunit (by omega) (by omega) (List.cons.inj h).1
      omega
  · split at h
    · have hunits := hunit (by omega) (by omega) (List.cons.inj h).1
      omega
    · obtain ⟨hhigh, h⟩ := List.cons.inj h
      obtain ⟨hlow, hrest⟩ := List.cons.inj h
      have hhigh := hunit (by omega) (by omega) hhigh
      have hlow := hunit (by omega) (by omega) hlow
      exact ⟨hval (by omega), hrest⟩

theorem Str.ofString_injective {s t : String} (h : Str.ofString s = Str.ofString t) : s = t := by
  have hlist (l m : List Char) (hlm : l.flatMap utf16 = m.flatMap utf16) : l = m := by
    have hne (c : Char) (x : Str) : utf16 c ++ x ≠ [] := by
      unfold utf16
      split
      · exact List.cons_ne_nil _ _
      · exact List.cons_ne_nil _ _
    induction l generalizing m with
    | nil =>
        cases m with
        | nil => rfl
        | cons d m => exact absurd hlm.symm (hne d _)
    | cons c l ih =>
        cases m with
        | nil => exact absurd hlm (hne c _)
        | cons d m =>
            obtain ⟨rfl, hrest⟩ := utf16_append_injective hlm
            rw [ih m hrest]
  exact String.toList_injective (hlist _ _ h)

/-- A float, where `φ` are the finite ones. -/
inductive Number (φ : Type) where
  | finite (x : φ)
  | nan
  | infinity
  | negInfinity
  deriving DecidableEq

inductive Value (φ : Type) where
  | null
  | bool (b : Bool)
  | int (n : ℤ)
  | float (x : Number φ)
  | str (s : Str)
  | arr (items : List (Value φ))
  | obj (fields : List (Str × Value φ))

abbrev Fields (φ : Type) := List (Str × Value φ)

/-- The entries of an object. -/
def Value.fields? {φ : Type} : Value φ → Option (Fields φ)
  | .obj fields => some fields
  | _ => none

namespace Fields

variable {φ : Type}

def keys (d : Fields φ) : List Str := d.map Prod.fst

/-- `d.get(k)`. -/
def get? (d : Fields φ) (k : Str) : Option (Value φ) :=
  (d.find? fun e => e.1 = k).map Prod.snd

/-- `d[k] = v`: a key that is there keeps its place. -/
def setItem (d : Fields φ) (k : Str) (v : Value φ) : Fields φ :=
  if k ∈ d.keys then d.map fun e => if e.1 = k then (k, v) else e else d ++ [(k, v)]

/-- `{**d, **e}`. -/
def update (d e : Fields φ) : Fields φ := e.foldl (fun acc kv => acc.setItem kv.1 kv.2) d

theorem keys_setItem (d : Fields φ) (k : Str) (v : Value φ) :
    (d.setItem k v).keys = if k ∈ d.keys then d.keys else d.keys ++ [k] := by
  unfold setItem
  split
  · rw [keys, keys, List.map_map]
    refine List.map_congr_left fun e _ => ?_
    simp only [Function.comp_apply]
    split
    · rename_i h
      exact h.symm
    · rfl
  · simp [keys]

theorem get?_eq_none_iff {d : Fields φ} {k : Str} : d.get? k = none ↔ k ∉ d.keys := by
  simp only [get?, keys, Option.map_eq_none_iff, List.find?_eq_none, decide_eq_true_eq,
    List.mem_map, not_exists, not_and]

/-- What a lookup sees after an assignment. -/
theorem get?_setItem (d : Fields φ) (k k' : Str) (v : Value φ) :
    (d.setItem k v).get? k' = if k' = k then some v else d.get? k' := by
  unfold setItem
  split
  · rename_i hk
    -- the entry of `k` is rewritten where it stands
    have hcomp : (fun e : Str × Value φ => decide (e.1 = k')) ∘
        (fun e => if e.1 = k then (k, v) else e) = fun e => decide (e.1 = k') := by
      funext e
      simp only [Function.comp_apply]
      split
      · rename_i h
        rw [h]
      · rfl
    rw [get?, List.find?_map, hcomp, Option.map_map, get?]
    cases hfind : d.find? fun e => decide (e.1 = k') with
    | none =>
        have hne : k' ≠ k := by
          rintro rfl
          have hnone : d.get? k' = none := by rw [get?, hfind, Option.map_none]
          exact get?_eq_none_iff.mp hnone hk
        rw [if_neg hne]
        rfl
    | some e =>
        have he : e.1 = k' := by simpa using List.find?_some hfind
        simp only [Option.map_some, Function.comp_apply, he]
        split
        · rfl
        · rfl
  · rename_i hk
    rw [get?, List.find?_append, Option.map_or, ← get?]
    split
    · rename_i h
      rw [h, get?_eq_none_iff.mpr hk]
      simp
    · rename_i h
      simp [Ne.symm h]

/-- Assignments of new keys, one after the other, append. -/
theorem update_of_nodup {d e : Fields φ} (h : (d ++ e).keys.Nodup) : d.update e = d ++ e := by
  induction e generalizing d with
  | nil => exact (List.append_nil d).symm
  | cons kv e ih =>
      have hkeys : (d.keys ++ kv.1 :: keys e).Nodup := by simpa [keys] using h
      have hk : kv.1 ∉ d.keys := fun hmem =>
        (List.nodup_append.mp hkeys).2.2 _ hmem _ List.mem_cons_self rfl
      have happ : d.setItem kv.1 kv.2 = d ++ [kv] := if_neg hk
      show (d.setItem kv.1 kv.2).update e = _
      rw [happ, ih (by simpa using h), List.append_assoc, List.singleton_append]

theorem mem_keys_setItem (d : Fields φ) (k : Str) (v : Value φ) : k ∈ (d.setItem k v).keys := by
  rw [keys_setItem]
  split
  · assumption
  · simp

theorem eq_of_mem_setItem {d : Fields φ} {k : Str} {v : Value φ} {e : Str × Value φ}
    (he : e ∈ d.setItem k v) (hk : e.1 = k) : e.2 = v := by
  unfold setItem at he
  split at he
  · obtain ⟨e', -, rfl⟩ := List.mem_map.mp he
    split
    · rfl
    · rename_i hne
      rw [if_neg hne] at hk
      exact absurd hk hne
  · rename_i hnew
    rcases List.mem_append.mp he with he | he
    · exact absurd (List.mem_map.mpr ⟨e, he, hk⟩) hnew
    · rw [List.mem_singleton.mp he]

/-- What a lookup sees after an update that has one value for the key. -/
theorem get?_update {d e : Fields φ} {k : Str} {v : Value φ}
    (h : ∀ kv ∈ e, kv.1 = k → kv.2 = v) :
    (d.update e).get? k = if k ∈ e.keys then some v else d.get? k := by
  induction e generalizing d with
  | nil => rfl
  | cons kv e ih =>
      show ((d.setItem kv.1 kv.2).update e).get? k = _
      rw [ih fun kv' hkv' => h kv' (List.mem_cons_of_mem kv hkv'), get?_setItem]
      have hcons : k ∈ keys (kv :: e) ↔ k = kv.1 ∨ k ∈ keys e := List.mem_cons
      by_cases hmem : k ∈ keys e
      · rw [if_pos hmem, if_pos (hcons.mpr (.inr hmem))]
      · rw [if_neg hmem]
        by_cases hk : k = kv.1
        · rw [if_pos hk, if_pos (hcons.mpr (.inl hk)), h kv List.mem_cons_self hk.symm]
        · rw [if_neg hk, if_neg fun hor => (hcons.mp hor).elim hk hmem]

end Fields

/-! ### Fallible steps -/

section Except

variable {ε α β : Type}

theorem bind_eq_ok {x : Except ε α} {f : α → Except ε β} {b : β} (h : x.bind f = .ok b) :
    ∃ a, x = .ok a ∧ f a = .ok b := by
  cases x with
  | error e => cases h
  | ok a => exact ⟨a, rfl, h⟩

theorem map_eq_ok {x : Except ε α} {f : α → β} {b : β} (h : x.map f = .ok b) :
    ∃ a, x = .ok a ∧ f a = b := by
  cases x with
  | error e => cases h
  | ok a => exact ⟨a, rfl, Except.ok.inj h⟩

/-- The outcomes of two steps, one after the other. -/
theorem exists_bind_ok_iff {x : Except ε α} {f : α → Except ε β} {P : β → Prop} :
    (∃ b, x.bind f = .ok b ∧ P b) ↔ ∃ a, x = .ok a ∧ ∃ b, f a = .ok b ∧ P b := by
  constructor
  · rintro ⟨b, h, hb⟩
    obtain ⟨a, ha, h⟩ := bind_eq_ok h
    exact ⟨a, ha, b, h, hb⟩
  · rintro ⟨a, rfl, b, h, hb⟩
    exact ⟨b, h, hb⟩

/-- A loop whose turns all succeed, and what relates the two lists then. -/
theorem mapM_ok_of_forall {f : α → Except ε β} {R : α → β → Prop} {l : List α}
    (h : ∀ a ∈ l, ∃ b, f a = .ok b ∧ R a b) : ∃ out, l.mapM f = .ok out ∧ List.Forall₂ R l out := by
  induction l with
  | nil => exact ⟨[], rfl, .nil⟩
  | cons a l ih =>
      obtain ⟨b, hb, hab⟩ := h a List.mem_cons_self
      obtain ⟨out, hout, hall⟩ := ih fun a' ha' => h a' (List.mem_cons_of_mem a ha')
      refine ⟨b :: out, ?_, .cons hab hall⟩
      rw [List.mapM_cons, hb, hout]
      rfl

theorem forall₂_of_mapM_ok {f : α → Except ε β} {l : List α} {out : List β}
    (h : l.mapM f = .ok out) : List.Forall₂ (fun a b => f a = .ok b) l out := by
  induction l generalizing out with
  | nil =>
      obtain rfl := Except.ok.inj h
      exact .nil
  | cons a l ih =>
      rw [List.mapM_cons] at h
      obtain ⟨b, hb, h⟩ := bind_eq_ok h
      obtain ⟨rest, hrest, h⟩ := bind_eq_ok h
      obtain rfl := Except.ok.inj h
      exact .cons hb (ih hrest)

theorem exists_of_mem_left {R : α → β → Prop} {l : List α} {out : List β}
    (h : List.Forall₂ R l out) {a : α} (ha : a ∈ l) : ∃ b ∈ out, R a b := by
  induction h with
  | nil => cases ha
  | cons hab _ ih =>
      rcases List.mem_cons.mp ha with rfl | ha
      · exact ⟨_, List.mem_cons_self, hab⟩
      · obtain ⟨b, hb, hrel⟩ := ih ha
        exact ⟨b, List.mem_cons_of_mem _ hb, hrel⟩

theorem exists_of_mem_right {R : α → β → Prop} {l : List α} {out : List β}
    (h : List.Forall₂ R l out) {b : β} (hb : b ∈ out) : ∃ a ∈ l, R a b :=
  exists_of_mem_left h.flip hb

theorem bind_congr_ok {x : Except ε α} {f g : α → Except ε β} (h : ∀ a, x = .ok a → f a = g a) :
    x.bind f = x.bind g := by
  cases x with
  | error e => rfl
  | ok a => exact h a rfl

end Except

/-! ### Numbers -/

def isDigit (c : Char) : Bool := 48 ≤ c.toNat && c.toNat ≤ 57

/-- A number literal, `-?(0|[1-9]\d*)(\.\d+)?([eE][-+]?\d+)?`, by its groups. -/
structure Literal where
  negative : Bool
  whole : List Char
  fraction : List Char
  exponent : List Char

namespace Literal

def text (l : Literal) : List Char :=
  (if l.negative then ['-'] else []) ++ l.whole ++ l.fraction ++ l.exponent

def isFloat (l : Literal) : Bool := !l.fraction.isEmpty || !l.exponent.isEmpty

/-- One digit or more. -/
def Digits (ds : List Char) : Prop := ds ≠ [] ∧ ∀ c ∈ ds, isDigit c = true

structure Valid (l : Literal) : Prop where
  whole : l.whole = ['0'] ∨ Digits l.whole ∧ l.whole.head? ≠ some '0'
  fraction : l.fraction = [] ∨ ∃ ds, l.fraction = '.' :: ds ∧ Digits ds
  exponent : l.exponent = [] ∨ ∃ e sign ds, l.exponent = e :: sign ++ ds ∧ (e = 'e' ∨ e = 'E') ∧
    (sign = [] ∨ sign = ['-'] ∨ sign = ['+']) ∧ Digits ds

end Literal

/-- The floats of an interpreter: `float.__repr__` of a finite float, and
`float(text)` of a literal. -/
structure Floats (φ : Type) where
  repr : φ → List Char
  read : List Char → Number φ
  repr_literal : ∀ x, ∃ l : Literal, l.Valid ∧ l.isFloat = true ∧ l.text = repr x
  read_repr : ∀ x, read (repr x) = .finite x

/-- The limits of an interpreter: how deep containers may be nested, and how
many digits an integer may have in its decimal form. -/
structure Limits where
  nesting : ℕ
  digits : ℕ

/-- What the texts of JSON values depend on. -/
structure Interpreter (φ : Type) where
  floats : Floats φ
  limits : Limits

end TranscriptionApi.Lib.Json
