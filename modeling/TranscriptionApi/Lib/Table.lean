import Mathlib.Data.List.Basic
import Mathlib.Data.List.Nodup
import Mathlib.Data.List.Perm.Basic

/-!
Relational tables with a primary key.

A `Table α key` is a list of rows whose keys are pairwise different, so that a
table with two rows under one key cannot be written down. The operations are
the ones SQL statements compile to: a lookup by key, a selection, an update of
the rows that satisfy a condition, and an insertion, which fails on a key that
is taken. Every operation has a lemma that says what a lookup sees afterwards,
which is what a proof about a statement needs; none has to open the list.
-/

namespace TranscriptionApi.Lib

/-- Rows of type `α`, no two of them with the same key. -/
@[ext] structure Table (α : Type*) {κ : Type*} (key : α → κ) where
  rows : List α
  keys_nodup : (rows.map key).Nodup

namespace Table

variable {α κ : Type*} {key : α → κ}

def empty : Table α key := ⟨[], List.nodup_nil⟩

instance : Inhabited (Table α key) := ⟨empty⟩

/-- The rows that satisfy `p`, in the order the table stores them. -/
def select (t : Table α key) (p : α → Bool) : List α := t.rows.filter p

/-- `UPDATE`: rewrite the rows that satisfy `p`. The key of a row is not
among the columns an update may change. -/
def update (t : Table α key) (p : α → Bool) (f : α → α) (hf : ∀ r, key (f r) = key r) :
    Table α key where
  rows := t.rows.map fun r => if p r then f r else r
  keys_nodup := by
    have hkey : key ∘ (fun r => if p r then f r else r) = key := by
      funext r
      simp only [Function.comp_apply]
      split
      · exact hf r
      · rfl
    rw [List.map_map, hkey]
    exact t.keys_nodup

/-- Leave out the rows that satisfy `p`. -/
def erase (t : Table α key) (p : α → Bool) : Table α key where
  rows := t.rows.filter fun r => !p r
  keys_nodup := t.keys_nodup.sublist (List.filter_sublist.map key)

/-- Two stored rows with one key are the same row. -/
theorem eq_of_key_eq {t : Table α key} {r r' : α} (hr : r ∈ t.rows) (hr' : r' ∈ t.rows)
    (h : key r = key r') : r = r' :=
  List.inj_on_of_nodup_map t.keys_nodup hr hr' h

/-- A selection by key finds at most one row. -/
theorem length_select_le_one {t : Table α key} {p : α → Bool} {k : κ}
    (hp : ∀ r, p r = true → key r = k) : (t.select p).length ≤ 1 := by
  have hkeys : (t.select p).map key = List.replicate (t.select p).length k := by
    refine List.eq_replicate_iff.mpr ⟨List.length_map _, ?_⟩
    intro k' hk'
    obtain ⟨r, hr, rfl⟩ := List.mem_map.mp hk'
    exact hp r (List.mem_filter.mp hr).2
  have hnodup : ((t.select p).map key).Nodup := t.keys_nodup.sublist (List.filter_sublist.map key)
  rw [hkeys] at hnodup
  exact List.nodup_replicate.mp hnodup

/-- A selection that only one row satisfies. -/
theorem select_eq_singleton {t : Table α key} {p : α → Bool} {r : α} (hr : r ∈ t.rows)
    (hp : p r = true) (hunique : ∀ r' ∈ t.rows, p r' = true → r' = r) : t.select p = [r] := by
  have hmem : r ∈ t.select p := List.mem_filter.mpr ⟨hr, hp⟩
  have hnodup : (t.select p).Nodup := t.keys_nodup.of_map.filter p
  have hrows : t.select p = List.replicate (t.select p).length r := by
    refine List.eq_replicate_iff.mpr ⟨rfl, fun r' hr' => ?_⟩
    exact hunique r' (List.mem_filter.mp hr').1 (List.mem_filter.mp hr').2
  generalize (t.select p).length = n at hrows
  rw [hrows] at hmem hnodup ⊢
  have hle := List.nodup_replicate.mp hnodup
  have hpos := (List.mem_replicate.mp hmem).1
  obtain rfl : n = 1 := by omega
  rfl

/-- A selection does not see an erasure that spares the rows it picks. -/
theorem select_erase {t : Table α key} {p q : α → Bool}
    (h : ∀ r ∈ t.rows, p r = true → q r = false) : (t.erase q).select p = t.select p := by
  simp only [select, erase, List.filter_filter]
  apply List.filter_congr
  intro r hr
  cases hp : p r with
  | false => simp
  | true => simp [h r hr hp]

section Lookup

variable [DecidableEq κ]

/-- The row stored under `k`. -/
def find? (t : Table α key) (k : κ) : Option α := t.rows.find? fun r => key r = k

/-- `INSERT`: `none` is the primary key violation. -/
def insert? (t : Table α key) (r : α) : Option (Table α key) :=
  if h : ∃ r' ∈ t.rows, key r' = key r then none
  else some
    { rows := t.rows ++ [r]
      keys_nodup := by
        rw [List.map_append, List.map_singleton, List.nodup_append]
        refine ⟨t.keys_nodup, List.nodup_singleton _, ?_⟩
        intro k hk k' hk'
        rw [List.mem_singleton] at hk'
        obtain ⟨r', hr', rfl⟩ := List.mem_map.mp hk
        rintro rfl
        exact h ⟨r', hr', hk'⟩ }

theorem mem_of_find? {t : Table α key} {k : κ} {r : α} (h : t.find? k = some r) :
    r ∈ t.rows := List.mem_of_find?_eq_some h

theorem key_of_find? {t : Table α key} {k : κ} {r : α} (h : t.find? k = some r) :
    key r = k := by
  simpa using List.find?_some h

theorem find?_eq_some_iff {t : Table α key} {k : κ} {r : α} :
    t.find? k = some r ↔ r ∈ t.rows ∧ key r = k := by
  constructor
  · intro h
    exact ⟨mem_of_find? h, key_of_find? h⟩
  · rintro ⟨hr, rfl⟩
    cases hfind : t.find? (key r) with
    | none =>
        rw [find?, List.find?_eq_none] at hfind
        exact absurd (by simp) (hfind r hr)
    | some r' =>
        rw [eq_of_key_eq (mem_of_find? hfind) hr (key_of_find? hfind)]

theorem find?_of_mem {t : Table α key} {r : α} (h : r ∈ t.rows) :
    t.find? (key r) = some r := find?_eq_some_iff.mpr ⟨h, rfl⟩

theorem find?_eq_none_iff {t : Table α key} {k : κ} :
    t.find? k = none ↔ ∀ r ∈ t.rows, key r ≠ k := by
  simp [find?, List.find?_eq_none]

/-- What a lookup sees after an update. -/
theorem find?_update (t : Table α key) (p : α → Bool) (f : α → α)
    (hf : ∀ r, key (f r) = key r) (k : κ) :
    (t.update p f hf).find? k = (t.find? k).map fun r => if p r then f r else r := by
  have hcomp : (fun r => decide (key r = k)) ∘ (fun r => if p r then f r else r) =
      fun r => decide (key r = k) := by
    funext r
    simp only [Function.comp_apply]
    split
    · rw [hf r]
    · rfl
  simp only [find?, update, List.find?_map, hcomp]

theorem insert?_eq_some {t t' : Table α key} {r : α} (h : t.insert? r = some t') :
    t'.rows = t.rows ++ [r] ∧ t.find? (key r) = none := by
  simp only [insert?] at h
  split at h
  · cases h
  · rename_i hfree
    cases h
    exact ⟨rfl, find?_eq_none_iff.mpr fun r' hr' heq => hfree ⟨r', hr', heq⟩⟩

theorem insert?_isSome_iff {t : Table α key} {r : α} :
    (t.insert? r).isSome ↔ t.find? (key r) = none := by
  rw [find?_eq_none_iff, insert?]
  split
  · rename_i h
    obtain ⟨r', hr', heq⟩ := h
    simpa using ⟨r', hr', heq⟩
  · rename_i h
    simpa using h

/-- An insertion under a further constraint `p`, which no stored row may violate. -/
theorem isSome_insert?_unless_iff {t : Table α key} {p : α → Bool} {r : α} :
    (if t.rows.any p then none else t.insert? r).isSome ↔
      ∀ r' ∈ t.rows, p r' = false ∧ key r' ≠ key r := by
  have hany : t.rows.any p = true ↔ ∃ r' ∈ t.rows, p r' = true := List.any_eq_true
  split
  · rename_i h
    obtain ⟨r', hr', hp⟩ := hany.mp h
    simp only [Option.isSome_none, Bool.false_eq_true, false_iff, not_forall]
    exact ⟨r', hr', fun hfree => by simp [hp] at hfree⟩
  · rename_i h
    rw [insert?_isSome_iff, find?_eq_none_iff]
    refine ⟨fun hfree r' hr' => ⟨?_, hfree r' hr'⟩, fun hfree r' hr' => (hfree r' hr').2⟩
    exact Bool.eq_false_iff.mpr fun hp => h (hany.mpr ⟨r', hr', hp⟩)

/-- What a lookup sees after an insertion. -/
theorem find?_insert? {t t' : Table α key} {r : α} (h : t.insert? r = some t') (k : κ) :
    t'.find? k = if key r = k then some r else t.find? k := by
  obtain ⟨hrows, hfree⟩ := insert?_eq_some h
  have happ : t'.find? k = (t.find? k).or (if key r = k then some r else none) := by
    simp only [find?, hrows, List.find?_append, List.find?_singleton, decide_eq_true_eq]
  split
  · rename_i hk
    rw [happ, ← hk, hfree, if_pos rfl]
    rfl
  · rename_i hk
    rw [happ, if_neg hk, Option.or_none]

end Lookup

@[simp] theorem mem_select {t : Table α key} {p : α → Bool} {r : α} :
    r ∈ t.select p ↔ r ∈ t.rows ∧ p r = true := List.mem_filter

/-- Two conditions that agree on the stored rows update the same rows. -/
theorem update_congr {t : Table α key} {p q : α → Bool} {f : α → α}
    {hf : ∀ r, key (f r) = key r} (h : ∀ r ∈ t.rows, p r = q r) :
    t.update p f hf = t.update q f hf := by
  refine Table.ext (List.map_congr_left fun r hr => ?_)
  rw [h r hr]

theorem mem_update {t : Table α key} {p : α → Bool} {f : α → α}
    (hf : ∀ r, key (f r) = key r) {r : α} :
    r ∈ (t.update p f hf).rows ↔ ∃ r' ∈ t.rows, r = if p r' then f r' else r' := by
  simp only [update, List.mem_map, eq_comm]

end Table

end TranscriptionApi.Lib
