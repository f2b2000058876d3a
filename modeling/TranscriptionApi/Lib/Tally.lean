import Mathlib.Algebra.GroupWithZero.Nat
import Mathlib.Data.List.MinMax
import Mathlib.Data.List.Nodup
import Mathlib.Data.List.Perm.Basic

/-!
Dictionaries that add up, `d[k] += x` for one pair after the other.

A dictionary keeps its keys in the order of their first pair, and a key that is
missing counts as zero. So the dictionary of a list of pairs is known in closed
form, `total_eq`: the keys of the list without the later copies, each with the
sum of its own values in the order they came.

Two questions are asked of such a dictionary. `mostCommon` is the first of the
keys with the greatest value, and `top` the first keys of a stable sort by
decreasing value. Both are answered in terms of the list alone.
-/

namespace TranscriptionApi.Lib

/-- The entries in insertion order. -/
abbrev Tally (κ ν : Type*) := List (κ × ν)

namespace Tally

variable {κ ν : Type*}

def keys (d : List (κ × ν)) : List κ := d.map Prod.fst

section Total

variable [DecidableEq κ] [Add ν] [Zero ν]

/-- `d[k] += x`. -/
def add (d : Tally κ ν) (k : κ) (x : ν) : Tally κ ν :=
  if k ∈ keys d then d.map fun e => if e.1 = k then (k, e.2 + x) else e
  else d ++ [(k, 0 + x)]

/-- The dictionary of a list of pairs. -/
def total (l : List (κ × ν)) : Tally κ ν := l.foldl (fun d e => d.add e.1 e.2) []

/-- The keys of a list without the later copies. -/
def firsts (l : List κ) : List κ := l.eraseDups

theorem mem_firsts {l : List κ} {k : κ} : k ∈ firsts l ↔ k ∈ l := List.mem_eraseDups

/-- The values of one key, added up from zero. -/
def sumOf (l : List (κ × ν)) (k : κ) : ν :=
  ((l.filter fun e => e.1 = k).map Prod.snd).foldl (· + ·) 0

theorem sumOf_concat (l : List (κ × ν)) (e : κ × ν) (k : κ) :
    sumOf (l ++ [e]) k = if e.1 = k then sumOf l k + e.2 else sumOf l k := by
  unfold sumOf
  rw [List.filter_append]
  split
  · rename_i h
    simp [h]
  · rename_i h
    simp [h]

theorem sumOf_of_notMem {l : List (κ × ν)} {k : κ} (h : k ∉ keys l) : sumOf l k = 0 := by
  have hnone : (l.filter fun e => e.1 = k) = [] := by
    rw [List.filter_eq_nil_iff]
    intro e he
    rw [decide_eq_true_eq]
    rintro rfl
    exact h (List.mem_map_of_mem he)
  rw [sumOf, hnone]
  rfl

theorem firsts_concat (l : List κ) (k : κ) :
    firsts (l ++ [k]) = if k ∈ l then firsts l else firsts l ++ [k] := by
  unfold firsts
  rw [List.eraseDups_append]
  split
  · rename_i h
    simp [List.removeAll, h]
  · rename_i h
    simp [List.removeAll, h, List.eraseDups_cons]

/-- The dictionary in closed form. -/
theorem total_eq (l : List (κ × ν)) :
    total l = (firsts (keys l)).map fun k => (k, sumOf l k) := by
  induction l using List.reverseRecOn with
  | nil => rfl
  | append_singleton l e ih =>
      have hkeys : keys (total l) = firsts (keys l) := by
        rw [ih, keys, List.map_map]
        exact List.map_id _
      have hmem : e.1 ∈ keys (total l) ↔ e.1 ∈ keys l := by rw [hkeys, mem_firsts]
      have hstep : total (l ++ [e]) = (total l).add e.1 e.2 := by
        simp [total]
      have happ : keys (l ++ [e]) = keys l ++ [e.1] := List.map_append
      rw [hstep, happ, firsts_concat, add]
      by_cases he : e.1 ∈ keys l
      · rw [if_pos (hmem.mpr he), if_pos he, ih, List.map_map]
        refine List.map_congr_left fun k _ => ?_
        rw [Function.comp_apply, sumOf_concat]
        by_cases hk : e.1 = k
        · simp [hk]
        · simp [hk, Ne.symm hk]
      · rw [if_neg (fun h => he (hmem.mp h)), if_neg he, List.map_append, ih]
        have hold : ∀ k ∈ firsts (keys l), (k, sumOf (l ++ [e]) k) = (k, sumOf l k) := by
          intro k hk
          have hne : e.1 ≠ k := by
            rintro rfl
            exact he (mem_firsts.mp hk)
          rw [sumOf_concat, if_neg hne]
        rw [List.map_congr_left hold, List.map_singleton, sumOf_concat, if_pos rfl,
          sumOf_of_notMem he]

theorem mem_total_iff {l : List (κ × ν)} {e : κ × ν} :
    e ∈ total l ↔ e.1 ∈ keys l ∧ e.2 = sumOf l e.1 := by
  rw [total_eq, List.mem_map]
  constructor
  · rintro ⟨k, hk, rfl⟩
    exact ⟨mem_firsts.mp hk, rfl⟩
  · rintro ⟨hk, hsum⟩
    exact ⟨e.1, mem_firsts.mpr hk, Prod.ext rfl hsum.symm⟩

theorem keys_total (l : List (κ × ν)) : keys (total l) = firsts (keys l) := by
  rw [total_eq, keys, List.map_map]
  exact List.map_id _

omit [Add ν] [Zero ν] in
/-- Ones add up to a count. -/
theorem sumOf_ones {α : Type*} (f : α → κ) (l : List α) (k : κ) :
    sumOf (l.map fun a => (f a, 1)) k = l.countP fun a => f a = k := by
  induction l using List.reverseRecOn with
  | nil => rfl
  | append_singleton l a ih =>
      rw [List.map_append, List.map_singleton, sumOf_concat, ih, List.countP_append,
        List.countP_singleton]
      simp only [decide_eq_true_eq]
      split
      · rfl
      · rfl

omit [Add ν] [Zero ν] in
/-- The place of the first pair of a key. -/
theorem idxOf_keys {α : Type*} (f : α → κ) (l : List α) (g : α → ν) (k : κ) :
    (keys (l.map fun a => (f a, g a))).idxOf k = l.findIdx fun a => f a = k := by
  rw [keys, List.map_map, List.idxOf, List.findIdx_map]
  rfl

end Total

/-! ### The order of the keys -/

section Order

variable [DecidableEq κ]

theorem nodup_firsts (l : List κ) : (firsts l).Nodup := by
  induction l using List.reverseRecOn with
  | nil => exact List.nodup_nil
  | append_singleton l k ih =>
      rw [firsts_concat]
      split
      · exact ih
      · rename_i hk
        refine List.nodup_append.mpr ⟨ih, List.nodup_singleton k, ?_⟩
        intro a ha b hb
        rw [List.mem_singleton.mp hb]
        rintro rfl
        exact hk (mem_firsts.mp ha)

/-- Without the later copies, what stands first still stands first. -/
theorem idxOf_firsts_le {l : List κ} {a b : κ} (ha : a ∈ l) (hb : b ∈ l) :
    (firsts l).idxOf a ≤ (firsts l).idxOf b ↔ l.idxOf a ≤ l.idxOf b := by
  induction l using List.reverseRecOn with
  | nil => cases ha
  | append_singleton l k ih =>
      rw [firsts_concat]
      by_cases hk : k ∈ l
      · have hof {c : κ} (hc : c ∈ l ++ [k]) : c ∈ l := by
          rcases List.mem_append.mp hc with hc | hc
          · exact hc
          · rw [List.mem_singleton.mp hc]
            exact hk
        rw [if_pos hk, List.idxOf_append_of_mem (hof ha), List.idxOf_append_of_mem (hof hb)]
        exact ih (hof ha) (hof hb)
      · rw [if_neg hk]
        -- `k` is the last one on both sides
        have hlast : k ∉ firsts l := fun h => hk (mem_firsts.mp h)
        have hbound {c : κ} (hc : c ∈ l) :
            l.idxOf c < l.length ∧ (firsts l).idxOf c < (firsts l).length :=
          ⟨List.idxOf_lt_length_of_mem hc,
            List.idxOf_lt_length_of_mem (mem_firsts.mpr hc)⟩
        have hold {c : κ} (hc : c ∈ l) :
            (firsts l ++ [k]).idxOf c = (firsts l).idxOf c ∧ (l ++ [k]).idxOf c = l.idxOf c :=
          ⟨List.idxOf_append_of_mem (mem_firsts.mpr hc), List.idxOf_append_of_mem hc⟩
        have hnew : (firsts l ++ [k]).idxOf k = (firsts l).length ∧
            (l ++ [k]).idxOf k = l.length := by
          rw [List.idxOf_append_of_notMem hlast, List.idxOf_append_of_notMem hk]
          simp
        rcases List.mem_append.mp ha with ha | ha
        · have hab := hbound ha
          rcases List.mem_append.mp hb with hb | hb
          · rw [(hold ha).1, (hold ha).2, (hold hb).1, (hold hb).2]
            exact ih ha hb
          · rw [List.mem_singleton.mp hb, (hold ha).1, (hold ha).2, hnew.1, hnew.2]
            omega
        · rw [List.mem_singleton.mp ha]
          rcases List.mem_append.mp hb with hb | hb
          · have hbb := hbound hb
            rw [(hold hb).1, (hold hb).2, hnew.1, hnew.2]
            omega
          · rw [List.mem_singleton.mp hb]
            exact iff_of_true le_rfl le_rfl

end Order

/-! ### The greatest value -/

section MostCommon

variable [LinearOrder ν]

/-- `most_common(1)`: of the entries with the greatest value the first one. -/
def mostCommon (d : Tally κ ν) : Option κ := (d.argmax Prod.snd).map Prod.fst

theorem argmax_map {α β : Type*} (f : β → ν) (g : α → β) (l : List α) :
    (l.map g).argmax f = (l.argmax (f ∘ g)).map g := by
  induction l using List.reverseRecOn with
  | nil => rfl
  | append_singleton l a ih =>
      rw [List.map_append, List.map_singleton, List.argmax_concat, List.argmax_concat, ih]
      cases l.argmax (f ∘ g) with
      | none => rfl
      | some c =>
          show (if f (g c) < f (g a) then some (g a) else some (g c)) =
            Option.map g (if f (g c) < f (g a) then some a else some c)
          split
          · rfl
          · rfl

variable [DecidableEq κ] [Add ν] [Zero ν]

/-- The most common key has the greatest sum, and of those that share it the
earliest first pair. -/
theorem mostCommon_total_eq_some_iff {l : List (κ × ν)} {k : κ} :
    mostCommon (total l) = some k ↔ k ∈ keys l ∧ (∀ a ∈ keys l, sumOf l a ≤ sumOf l k) ∧
      ∀ a ∈ keys l, sumOf l k ≤ sumOf l a → (keys l).idxOf k ≤ (keys l).idxOf a := by
  have hkeys : mostCommon (total l) = (firsts (keys l)).argmax (sumOf l) := by
    rw [mostCommon, total_eq, argmax_map, Option.map_map]
    exact Option.map_id'
  rw [hkeys, List.argmax_eq_some_iff]
  simp only [mem_firsts]
  constructor
  · rintro ⟨hk, hmax, hfirst⟩
    exact ⟨hk, hmax, fun a ha hle => (idxOf_firsts_le hk ha).mp (hfirst a ha hle)⟩
  · rintro ⟨hk, hmax, hfirst⟩
    exact ⟨hk, hmax, fun a ha hle => (idxOf_firsts_le hk ha).mpr (hfirst a ha hle)⟩

theorem mostCommon_total_isSome {l : List (κ × ν)} (h : l ≠ []) :
    ∃ k, mostCommon (total l) = some k := by
  have hne : total l ≠ [] := by
    obtain ⟨e, he⟩ := List.exists_mem_of_ne_nil l h
    have hmem : e.1 ∈ keys (total l) := by
      rw [keys_total, mem_firsts]
      exact List.mem_map_of_mem he
    intro hnil
    rw [hnil] at hmem
    cases hmem
  cases hmax : (total l).argmax Prod.snd with
  | none => exact absurd (List.argmax_eq_none.mp hmax) hne
  | some e => exact ⟨e.1, by rw [mostCommon, hmax]; rfl⟩

end MostCommon

/-! ### The least value -/

/-- What `min(l, key=f)` takes: the first of the least ones. -/
theorem argmin_eq_some_get {α β : Type*} [LinearOrder β] {f : α → β} {l : List α} {a : α}
    (h : l.argmin f = some a) : ∃ i : ℕ, l[i]? = some a ∧ (∀ b ∈ l, f a ≤ f b) ∧
      ∀ (j : ℕ) b, j < i → l[j]? = some b → f a < f b := by
  induction l generalizing a with
  | nil => cases h
  | cons c l ih =>
      rw [List.argmin_cons] at h
      cases hl : l.argmin f with
      | none =>
          rw [hl] at h
          obtain rfl := Option.some.inj h
          rw [List.argmin_eq_none.mp hl]
          refine ⟨0, rfl, fun b hb => ?_, fun j b hj => absurd hj (Nat.not_lt_zero j)⟩
          rw [List.mem_singleton.mp hb]
      | some m =>
          rw [hl] at h
          obtain ⟨i, hi, hmin, hfirst⟩ := ih hl
          by_cases hlt : f m < f c
          · obtain rfl := Option.some.inj ((if_pos hlt).symm.trans h)
            refine ⟨i + 1, hi, fun b hb => ?_, fun j b hj hb => ?_⟩
            · rcases List.mem_cons.mp hb with rfl | hb
              · exact hlt.le
              · exact hmin b hb
            · cases j with
              | zero =>
                  obtain rfl := Option.some.inj hb
                  exact hlt
              | succ j => exact hfirst j b (by omega) hb
          · obtain rfl := Option.some.inj ((if_neg hlt).symm.trans h)
            refine ⟨0, rfl, fun b hb => ?_, fun j b hj => absurd hj (Nat.not_lt_zero j)⟩
            rcases List.mem_cons.mp hb with rfl | hb
            · exact le_rfl
            · exact (not_lt.mp hlt).trans (hmin b hb)

/-! ### The greatest values -/

section Top

variable [LinearOrder ν]

/-- The order of `sorted(..., key=lambda kv: kv[1], reverse=True)`, which is stable. -/
def byValue (a b : κ × ν) : Bool := decide (b.2 ≤ a.2)

/-- The keys of the first `n` entries by decreasing value. -/
def top (d : Tally κ ν) (n : ℕ) : List κ := ((d.mergeSort byValue).take n).map Prod.fst

variable {d : Tally κ ν} {n : ℕ}

theorem byValue_eq_true {a b : κ × ν} : byValue a b = true ↔ b.2 ≤ a.2 := decide_eq_true_iff

theorem pairwise_byValue (d : Tally κ ν) :
    (d.mergeSort byValue).Pairwise fun a b => b.2 ≤ a.2 := by
  have htrans (a b c : κ × ν) (hab : byValue a b = true) (hbc : byValue b c = true) :
      byValue a c = true :=
    byValue_eq_true.mpr (le_trans (byValue_eq_true.mp hbc) (byValue_eq_true.mp hab))
  have htotal (a b : κ × ν) : (byValue a b || byValue b a) = true := by
    rw [Bool.or_eq_true, byValue_eq_true, byValue_eq_true]
    exact le_total b.2 a.2
  exact (List.pairwise_mergeSort htrans htotal d).imp byValue_eq_true.mp

theorem length_top (h : n ≤ d.length) : (top d n).length = n := by
  rw [top, List.length_map, List.length_take, List.length_mergeSort, min_eq_left h]

theorem mem_keys_of_mem_top {k : κ} (h : k ∈ top d n) : k ∈ keys d := by
  obtain ⟨e, he, rfl⟩ := List.mem_map.mp h
  exact List.mem_map_of_mem (List.mem_mergeSort.mp (List.mem_of_mem_take he))

theorem nodup_top (h : (keys d).Nodup) : (top d n).Nodup := by
  have hperm : ((d.mergeSort byValue).map Prod.fst).Perm (keys d) :=
    (List.mergeSort_perm d _).map Prod.fst
  have hsub : (top d n).Sublist ((d.mergeSort byValue).map Prod.fst) :=
    (List.take_sublist _ _).map Prod.fst
  exact (hperm.nodup_iff.mpr h).sublist hsub

/-- No key that is left out has a greater value than one of the top. -/
theorem le_of_mem_top {e e' : κ × ν} (hkeys : (keys d).Nodup) (he : e ∈ d) (he' : e' ∈ d)
    (hin : e.1 ∈ top d n) (hout : e'.1 ∉ top d n) : e'.2 ≤ e.2 := by
  have hsorted := pairwise_byValue d
  rw [← List.take_append_drop n (d.mergeSort byValue)] at hsorted
  have htake : e ∈ (d.mergeSort byValue).take n := by
    obtain ⟨f, hf, hfe⟩ := List.mem_map.mp hin
    have hfd : f ∈ d := List.mem_mergeSort.mp (List.mem_of_mem_take hf)
    rwa [List.inj_on_of_nodup_map hkeys hfd he hfe] at hf
  have hdrop : e' ∈ (d.mergeSort byValue).drop n := by
    have hmem : e' ∈ d.mergeSort byValue := List.mem_mergeSort.mpr he'
    rw [← List.take_append_drop n (d.mergeSort byValue)] at hmem
    rcases List.mem_append.mp hmem with hmem | hmem
    · exact absurd (List.mem_map_of_mem hmem) hout
    · exact hmem
  exact (List.pairwise_append.mp hsorted).2.2 e htake e' hdrop

end Top

end Tally

end TranscriptionApi.Lib
