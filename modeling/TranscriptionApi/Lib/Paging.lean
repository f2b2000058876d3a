import Mathlib.Data.List.Basic
import Mathlib.Data.List.Perm.Basic

/-!
Pages of a sorted list, each cut from a sort of its own.

A query with an order, a limit and an offset cuts one page from the rows in that
order. Where the order leaves rows equal the query may put them as it likes, and
the next query may put them in another way. The pages together have every row
once as long as the last row of a page and the first row of the next are never
equal. Once such a pair is, there are sorts that give one of them twice.
-/

namespace TranscriptionApi.Lib.Paging

variable {α : Type*} {le : α → α → Bool}

/-- The page with the number `m`. -/
def page (l : List α) (size m : ℕ) : List α := (l.drop (m * size)).take size

/-- The first `n` pages, the one with the number `m` cut from `sorts m`. -/
def pages (sorts : ℕ → List α) (size n : ℕ) : List α :=
  (List.range n).flatMap fun m => page (sorts m) size m

theorem pages_succ (sorts : ℕ → List α) (size n : ℕ) :
    pages sorts size (n + 1) = pages sorts size n ++ page (sorts n) size n := by
  rw [pages, List.range_succ, List.flatMap_append, List.flatMap_singleton]
  rfl

theorem pages_congr {sorts sorts' : ℕ → List α} {size n : ℕ}
    (h : ∀ m, page (sorts m) size m = page (sorts' m) size m) :
    pages sorts size n = pages sorts' size n := by
  simp only [pages, h]

/-- A page follows on the ones before it. -/
theorem take_append_page (l : List α) (size n : ℕ) :
    l.take (n * size) ++ page l size n = l.take ((n + 1) * size) := by
  rw [page, Nat.add_one_mul, List.take_add]

/-- Pages of one sort. -/
theorem pages_const (l : List α) (size n : ℕ) : pages (fun _ => l) size n = l.take (n * size) := by
  induction n with
  | zero => rw [Nat.zero_mul, List.take_zero]; rfl
  | succ n ih => rw [pages_succ, ih, take_append_page]

/-! ### Boundaries between unequal rows -/

/-- An order that compares any two rows. -/
structure Preorders (le : α → α → Bool) : Prop where
  trans : ∀ a b c, le a b = true → le b c = true → le a c = true
  total : ∀ a b, (le a b || le b a) = true

theorem Preorders.refl (hle : Preorders le) (a : α) : le a a = true := by
  simpa using hle.total a a

/-- The rows on the two sides of a boundary are not equal. -/
def Clean (le : α → α → Bool) (l : List α) (k : ℕ) : Prop :=
  ∀ a b, l[k]? = some a → l[k + 1]? = some b → le b a = false

/-- What is at most `pivot` comes first. -/
theorem filter_eq_take {l : List α} (hle : Preorders le)
    (hsorted : l.Pairwise fun a b => le a b = true) (pivot : α) :
    l.filter (fun a => le a pivot) = l.take (l.countP fun a => le a pivot) := by
  induction l with
  | nil => rfl
  | cons a l ih =>
      obtain ⟨ha, hl⟩ := List.pairwise_cons.mp hsorted
      by_cases hpivot : le a pivot = true
      · simp only [List.filter_cons, List.countP_cons, hpivot, if_true, List.take_succ_cons]
        exact congrArg (List.cons a) (ih hl)
      · have hnone : ∀ b ∈ a :: l, ¬le b pivot = true := by
          intro b hb hbpivot
          rcases List.mem_cons.mp hb with rfl | hb
          · exact hpivot hbpivot
          · exact hpivot (hle.trans a b pivot (ha b hb) hbpivot)
        rw [List.filter_eq_nil_iff.mpr hnone, List.countP_eq_zero.mpr hnone]
        rfl

/-- What is strictly before `pivot` comes first. -/
theorem filter_lt_eq_take {l : List α} (hle : Preorders le)
    (hsorted : l.Pairwise fun a b => le a b = true) (pivot : α) :
    l.filter (fun a => !le pivot a) = l.take (l.countP fun a => !le pivot a) := by
  induction l with
  | nil => rfl
  | cons a l ih =>
      obtain ⟨ha, hl⟩ := List.pairwise_cons.mp hsorted
      by_cases hpivot : le pivot a = true
      · have hall : ∀ b ∈ a :: l, ¬(!le pivot b) = true := by
          intro b hb
          rcases List.mem_cons.mp hb with rfl | hb
          · simp only [hpivot, Bool.not_true, Bool.false_eq_true, not_false_eq_true]
          · simp only [hle.trans pivot a b hpivot (ha b hb), Bool.not_true, Bool.false_eq_true,
              not_false_eq_true]
        rw [List.filter_eq_nil_iff.mpr hall, List.countP_eq_zero.mpr hall]
        rfl
      · rw [Bool.not_eq_true] at hpivot
        simp only [List.filter_cons, List.countP_cons, hpivot, Bool.not_false, if_true,
          List.take_succ_cons]
        exact congrArg (List.cons a) (ih hl)

/-- Where the rows that satisfy `p` come first, their number tells them from the
others. -/
theorem lt_countP_iff {l : List α} {p : α → Bool} (htake : l.filter p = l.take (l.countP p))
    {i : ℕ} {a : α} (ha : l[i]? = some a) : i < l.countP p ↔ p a = true := by
  have hfront : (l.take (l.countP p)).filter p = l.take (l.countP p) := by
    rw [← htake, List.filter_filter]
    simp only [Bool.and_self]
  have hback : (l.drop (l.countP p)).filter p = [] := by
    have hsplit : (l.take (l.countP p) ++ l.drop (l.countP p)).filter p = l.take (l.countP p) := by
      rw [List.take_append_drop, htake]
    rwa [List.filter_append, hfront, List.append_right_eq_self] at hsplit
  constructor
  · intro hi
    have hmem : a ∈ l.filter p := by
      rw [htake]
      exact List.mem_of_getElem? ((List.getElem?_take_of_lt hi).trans ha)
    exact (List.mem_filter.mp hmem).2
  · intro hp
    by_contra hi
    have hmem : a ∈ l.drop (l.countP p) := by
      refine List.mem_of_getElem? (i := i - l.countP p) ?_
      rw [List.getElem?_drop, Nat.add_sub_cancel' (Nat.not_lt.mp hi)]
      exact ha
    exact List.filter_eq_nil_iff.mp hback a hmem hp

/-- What is at most the row before a clean boundary stands before it. -/
theorem filter_eq_take_of_clean {l : List α} {k : ℕ} {a b : α} (hle : Preorders le)
    (hsorted : l.Pairwise fun a b => le a b = true) (ha : l[k]? = some a)
    (hb : l[k + 1]? = some b) (hba : le b a = false) :
    (l.filter fun x => le x a) = l.take (k + 1) := by
  have htake := filter_eq_take hle hsorted a
  have hlow : k < l.countP fun x => le x a := (lt_countP_iff htake ha).mpr (hle.refl a)
  have hhigh : ¬k + 1 < l.countP fun x => le x a := by
    rw [lt_countP_iff htake hb, hba]
    exact Bool.false_ne_true
  rw [htake, show (l.countP fun x => le x a) = k + 1 by omega]

/-- Two sorts agree on the rows before a clean boundary. -/
theorem take_perm_of_clean {l l' : List α} {k : ℕ} (hle : Preorders le)
    (hl : l.Pairwise fun a b => le a b = true) (hl' : l'.Pairwise fun a b => le a b = true)
    (hperm : l'.Perm l) (hclean : Clean le l k) : (l'.take (k + 1)).Perm (l.take (k + 1)) := by
  by_cases hk : k + 1 < l.length
  · have ha : l[k]? = some l[k] := List.getElem?_eq_getElem _
    have hb : l[k + 1]? = some l[k + 1] := List.getElem?_eq_getElem hk
    have htake := filter_eq_take_of_clean hle hl ha hb (hclean _ _ ha hb)
    have hfilter : (l'.filter fun x => le x l[k]).Perm (l.take (k + 1)) :=
      htake ▸ hperm.filter _
    have hlen : (l'.countP fun x => le x l[k]) = k + 1 := by
      rw [List.countP_eq_length_filter, hfilter.length_eq, List.length_take]
      omega
    have htake' := filter_eq_take hle hl' l[k]
    rw [hlen] at htake'
    rwa [← htake']
  · have hlen := hperm.length_eq
    rw [List.take_of_length_le (by omega), List.take_of_length_le (by omega)]
    exact hperm

/-- With clean boundaries the pages have the rows of any one sort. -/
theorem pages_perm_of_clean {l : List α} {sorts : ℕ → List α} {size : ℕ} (hle : Preorders le)
    (hsize : 0 < size) (hl : l.Pairwise fun a b => le a b = true)
    (hsorts : ∀ m, (sorts m).Pairwise (fun a b => le a b = true) ∧ (sorts m).Perm l)
    (hclean : ∀ m, 0 < m → Clean le l (m * size - 1)) (n : ℕ) :
    (pages sorts size n).Perm (l.take (n * size)) := by
  have hbefore (i m : ℕ) : ((sorts i).take (m * size)).Perm (l.take (m * size)) := by
    rcases Nat.eq_zero_or_pos m with rfl | hm
    · rw [Nat.zero_mul, List.take_zero, List.take_zero]
    · have hpos : m * size - 1 + 1 = m * size := Nat.sub_add_cancel (Nat.mul_pos hm hsize)
      rw [← hpos]
      exact take_perm_of_clean hle hl (hsorts i).1 (hsorts i).2 (hclean m hm)
  induction n with
  | zero => rw [Nat.zero_mul, List.take_zero]; exact .nil
  | succ n ih =>
      have hpage : (page (sorts n) size n).Perm (page l size n) := by
        have hnext := hbefore n (n + 1)
        rw [← take_append_page, ← take_append_page] at hnext
        have happ : (l.take (n * size) ++ page (sorts n) size n).Perm
            (l.take (n * size) ++ page l size n) :=
          ((hbefore n n).symm.append_right _).trans hnext
        exact (List.perm_append_left_iff _).mp happ
      rw [pages_succ, ← take_append_page]
      exact ih.append hpage

/-! ### Groups of equal rows -/

/-- The rows equal to `a` are on both sides of the boundary `k`: fewer than `k` rows
come before all of them, and more than `k` rows come no later than they do. -/
def Straddles (le : α → α → Bool) (rows : List α) (a : α) (k : ℕ) : Prop :=
  rows.countP (fun b => !le a b) < k ∧ k < rows.countP fun b => le b a

theorem Straddles.perm {rows rows' : List α} {a : α} {k : ℕ} (hperm : rows.Perm rows')
    (h : Straddles le rows a k) : Straddles le rows' a k := by
  rw [Straddles, ← hperm.countP_eq, ← hperm.countP_eq]
  exact h

/-- The boundaries where equal rows meet are the ones inside a group of equal rows. -/
theorem not_clean_iff {l : List α} {k : ℕ} (hle : Preorders le)
    (hsorted : l.Pairwise fun a b => le a b = true) :
    ¬Clean le l k ↔ ∃ a ∈ l, Straddles le l a (k + 1) := by
  have hbelow (pivot : α) := filter_eq_take hle hsorted pivot
  have hbefore (pivot : α) := filter_lt_eq_take hle hsorted pivot
  constructor
  · intro hclean
    simp only [Clean, not_forall, Bool.not_eq_false] at hclean
    obtain ⟨a, b, ha, hb, hba⟩ := hclean
    have hlow : ¬k < l.countP fun x => !le a x := by
      rw [lt_countP_iff (hbefore a) ha, hle.refl]
      exact Bool.false_ne_true
    have hhigh : k + 1 < l.countP fun x => le x a := (lt_countP_iff (hbelow a) hb).mpr hba
    exact ⟨a, List.mem_of_getElem? ha, by omega, hhigh⟩
  · rintro ⟨a, -, hlow, hhigh⟩ hclean
    have hlen : l.countP (fun b => le b a) ≤ l.length := List.countP_le_length
    have hk : l[k]? = some l[k] := List.getElem?_eq_getElem _
    have hk1 : l[k + 1]? = some l[k + 1] := List.getElem?_eq_getElem _
    have hnext : le l[k + 1] a = true := (lt_countP_iff (hbelow a) hk1).mp hhigh
    have hlast : le a l[k] = true := by
      have hnot := (lt_countP_iff (hbefore a) hk).not.mp (by omega)
      simpa using hnot
    have htie := hclean l[k] l[k + 1] hk hk1
    rw [hle.trans _ _ _ hnext hlast] at htie
    cases htie

/-! ### A boundary between equal rows -/

/-- A page before a boundary knows only the rows before it. -/
theorem page_congr_take {l l' : List α} {size m i : ℕ} (hi : i < m)
    (h : l.take (m * size) = l'.take (m * size)) : page l size i = page l' size i := by
  have hle : i * size + size ≤ m * size := by
    rw [← Nat.add_one_mul]
    exact Nat.mul_le_mul_right size hi
  have hcut (k : List α) : page k size i = ((k.take (m * size)).drop (i * size)).take size := by
    rw [page, List.drop_take, List.take_take, Nat.min_eq_left (by omega)]
  rw [hcut, hcut, h]

/-- A page behind a boundary knows only the rows behind it. -/
theorem page_congr_drop {l l' : List α} {size m i : ℕ} (hi : m ≤ i)
    (h : l.drop (m * size) = l'.drop (m * size)) : page l size i = page l' size i := by
  have hle : m * size ≤ i * size := Nat.mul_le_mul_right size hi
  have hcut (k : List α) :
      page k size i = ((k.drop (m * size)).drop (i * size - m * size)).take size := by
    rw [page, List.drop_drop, Nat.add_sub_cancel' hle]
  rw [hcut, hcut, h]

theorem exists_tie_of_not_clean {l : List α} {k : ℕ} (h : ¬Clean le l k) :
    ∃ init a b rest, l = init ++ a :: b :: rest ∧ init.length = k ∧ le b a = true := by
  simp only [Clean, not_forall, Bool.not_eq_false] at h
  obtain ⟨a, b, ha, hb, hba⟩ := h
  obtain ⟨hk, rfl⟩ := List.getElem?_eq_some_iff.mp ha
  obtain ⟨hk1, rfl⟩ := List.getElem?_eq_some_iff.mp hb
  refine ⟨l.take k, _, _, l.drop (k + 2), ?_, List.length_take_of_le (by omega), hba⟩
  rw [List.getElem_cons_drop, List.getElem_cons_drop, List.take_append_drop]

/-- Neighbours that are equal may change places. -/
theorem pairwise_swap {init rest : List α} {a b : α}
    (hsorted : (init ++ a :: b :: rest).Pairwise fun x y => le x y = true) (hba : le b a = true) :
    (init ++ b :: a :: rest).Pairwise fun x y => le x y = true := by
  simp only [List.pairwise_append, List.pairwise_cons, List.mem_cons] at hsorted ⊢
  obtain ⟨hinit, ⟨ha, hb, hrest⟩, hcross⟩ := hsorted
  refine ⟨hinit, ⟨?_, fun y hy => ha y (.inr hy), hrest⟩, ?_⟩
  · rintro y (rfl | hy)
    · exact hba
    · exact hb y hy
  · rintro x hx y (rfl | rfl | hy)
    · exact hcross x hx _ (.inr (.inl rfl))
    · exact hcross x hx _ (.inl rfl)
    · exact hcross x hx y (.inr (.inr hy))

/-- Two sorts that differ in which of two equal rows stands before a boundary. The
pages cut from one of them before it and from the other one behind it have one of
the two rows twice. -/
theorem pages_of_tie {init rest : List α} {a b : α} {size m : ℕ} (n : ℕ)
    (hinit : init.length + 1 = m * size) :
    pages (fun i => if i < m then init ++ a :: b :: rest else init ++ b :: a :: rest) size n =
      (init ++ a :: a :: rest).take (n * size) := by
  have htake (x : α) (l : List α) : (init ++ x :: l).take (m * size) = init ++ [x] := by
    rw [List.append_cons]
    exact List.take_left' (by rw [List.length_append, ← hinit]; rfl)
  have hdrop (x : α) (l : List α) : (init ++ x :: l).drop (m * size) = l := by
    rw [List.append_cons]
    exact List.drop_left' (by rw [List.length_append, ← hinit]; rfl)
  rw [← pages_const]
  refine pages_congr fun i => ?_
  split
  · rename_i hi
    exact page_congr_take hi (by rw [htake, htake])
  · rename_i hi
    exact page_congr_drop (Nat.not_lt.mp hi) (by rw [hdrop, hdrop])

end TranscriptionApi.Lib.Paging
