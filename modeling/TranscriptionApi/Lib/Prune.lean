import TranscriptionApi.Lib.FileTree

/-!
Removing files, and after each of them the directories above it that are left
empty, up to a fixed number of levels.

`Pruned` compares the tree before with the tree after. Which directories are gone
is said of the tree after alone: those close above a removed file that have
nothing in them. This is what makes it compose. A directory that was full at one
removal and is empty in the end has lost a child in between, to a removal that it
is close above as well, as long as all the removed files lie equally deep.
-/

namespace TranscriptionApi.Lib

/-- `d` is one of the `k` directories next above `q`. -/
def Above (k : ℕ) (d q : Path) : Prop := d <+: q ∧ d.length < q.length ∧ q.length ≤ d.length + k

theorem not_above_zero (d q : Path) : ¬Above 0 d q := by
  rintro ⟨-, hlt, hle⟩
  omega

/-- One level more is one directory more. -/
theorem above_succ {k : ℕ} {d d' q : Path} (hd : d <+: q) (hlength : d.length + k + 1 = q.length) :
    Above (k + 1) d' q ↔ Above k d' q ∨ d' = d := by
  constructor
  · rintro ⟨hup, hlt, hle⟩
    by_cases hk : q.length ≤ d'.length + k
    · exact .inl ⟨hup, hlt, hk⟩
    · have hsame : d'.length = d.length := by omega
      exact .inr ((List.prefix_of_prefix_length_le hup hd hsame.le).eq_of_length hsame)
  · rintro (⟨hup, hlt, hle⟩ | rfl)
    · exact ⟨hup, hlt, by omega⟩
    · exact ⟨hd, by omega, by omega⟩

namespace FileTree

variable {β : Type}

/-- `t'` is `t` after an attempt to remove the directory `d`. -/
def RmdirTried (t : FileTree β) (d : Path) (t' : FileTree β) : Prop :=
  ∀ p, t'.node p = if p = d ∧ t.isDir d = true ∧ t.isEmptyDir d = true then none else t.node p

/-- `t'` is `t` without the files of the list, which are at depth `n`, and without the
directories among the `k` next above one of them that have nothing in them. -/
structure Pruned (k n : ℕ) (t : FileTree β) (removed : List Path) (t' : FileTree β) : Prop where
  depth : ∀ q ∈ removed, q.length = n
  file? : ∀ q, t'.file? q = if q ∈ removed then none else t.file? q
  isDir : ∀ d, t'.isDir d = true → t.isDir d = true
  gone : ∀ d, t.isDir d = true →
    (t'.isDir d = false ↔ (∃ q ∈ removed, Above k d q) ∧ ∀ c, t'.node (d ++ [c]) = none)

variable {k n : ℕ} {t t₁ t' : FileTree β} {removed others : List Path} {d q : Path}

theorem pruned_nil (k n : ℕ) (t : FileTree β) : Pruned k n t [] t where
  depth := fun _ h => absurd h List.not_mem_nil
  file? := fun _ => (if_neg List.not_mem_nil).symm
  isDir := fun _ h => h
  gone := by
    intro d hd
    rw [hd]
    exact ⟨fun h => (nomatch h), fun ⟨⟨_, hq, _⟩, _⟩ => absurd hq List.not_mem_nil⟩

namespace RmdirTried

theorem of_ok {p : Path} {c : String} (h : t.rmdir p c = .ok t') : RmdirTried t (p ++ [c]) t' := by
  obtain ⟨hdir, hempty, -, rfl⟩ := rmdir_ok h
  intro q
  rw [node_removeNode]
  simp only [hdir, hempty, and_self, and_true]

theorem of_error {p : Path} {c : String} {e : Errno} (h : t.rmdir p c = .error e) :
    RmdirTried t (p ++ [c]) t := by
  intro q
  rw [if_neg]
  rintro ⟨-, hdir, hempty⟩
  obtain ⟨t', hok⟩ := rmdir_isOk hdir hempty
  cases h.symm.trans hok

theorem node_of_ne (h : RmdirTried t d t') (hne : q ≠ d) : t'.node q = t.node q := by
  rw [h q, if_neg fun hcase => hne hcase.1]

theorem isDir (h : RmdirTried t d t') (hq : t'.isDir q = true) : t.isDir q = true := by
  rw [isDir_iff, h q] at hq
  split at hq
  · cases hq
  · exact (t.isDir_iff).mpr hq

theorem file? (h : RmdirTried t d t') (q : Path) : t'.file? q = t.file? q := by
  rw [FileTree.file?, FileTree.file?, h q]
  split
  · rename_i hcase
    rw [hcase.1, (t.isDir_iff).mp hcase.2.1]
    rfl
  · rfl

theorem isDir_eq_false_iff (h : RmdirTried t d t') (hd : t.isDir d = true) :
    t'.isDir d = false ↔ ∀ c, t'.node (d ++ [c]) = none := by
  have hchildren : (∀ c, t'.node (d ++ [c]) = none) ↔ t.isEmptyDir d = true := by
    rw [isEmptyDir_iff]
    exact forall_congr' fun c => by rw [h.node_of_ne (by simp)]
  rw [hchildren]
  cases hempty : t.isEmptyDir d with
  | true =>
      have hnone : t'.node d = none := by rw [h d, if_pos ⟨rfl, hd, hempty⟩]
      exact iff_of_true (by rw [FileTree.isDir, hnone]) rfl
  | false =>
      have hkept : t'.node d = t.node d := by
        rw [h d, if_neg fun hcase => by rw [hempty] at hcase; cases hcase.2.2]
      have hdir : t'.isDir d = true := by rw [FileTree.isDir, hkept]; exact hd
      rw [hdir]
      exact iff_of_false Bool.noConfusion Bool.noConfusion

end RmdirTried

namespace Pruned

/-- What is gone is a removed file or close above one. -/
theorem exists_removed (h : Pruned k n t removed t') (hnode : (t.node q).isSome = true)
    (hgone : t'.node q = none) : ∃ r ∈ removed, q <+: r := by
  cases hn : t.node q with
  | none =>
      rw [hn] at hnode
      cases hnode
  | some n =>
      cases n with
      | dir =>
          have hnot : t'.isDir q = false := by rw [FileTree.isDir, hgone]
          obtain ⟨⟨r, hr, habove⟩, -⟩ := (h.gone q ((t.isDir_iff).mpr hn)).mp hnot
          exact ⟨r, hr, habove.1⟩
      | file content mtime =>
          have hfile := h.file? q
          rw [FileTree.file?, hgone, (t.file?_eq_some_iff).mpr hn] at hfile
          split at hfile
          · rename_i hq
            exact ⟨q, hq, List.prefix_refl q⟩
          · cases hfile

theorem trans (h : Pruned k n t removed t₁) (h' : Pruned k n t₁ others t') :
    Pruned k n t (removed ++ others) t' where
  depth := fun q hq => (List.mem_append.mp hq).elim (h.depth q) (h'.depth q)
  file? := by
    intro q
    rw [h'.file? q, h.file? q]
    by_cases hq : q ∈ others
    · rw [if_pos hq, if_pos (List.mem_append_right _ hq)]
    · simp [hq]
  isDir := fun d hd => h.isDir d (h'.isDir d hd)
  gone := by
    intro d hd
    cases hd₁ : t₁.isDir d with
    | false =>
        have hd' : t'.isDir d = false := by
          rw [Bool.eq_false_iff]
          exact fun hd' => Bool.eq_false_iff.mp hd₁ (h'.isDir d hd')
        obtain ⟨⟨q, hq, habove⟩, -⟩ := (h.gone d hd).mp hd₁
        exact ⟨fun _ => ⟨⟨q, List.mem_append_left _ hq, habove⟩, t'.child_eq_none hd'⟩,
          fun _ => hd'⟩
    | true =>
        rw [h'.gone d hd₁]
        refine and_congr_left fun hempty => ⟨?_, ?_⟩
        · rintro ⟨q, hq, habove⟩
          exact ⟨q, List.mem_append_right _ hq, habove⟩
        · rintro ⟨q, hq, habove⟩
          rcases List.mem_append.mp hq with hq | hq
          · -- a child was there, and has gone with one of the others
            have hfull : ¬∀ c, t₁.node (d ++ [c]) = none := fun hempty₁ => by
              have hnot := (h.gone d hd).mpr ⟨⟨q, hq, habove⟩, hempty₁⟩
              rw [hd₁] at hnot
              cases hnot
            obtain ⟨c, hc⟩ := not_forall.mp hfull
            obtain ⟨r, hr, hup⟩ :=
              h'.exists_removed (Option.isSome_iff_ne_none.mpr hc) (hempty c)
            have hlength := hup.length_le
            have hdepth : r.length = q.length := (h'.depth r hr).trans (h.depth q hq).symm
            rw [List.length_append, List.length_singleton] at hlength
            exact ⟨r, hr, (List.prefix_append d [c]).trans hup, hlength, hdepth ▸ habove.2.2⟩
          · exact ⟨q, hq, habove⟩

/-- `unlink` leaves the directories alone. -/
theorem of_unlink {p : Path} {c : String} (h : t.unlink p c = .ok t') :
    Pruned 0 (p.length + 1) t [p ++ [c]] t' where
  depth := by
    intro q hq
    rw [List.mem_singleton.mp hq, List.length_append, List.length_singleton]
  file? := by
    intro q
    simp only [file?_unlink h, List.mem_singleton]
  isDir := fun d hd => isDir_unlink h ▸ hd
  gone := by
    intro d hd
    rw [isDir_unlink h, hd]
    exact ⟨fun hnot => (nomatch hnot),
      fun ⟨⟨_, _, habove⟩, _⟩ => absurd habove (not_above_zero _ _)⟩

/-- Then the next directory up is taken away if it is empty. -/
theorem rmdir (h : Pruned k n t [q] t₁) (htried : RmdirTried t₁ d t') (hd : d <+: q)
    (hlength : d.length + k + 1 = q.length) : Pruned (k + 1) n t [q] t' := by
  refine ⟨h.depth, fun p => (htried.file? p).trans (h.file? p),
    fun p hp => h.isDir p (htried.isDir hp), fun p hp => ?_⟩
  have hgone := h.gone p hp
  simp only [List.mem_singleton, exists_eq_left] at hgone ⊢
  rw [above_succ hd hlength]
  by_cases hpd : p = d
  · subst hpd
    have hfar : ¬Above k p q := fun habove => by
      have := habove.2.2
      omega
    have hp₁ : t₁.isDir p = true := by
      rw [← Bool.not_eq_false, hgone]
      exact fun hcase => hfar hcase.1
    rw [and_iff_right (.inr rfl)]
    exact htried.isDir_eq_false_iff hp₁
  · have hsame : t'.isDir p = t₁.isDir p := by
      rw [FileTree.isDir, FileTree.isDir, htried.node_of_ne hpd]
    rw [hsame, hgone, or_iff_left hpd]
    refine and_congr_right fun habove => forall_congr' fun c => ?_
    have hne : p ++ [c] ≠ d := by
      rintro rfl
      have := habove.2.2
      rw [List.length_append, List.length_singleton] at hlength
      omega
    rw [htried.node_of_ne hne]

end Pruned

end FileTree

end TranscriptionApi.Lib
