import TranscriptionApi.Lib.Prune
import TranscriptionApi.Pipeline.PurgeOutcome

/-!
A pass of `purge_expired` that nothing gets in the way of, over a tree whose
entries are regular files.

The two `_safe_rmdir` after an `unlink` are an attempt on the two directories next
above the file, so the loop prunes the tree it was listed from. What is left
follows from this: the files by the list of those that were removed, and a
directory by whether an entry of it is in that list and nothing is left in it.
-/

namespace TranscriptionApi.Pipeline

open Lib

/-- No call of the pass fails. -/
structure Pass.Undisturbed (pass : Pass) : Prop extends pass.Faultless where
  rmdir : ∀ p, pass.rmdirFault p = none

section Loop

variable {base : Path} {pass : Pass} {t t' : FileTree Bytes} {file p : Path}

theorem rmdirTried_safeRmdir (hrmdir : pass.rmdirFault p = none) (hp : p ≠ []) :
    t.RmdirTried p (safeRmdir pass t p) := by
  obtain ⟨p, c, rfl⟩ := (List.eq_nil_or_concat' p).resolve_left hp
  cases hcall : t.rmdir p c with
  | error e =>
      have hsame : safeRmdir pass t (p ++ [c]) = t := by simp [safeRmdir, hrmdir, hcall]
      rw [hsame]
      exact .of_error hcall
  | ok t' =>
      have hgone : safeRmdir pass t (p ++ [c]) = t' := by simp [safeRmdir, hrmdir, hcall]
      rw [hgone]
      exact .of_ok hcall

/-- One removal. -/
theorem pruned_purgeEntry (hbase : base ≠ []) (hrmdir : ∀ p, pass.rmdirFault p = none)
    (h : purgeEntry base pass t file = .ok (some t')) :
    t.Pruned 2 (base.length + 3) [file] t' := by
  obtain ⟨hlayout, -, t₁, hunlink, rfl⟩ := purgeEntry_deleted h
  have hlength := length_of_layout hbase hlayout
  have hhash : file.dropLast.length = base.length + 2 := by
    rw [List.length_dropLast, hlength]
    rfl
  have huser : file.dropLast.dropLast.length = base.length + 1 := by
    rw [List.length_dropLast, hhash]
    rfl
  have hunlinked := FileTree.Pruned.of_unlink hunlink
  rw [dropLast_of_isExpectedLayout hlayout, hhash] at hunlinked
  refine (hunlinked.rmdir (rmdirTried_safeRmdir (hrmdir _) ?_) (List.dropLast_prefix file)
    (by omega)).rmdir (rmdirTried_safeRmdir (hrmdir _) ?_)
    ((List.dropLast_prefix _).trans (List.dropLast_prefix file)) (by omega)
  · exact List.ne_nil_of_length_pos (by omega)
  · exact List.ne_nil_of_length_pos (by omega)

/-- The whole list, whatever `stat` and `unlink` answer. -/
theorem pruned_purgeLoop (hbase : base ≠ []) (hrmdir : ∀ p, pass.rmdirFault p = none)
    (t : FileTree Bytes) (files : List Path) :
    t.Pruned 2 (base.length + 3) (purgeLoop base pass t files).removed
      (purgeLoop base pass t files).tree := by
  induction files generalizing t with
  | nil => exact FileTree.pruned_nil _ _ t
  | cons file files ih =>
      unfold purgeLoop
      cases hentry : purgeEntry base pass t file with
      | error e => exact FileTree.pruned_nil _ _ t
      | ok kept =>
          cases kept with
          | none => exact ih t
          | some t' => exact (pruned_purgeEntry hbase hrmdir hentry).trans (ih t')

theorem pruned_purgeExpired (hbase : base ≠ []) (hrmdir : ∀ p, pass.rmdirFault p = none)
    (t : FileTree Bytes) :
    t.Pruned 2 (base.length + 3) (purgeExpired base pass t).removed
      (purgeExpired base pass t).tree := by
  unfold purgeExpired
  split
  · exact pruned_purgeLoop hbase hrmdir t _
  · exact FileTree.pruned_nil _ _ t

theorem purgeLoop_tree {files : List Path} (h : (purgeLoop base pass t files).removed = []) :
    (purgeLoop base pass t files).tree = t := by
  induction files with
  | nil => rfl
  | cons file files ih =>
      unfold purgeLoop at h ⊢
      cases hentry : purgeEntry base pass t file with
      | error e => rfl
      | ok kept =>
          rw [hentry] at h
          cases kept with
          | none => exact ih h
          | some t' => cases h

/-- A pass that removes no file leaves the tree as it is. -/
theorem purgeExpired_tree (h : (purgeExpired base pass t).removed = []) :
    (purgeExpired base pass t).tree = t := by
  unfold purgeExpired at h ⊢
  split
  · rename_i hbase
    rw [if_pos hbase] at h
    exact purgeLoop_tree h
  · rfl

end Loop

/-! ### What the pass is for -/

section Contract

variable (base : Path) (pass : Pass)

/-- `<base>/<a>/<b>/result.json` is a regular file that is older than the TTL. -/
def Stale (t : FileTree Bytes) (a b : String) : Prop :=
  ∃ content mtime, t.file? (base ++ [a, b, resultFilename]) = some (content, mtime) ∧
    mtime < pass.now - seconds pass.ttlSeconds

/-- A directory that was there is gone. -/
def DirRemoved (t : FileTree Bytes) (d : Path) : Prop :=
  t.isDir d = true ∧ (purgeExpired base pass t).tree.isDir d = false

structure SweepContract (t : FileTree Bytes) : Prop where
  removed : ∀ a b, Stale base pass t a b →
    (purgeExpired base pass t).tree.file? (base ++ [a, b, resultFilename]) = none
  kept : ∀ q, (∀ a b, q = base ++ [a, b, resultFilename] → ¬Stale base pass t a b) →
    (purgeExpired base pass t).tree.file? q = t.file? q
  hashDir : ∀ a b, DirRemoved base pass t (base ++ [a, b]) ↔
    Stale base pass t a b ∧ ∀ c, (purgeExpired base pass t).tree.node (base ++ [a, b, c]) = none
  userDir : ∀ a, DirRemoved base pass t (base ++ [a]) ↔
    (∃ b, Stale base pass t a b) ∧ ∀ b, (purgeExpired base pass t).tree.node (base ++ [a, b]) = none
  otherDir : ∀ d, (∀ a, d ≠ base ++ [a]) → (∀ a b, d ≠ base ++ [a, b]) →
    (purgeExpired base pass t).tree.isDir d = t.isDir d
  baseDir : (purgeExpired base pass t).tree.isDir base = t.isDir base
  noNewDir : ∀ d, (purgeExpired base pass t).tree.isDir d = true → t.isDir d = true
  /-- the number is that of the files that are gone -/
  returned : ∃ gone : List Path, gone.Nodup ∧
    (∀ q, q ∈ gone ↔ ∃ a b, q = base ++ [a, b, resultFilename] ∧ Stale base pass t a b) ∧
    (purgeExpired base pass t).returned = .ok gone.length
  /-- a second pass at the same time, in whatever order it lists the candidates -/
  again : ∀ pass' : Pass, pass'.Undisturbed → pass'.now = pass.now →
    pass'.ttlSeconds = pass.ttlSeconds →
    (purgeExpired base pass' (purgeExpired base pass t).tree).tree =
        (purgeExpired base pass t).tree ∧
      (purgeExpired base pass' (purgeExpired base pass t).tree).returned = .ok 0

variable {base pass} {t : FileTree Bytes} {a b : String} {q d : Path}

theorem isExpectedLayout_iff (hbase : base ≠ []) :
    isExpectedLayout base q = true ↔ ∃ a b, q = base ++ [a, b, resultFilename] := by
  constructor
  · intro hlayout
    have hlength := length_of_layout hbase hlayout
    have hfile := dropLast_of_isExpectedLayout hlayout
    simp only [isExpectedLayout, Bool.and_eq_true, decide_eq_true_eq] at hlayout
    obtain ⟨p, a, hp⟩ := (List.eq_nil_or_concat' q.dropLast.dropLast).resolve_left
      (List.ne_nil_of_length_pos (by simp only [List.length_dropLast]; omega))
    obtain ⟨p', b, hp'⟩ := (List.eq_nil_or_concat' q.dropLast).resolve_left
      (List.ne_nil_of_length_pos (by simp only [List.length_dropLast]; omega))
    rw [hp', List.dropLast_concat] at hp
    rw [← hfile, hp', hp, List.dropLast_concat, List.dropLast_concat, List.dropLast_concat]
      at hlayout
    refine ⟨a, b, ?_⟩
    rw [← hfile, hp', hp, hlayout.2]
    simp
  · rintro ⟨a, b, rfl⟩
    simp [isExpectedLayout, List.dropLast_append_of_ne_nil]

theorem expired_iff (hbase : base ≠ []) : Expired base pass t q ↔
    ∃ a b, q = base ++ [a, b, resultFilename] ∧ Stale base pass t a b := by
  rw [Expired, isExpectedLayout_iff hbase]
  constructor
  · rintro ⟨⟨a, b, rfl⟩, hold⟩
    exact ⟨a, b, rfl, hold⟩
  · rintro ⟨a, b, rfl, hold⟩
    exact ⟨⟨a, b, rfl⟩, hold⟩

theorem above_entry {c : String} :
    Above 2 d (base ++ [a, b, c]) ↔ d = base ++ [a, b] ∨ d = base ++ [a] := by
  have huser : base ++ [a] <+: base ++ [a, b, c] := ⟨[b, c], by simp⟩
  have hhash : base ++ [a, b] <+: base ++ [a, b, c] := ⟨[c], by simp⟩
  rw [above_succ huser (by simp), above_succ hhash (by simp),
    or_iff_right (not_above_zero d _)]

/-- The directories of an entry that is there are there. -/
theorem isDir_of_stale (h : Stale base pass t a b) :
    t.isDir (base ++ [a, b]) = true ∧ t.isDir (base ++ [a]) = true := by
  obtain ⟨content, mtime, hfile, -⟩ := h
  have hnode : (t.node (base ++ [a, b] ++ [resultFilename])).isSome = true := by
    rw [List.append_assoc]
    exact (t.file?_eq_some_iff).mp hfile ▸ rfl
  have hhash := t.isDir_dropLast hnode
  rw [List.dropLast_concat] at hhash
  have happ : base ++ [a, b] = base ++ [a] ++ [b] := by simp
  exact ⟨hhash, t.isDir_of_append [b] (happ ▸ hhash)⟩

/-- The entries of `t` are regular files. -/
def FilesOnly (base : Path) (t : FileTree Bytes) : Prop :=
  ∀ a b, t.isDir (base ++ [a, b, resultFilename]) = false

/-- What such a pass removes, and that it gets to its end. -/
theorem removed_of_undisturbed (hbase : base ≠ []) (hpass : pass.Undisturbed)
    (hfiles : FilesOnly base t) : (purgeExpired base pass t).error = none ∧
      ∀ q, q ∈ (purgeExpired base pass t).removed ↔
        ∃ a b, q = base ++ [a, b, resultFilename] ∧ Stale base pass t a b := by
  have hdir : ∀ q, isExpectedLayout base q = true → t.isDir q = false := by
    intro q hq
    obtain ⟨a, b, rfl⟩ := (isExpectedLayout_iff hbase).mp hq
    exact hfiles a b
  obtain ⟨herror, hexpired⟩ := purgeExpired_faultless hpass.toFaultless hdir
  exact ⟨herror, fun q => (hexpired q).trans (expired_iff hbase)⟩

/-- A directory is removed if an entry of it is and nothing is left in it. -/
theorem dirRemoved_iff (hbase : base ≠ []) (hpass : pass.Undisturbed)
    (hfiles : FilesOnly base t) : DirRemoved base pass t d ↔
      (∃ a b, Stale base pass t a b ∧ (d = base ++ [a, b] ∨ d = base ++ [a])) ∧
        ∀ c, (purgeExpired base pass t).tree.node (d ++ [c]) = none := by
  have hremoved := (removed_of_undisturbed hbase hpass hfiles).2
  have hpruned := pruned_purgeExpired hbase hpass.rmdir t
  have habove : (∃ q ∈ (purgeExpired base pass t).removed, Above 2 d q) ↔
      ∃ a b, Stale base pass t a b ∧ (d = base ++ [a, b] ∨ d = base ++ [a]) := by
    constructor
    · rintro ⟨q, hq, habove⟩
      obtain ⟨a, b, rfl, hstale⟩ := (hremoved q).mp hq
      exact ⟨a, b, hstale, above_entry.mp habove⟩
    · rintro ⟨a, b, hstale, hd⟩
      exact ⟨_, (hremoved _).mpr ⟨a, b, rfl, hstale⟩, above_entry.mpr hd⟩
  rw [← habove]
  constructor
  · rintro ⟨hd, hgone⟩
    exact (hpruned.gone d hd).mp hgone
  · rintro ⟨hcause, hempty⟩
    have hd : t.isDir d = true := by
      obtain ⟨a, b, hstale, rfl | rfl⟩ := habove.mp hcause
      · exact (isDir_of_stale hstale).1
      · exact (isDir_of_stale hstale).2
    exact ⟨hd, (hpruned.gone d hd).mpr ⟨hcause, hempty⟩⟩

theorem hashDir_removed_iff (hbase : base ≠ []) (hpass : pass.Undisturbed)
    (hfiles : FilesOnly base t) : DirRemoved base pass t (base ++ [a, b]) ↔
      Stale base pass t a b ∧
        ∀ c, (purgeExpired base pass t).tree.node (base ++ [a, b, c]) = none := by
  rw [dirRemoved_iff hbase hpass hfiles]
  simp [List.append_assoc]

theorem userDir_removed_iff (hbase : base ≠ []) (hpass : pass.Undisturbed)
    (hfiles : FilesOnly base t) : DirRemoved base pass t (base ++ [a]) ↔
      (∃ b, Stale base pass t a b) ∧
        ∀ b, (purgeExpired base pass t).tree.node (base ++ [a, b]) = none := by
  rw [dirRemoved_iff hbase hpass hfiles]
  simp [List.append_assoc]

/-- No other directory is removed. -/
theorem isDir_of_undisturbed (hbase : base ≠ []) (hpass : pass.Undisturbed)
    (hfiles : FilesOnly base t) (huser : ∀ a, d ≠ base ++ [a])
    (hhash : ∀ a b, d ≠ base ++ [a, b]) :
    (purgeExpired base pass t).tree.isDir d = t.isDir d := by
  rw [Bool.eq_iff_iff]
  refine ⟨(purged_purgeExpired base pass t).isDir d, fun hd => ?_⟩
  by_contra hnot
  have hremoved : DirRemoved base pass t d := ⟨hd, by simpa using hnot⟩
  obtain ⟨⟨a, b, -, rfl | rfl⟩, -⟩ := (dirRemoved_iff hbase hpass hfiles).mp hremoved
  · exact hhash a b rfl
  · exact huser a rfl

/-- A pass over a tree in which nothing is stale does nothing. -/
theorem noop_of_fresh (hbase : base ≠ []) (hpass : pass.Undisturbed) (hfiles : FilesOnly base t)
    (hfresh : ∀ a b, ¬Stale base pass t a b) :
    (purgeExpired base pass t).tree = t ∧ (purgeExpired base pass t).returned = .ok 0 := by
  obtain ⟨herror, hremoved⟩ := removed_of_undisturbed hbase hpass hfiles
  have hnil : (purgeExpired base pass t).removed = [] := by
    refine List.eq_nil_iff_forall_not_mem.mpr fun q hq => ?_
    obtain ⟨a, b, -, hstale⟩ := (hremoved q).mp hq
    exact hfresh a b hstale
  refine ⟨purgeExpired_tree hnil, ?_⟩
  rw [PurgeResult.returned, herror, hnil]
  rfl

/-- A pass that nothing disturbs removes the stale entries and the directories they leave
empty, and nothing else. -/
theorem purgeExpired_undisturbed (hbase : base ≠ []) (hpass : pass.Undisturbed)
    (hfiles : FilesOnly base t) : SweepContract base pass t where
  removed := fun a b hstale => by
    have hremoved := (removed_of_undisturbed hbase hpass hfiles).2
    rw [(purged_purgeExpired base pass t).file?, if_pos ((hremoved _).mpr ⟨a, b, rfl, hstale⟩)]
  kept := fun q hq => by
    have hremoved := (removed_of_undisturbed hbase hpass hfiles).2
    rw [(purged_purgeExpired base pass t).file?, if_neg]
    intro hmem
    obtain ⟨a, b, rfl, hstale⟩ := (hremoved q).mp hmem
    exact hq a b rfl hstale
  hashDir := fun _ _ => hashDir_removed_iff hbase hpass hfiles
  userDir := fun _ => userDir_removed_iff hbase hpass hfiles
  otherDir := fun _ => isDir_of_undisturbed hbase hpass hfiles
  baseDir := isDir_of_undisturbed hbase hpass hfiles (by simp) (by simp)
  noNewDir := (purged_purgeExpired base pass t).isDir
  returned := by
    obtain ⟨herror, hremoved⟩ := removed_of_undisturbed hbase hpass hfiles
    refine ⟨_, (purgeExpired_spec hbase).nodup, hremoved, ?_⟩
    rw [PurgeResult.returned, herror]
  again := by
    intro pass' hagain hnow httl
    have hpurged := purged_purgeExpired base pass t
    have hremoved := (removed_of_undisturbed hbase hpass hfiles).2
    refine noop_of_fresh hbase hagain (fun a b => ?_) fun a b hstale => ?_
    · rw [Bool.eq_false_iff]
      exact fun hdir => Bool.eq_false_iff.mp (hfiles a b) (hpurged.isDir _ hdir)
    · -- what is stale now was stale before, and is gone
      obtain ⟨content, mtime, hfile, hold⟩ := hstale
      rw [hpurged.file?] at hfile
      split at hfile
      · cases hfile
      · rename_i hkept
        rw [hnow, httl] at hold
        exact hkept ((hremoved _).mpr ⟨a, b, rfl, content, mtime, hfile, hold⟩)

theorem purgeExpired_undisturbed_oldEntry : SweepContract ["data", "cache"] thirdDay oldEntry :=
  purgeExpired_undisturbed (by decide) ⟨⟨fun _ => rfl, fun _ => rfl⟩, fun _ => rfl⟩
    fun a b => isDir_oldEntry ((isExpectedLayout_iff (by decide)).mpr ⟨a, b, rfl⟩)

/-! ### From the tree before alone -/

/-- Whatever the pass meets, a place is empty after it if it was before or the pass has
removed what was there. -/
theorem nothing_left_iff : (purgeExpired base pass t).tree.node q = none ↔
    t.node q = none ∨ q ∈ (purgeExpired base pass t).removed ∨ DirRemoved base pass t q := by
  have hpurged := purged_purgeExpired base pass t
  have hnotDir (hq : q ∈ (purgeExpired base pass t).removed) : t.isDir q = false := by
    obtain ⟨-, content, mtime, hfile, -⟩ := hpurged.removed q hq
    rw [FileTree.isDir, (t.file?_eq_some_iff).mp hfile]
  rw [DirRemoved, FileTree.node_eq_none_iff, FileTree.node_eq_none_iff, hpurged.file? q]
  cases hdir : (purgeExpired base pass t).tree.isDir q with
  | true =>
      have hbefore := hpurged.isDir q hdir
      have hkept : q ∉ (purgeExpired base pass t).removed := fun hq => by
        rw [hnotDir hq] at hbefore
        cases hbefore
      simp [hbefore, hkept]
  | false =>
      cases hbefore : t.isDir q with
      | true => simp [t.file?_of_isDir hbefore]
      | false =>
          by_cases hq : q ∈ (purgeExpired base pass t).removed
          · simp [hq]
          · simp [hq]

/-- A hash directory goes if its entry is stale and was alone in it. -/
theorem hashDir_removed_iff_before (hbase : base ≠ []) (hpass : pass.Undisturbed)
    (hfiles : FilesOnly base t) : DirRemoved base pass t (base ++ [a, b]) ↔
      Stale base pass t a b ∧ ∀ c, c ≠ resultFilename → t.node (base ++ [a, b, c]) = none := by
  rw [hashDir_removed_iff hbase hpass hfiles]
  refine and_congr_right fun hstale => forall_congr' fun c => ?_
  have hdeep : ¬DirRemoved base pass t (base ++ [a, b, c]) := by
    rintro ⟨hdir, hgone⟩
    rw [isDir_of_undisturbed hbase hpass hfiles (by simp) (by simp), hdir] at hgone
    cases hgone
  rw [nothing_left_iff, or_iff_left hdeep, (removed_of_undisturbed hbase hpass hfiles).2]
  by_cases hc : c = resultFilename
  · subst hc
    exact iff_of_true (.inr ⟨a, b, rfl, hstale⟩) fun hne => absurd rfl hne
  · simp [hc]

/-- A user directory goes if an entry in it is stale and all that is in it goes. -/
theorem userDir_removed_iff_before (hbase : base ≠ []) (hpass : pass.Undisturbed)
    (hfiles : FilesOnly base t) : DirRemoved base pass t (base ++ [a]) ↔
      (∃ b, Stale base pass t a b) ∧ ∀ b, (t.node (base ++ [a, b])).isSome = true →
        DirRemoved base pass t (base ++ [a, b]) := by
  rw [userDir_removed_iff hbase hpass hfiles]
  refine and_congr_right fun _ => forall_congr' fun b => ?_
  have hshort : ¬∃ a' b', base ++ [a, b] = base ++ [a', b', resultFilename] ∧
      Stale base pass t a' b' := by simp
  rw [nothing_left_iff, (removed_of_undisturbed hbase hpass hfiles).2, or_iff_right hshort]
  cases t.node (base ++ [a, b]) with
  | none => simp
  | some n => simp

theorem isDir_iff_not_removed : (purgeExpired base pass t).tree.isDir d = true ↔
    t.isDir d = true ∧ ¬DirRemoved base pass t d := by
  constructor
  · intro hd
    exact ⟨(purged_purgeExpired base pass t).isDir d hd, fun h => nomatch hd.symm.trans h.2⟩
  · rintro ⟨hd, hkept⟩
    rw [← Bool.not_eq_false]
    exact fun hgone => hkept ⟨hd, hgone⟩

/-- Two passes at the same time leave the same tree, in whatever order they list it. -/
theorem tree_of_order {pass' : Pass} (hbase : base ≠ []) (hpass : pass.Undisturbed)
    (hpass' : pass'.Undisturbed) (hfiles : FilesOnly base t) (hnow : pass'.now = pass.now)
    (httl : pass'.ttlSeconds = pass.ttlSeconds) (q : Path) :
    (purgeExpired base pass' t).tree.node q = (purgeExpired base pass t).tree.node q := by
  have hstale (a b : String) : Stale base pass' t a b ↔ Stale base pass t a b := by
    simp only [Stale, hnow, httl]
  have hhash (a b : String) : DirRemoved base pass' t (base ++ [a, b]) ↔
      DirRemoved base pass t (base ++ [a, b]) := by
    rw [hashDir_removed_iff_before hbase hpass' hfiles,
      hashDir_removed_iff_before hbase hpass hfiles, hstale]
  have huser (a : String) : DirRemoved base pass' t (base ++ [a]) ↔
      DirRemoved base pass t (base ++ [a]) := by
    rw [userDir_removed_iff_before hbase hpass' hfiles,
      userDir_removed_iff_before hbase hpass hfiles]
    simp only [hstale, hhash]
  have hdir : (purgeExpired base pass' t).tree.isDir q =
      (purgeExpired base pass t).tree.isDir q := by
    by_cases hq : ∃ a, q = base ++ [a] ∨ ∃ b, q = base ++ [a, b]
    · rw [Bool.eq_iff_iff, isDir_iff_not_removed, isDir_iff_not_removed]
      obtain ⟨a, rfl | ⟨b, rfl⟩⟩ := hq
      · rw [huser]
      · rw [hhash]
    · simp only [not_exists, not_or] at hq
      rw [isDir_of_undisturbed hbase hpass' hfiles (fun a => (hq a).1) fun a => (hq a).2,
        isDir_of_undisturbed hbase hpass hfiles (fun a => (hq a).1) fun a => (hq a).2]
  have hremoved : q ∈ (purgeExpired base pass' t).removed ↔
      q ∈ (purgeExpired base pass t).removed := by
    rw [(removed_of_undisturbed hbase hpass' hfiles).2,
      (removed_of_undisturbed hbase hpass hfiles).2]
    simp only [hstale]
  rw [FileTree.node_eq, (purgeExpired base pass t).tree.node_eq, hdir,
    (purged_purgeExpired base pass' t).file?, (purged_purgeExpired base pass t).file?]
  simp only [hremoved]

end Contract

end TranscriptionApi.Pipeline
