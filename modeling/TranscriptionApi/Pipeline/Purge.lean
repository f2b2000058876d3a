import TranscriptionApi.Pipeline.Cache

/-!
`purge_expired`: the pass that removes the results whose file is older than the
TTL, and the directories this leaves empty.

The candidates are listed before the first of them is looked at. A `stat` or an
`unlink` that raises `FileNotFoundError` or `PermissionError` leaves its file to
a later pass; any other `OSError` ends the pass, with the files removed so far
gone. What a pass did is the list of the files it removed: every other file is
where it was.
-/

namespace TranscriptionApi.Pipeline

open Lib

/-- What a pass meets: when it takes the time, the order of its directory
listing, and the calls that are refused. -/
structure Pass where
  now : ℤ
  ttlSeconds : ℕ
  order : List Path → List Path
  order_perm : ∀ l, (order l).Perm l
  statFault : Path → Option Errno
  unlinkFault : Path → Option Errno
  rmdirFault : Path → Option Errno
  /-- the modification times of directories, which are candidates by name alone -/
  dirMtime : Path → ℤ

namespace Pass

def cutoff (pass : Pass) : ℤ := pass.now - seconds pass.ttlSeconds

/-- No call of the pass is refused. -/
structure Faultless (pass : Pass) : Prop where
  stat : ∀ p, pass.statFault p = none
  unlink : ∀ p, pass.unlinkFault p = none

end Pass

structure PurgeResult where
  tree : FileTree Bytes
  /-- `deleted` counts these -/
  removed : List Path
  error : Option Errno

variable (base : Path) (pass : Pass)

/-- `_is_expected_layout`. -/
def isExpectedLayout (file : Path) : Bool :=
  file.getLast? = some resultFilename && file.dropLast.dropLast.dropLast = base

/-- `_safe_rmdir`. -/
def safeRmdir (t : FileTree Bytes) (p : Path) : FileTree Bytes :=
  match pass.rmdirFault p, p.getLast? with
  | none, some c =>
      match t.rmdir p.dropLast c with
      | .error _ => t
      | .ok t' => t'
  | _, _ => t

/-- `result_file.stat().st_mtime`. -/
def statMtime (t : FileTree Bytes) (file : Path) : Except Errno ℤ :=
  match pass.statFault file with
  | some e => .error e
  | none =>
      match t.node file with
      | none => .error .noEntry
      | some .dir => .ok (pass.dirMtime file)
      | some (.file _ mtime) => .ok mtime

/-- `result_file.unlink()`. -/
def unlinkEntry (t : FileTree Bytes) (file : Path) : Except Errno (FileTree Bytes) :=
  match pass.unlinkFault file with
  | some e => .error e
  | none => t.unlink file.dropLast resultFilename

/-- The errors the pass goes on after. -/
def skipped : Errno → Bool
  | .noEntry => true
  | .permission => true
  | _ => false

/-- One candidate: the tree without it, or none when it stays. -/
def purgeEntry (t : FileTree Bytes) (file : Path) : Except Errno (Option (FileTree Bytes)) :=
  if isExpectedLayout base file then
    match statMtime pass t file with
    | .error e => if skipped e then .ok none else .error e
    | .ok mtime =>
        if pass.cutoff ≤ mtime then .ok none
        else
          -- the directory of the entry first, then the one of the user
          match unlinkEntry pass t file with
          | .error e => if skipped e then .ok none else .error e
          | .ok t' => .ok (some (safeRmdir pass (safeRmdir pass t' file.dropLast)
              file.dropLast.dropLast))
  else .ok none

/-- The loop over the candidates. -/
def purgeLoop (t : FileTree Bytes) : List Path → PurgeResult
  | [] => ⟨t, [], none⟩
  | file :: files =>
      match purgeEntry base pass t file with
      | .error e => ⟨t, [], some e⟩
      | .ok none => purgeLoop t files
      | .ok (some t') =>
          let rest := purgeLoop t' files
          { rest with removed := file :: rest.removed }

def purgeExpired (t : FileTree Bytes) : PurgeResult :=
  if t.isDir base then purgeLoop base pass t (t.rglob pass.order base resultFilename)
  else ⟨t, [], none⟩

/-! ### What a pass does -/

variable {base pass}

/-- An attempt takes the directory away or does nothing. -/
theorem safeRmdir_cases (t : FileTree Bytes) (p : Path) : safeRmdir pass t p = t ∨
    ∃ p' c t', p = p' ++ [c] ∧ t.rmdir p' c = .ok t' ∧ safeRmdir pass t p = t' := by
  unfold safeRmdir
  split
  · rename_i c _ hlast
    split
    · exact .inl rfl
    · rename_i t' hrmdir
      exact .inr ⟨p.dropLast, c, t', (List.dropLast_append_getLast? _ hlast).symm, hrmdir, rfl⟩
  · exact .inl rfl

theorem file?_safeRmdir (t : FileTree Bytes) (p q : Path) :
    (safeRmdir pass t p).file? q = t.file? q := by
  rcases safeRmdir_cases t p with hsame | ⟨p', c, t', -, hrmdir, heq⟩
  · rw [hsame]
  · rw [heq, FileTree.file?_rmdir hrmdir]

theorem isDir_safeRmdir {t : FileTree Bytes} {p q : Path}
    (h : (safeRmdir pass t p).isDir q = true) : t.isDir q = true := by
  rcases safeRmdir_cases t p with hsame | ⟨p', c, t', -, hrmdir, heq⟩
  · rwa [hsame] at h
  · exact FileTree.isDir_rmdir hrmdir (heq ▸ h)

theorem isDir_safeRmdir_of_ne {t : FileTree Bytes} {p q : Path} (hne : q ≠ p) :
    (safeRmdir pass t p).isDir q = t.isDir q := by
  rcases safeRmdir_cases t p with hsame | ⟨p', c, t', rfl, hrmdir, heq⟩
  · rw [hsame]
  · rw [heq, FileTree.isDir_rmdir_of_ne hrmdir hne]

theorem length_of_isExpectedLayout {file : Path} (h : isExpectedLayout base file = true) :
    file.length ≤ base.length + 3 := by
  simp only [isExpectedLayout, Bool.and_eq_true, decide_eq_true_eq] at h
  have hlength := congrArg List.length h.2
  simp only [List.length_dropLast] at hlength
  omega

theorem dropLast_of_isExpectedLayout {file : Path} (h : isExpectedLayout base file = true) :
    file.dropLast ++ [resultFilename] = file := by
  simp only [isExpectedLayout, Bool.and_eq_true, decide_eq_true_eq] at h
  exact List.dropLast_append_getLast? _ h.1

theorem statMtime_eq {t : FileTree Bytes} {file : Path} {content : Bytes} {at_ mtime : ℤ}
    (hfile : t.file? file = some (content, at_)) (h : statMtime pass t file = .ok mtime) :
    mtime = at_ := by
  unfold statMtime at h
  split at h
  · cases h
  · rw [(t.file?_eq_some_iff).mp hfile] at h
    exact (Except.ok.inj h).symm

/-- The calls that remove a candidate. -/
theorem purgeEntry_deleted {t t' : FileTree Bytes} {file : Path}
    (h : purgeEntry base pass t file = .ok (some t')) :
    isExpectedLayout base file = true ∧
      (∃ mtime, statMtime pass t file = .ok mtime ∧ mtime < pass.cutoff) ∧
      ∃ t₁, t.unlink file.dropLast resultFilename = .ok t₁ ∧
        t' = safeRmdir pass (safeRmdir pass t₁ file.dropLast) file.dropLast.dropLast := by
  unfold purgeEntry at h
  split at h
  · rename_i hlayout
    split at h
    · split at h
      · cases h
      · cases h
    · rename_i mtime hstat
      split at h
      · cases h
      · rename_i hold
        split at h
        · split at h
          · cases h
          · cases h
        · rename_i t₁ hunlink
          cases h
          unfold unlinkEntry at hunlink
          split at hunlink
          · cases hunlink
          · exact ⟨hlayout, ⟨mtime, hstat, lt_of_not_ge hold⟩, t₁, hunlink, rfl⟩
  · cases h

/-- A candidate that is removed was an old file of the layout, and it alone is
gone. -/
theorem purgeEntry_removed {t t' : FileTree Bytes} {file : Path}
    (h : purgeEntry base pass t file = .ok (some t')) :
    isExpectedLayout base file = true ∧
      (∃ content mtime, t.file? file = some (content, mtime) ∧ mtime < pass.cutoff) ∧
      (∀ q, t'.file? q = if q = file then none else t.file? q) ∧
      (∀ q, t'.isDir q = true → t.isDir q = true) ∧
      ∀ q, base.length + 3 ≤ q.length → t'.isDir q = t.isDir q := by
  obtain ⟨hlayout, ⟨mtime, hstat, hold⟩, t₁, hunlink, rfl⟩ := purgeEntry_deleted h
  obtain ⟨⟨⟨content, at_⟩, hfile⟩, -⟩ := FileTree.unlink_ok hunlink
  rw [dropLast_of_isExpectedLayout hlayout] at hfile
  refine ⟨hlayout, ⟨content, at_, hfile, ?_⟩, fun q => ?_, fun q hq => ?_, fun q hq => ?_⟩
  · exact statMtime_eq hfile hstat ▸ hold
  · rw [file?_safeRmdir, file?_safeRmdir, FileTree.file?_unlink hunlink,
      dropLast_of_isExpectedLayout hlayout]
  · exact FileTree.isDir_unlink hunlink ▸ isDir_safeRmdir (isDir_safeRmdir hq)
  · -- the two directories have shorter paths
    have hlength := length_of_isExpectedLayout hlayout
    have hne : q ≠ file.dropLast := by
      rintro rfl
      rw [List.length_dropLast] at hq
      omega
    have hne' : q ≠ file.dropLast.dropLast := by
      rintro rfl
      simp only [List.length_dropLast] at hq
      omega
    rw [isDir_safeRmdir_of_ne hne', isDir_safeRmdir_of_ne hne, FileTree.isDir_unlink hunlink]

variable (base pass) in
/-- The files after a pass over `t`. -/
structure Purged (t : FileTree Bytes) (r : PurgeResult) : Prop where
  file? : ∀ q, r.tree.file? q = if q ∈ r.removed then none else t.file? q
  isDir : ∀ q, r.tree.isDir q = true → t.isDir q = true
  /-- only directories of entries and users are removed -/
  deep : ∀ q, base.length + 3 ≤ q.length → r.tree.isDir q = t.isDir q
  removed : ∀ q ∈ r.removed, isExpectedLayout base q = true ∧
    ∃ content mtime, t.file? q = some (content, mtime) ∧ mtime < pass.cutoff

theorem Purged.refl (t : FileTree Bytes) (e : Option Errno) : Purged base pass t ⟨t, [], e⟩ where
  file? := fun _ => (if_neg List.not_mem_nil).symm
  isDir := fun _ h => h
  deep := fun _ _ => rfl
  removed := fun _ h => absurd h List.not_mem_nil

theorem Purged.cons {t t' : FileTree Bytes} {file : Path} {r : PurgeResult}
    (h : purgeEntry base pass t file = .ok (some t')) (hr : Purged base pass t' r) :
    Purged base pass t { r with removed := file :: r.removed } := by
  obtain ⟨hlayout, hold, hfile?, hdir, hdeep⟩ := purgeEntry_removed h
  refine ⟨fun q => ?_, fun q hq => hdir q (hr.isDir q hq),
    fun q hq => (hr.deep q hq).trans (hdeep q hq), fun q hq => ?_⟩
  · show r.tree.file? q = _
    rw [hr.file? q, hfile? q]
    by_cases hq : q = file
    · simp [hq]
    · simp [hq]
  · rcases List.mem_cons.mp hq with rfl | hq
    · exact ⟨hlayout, hold⟩
    · obtain ⟨hlayout', content, mtime, hfile, hlt⟩ := hr.removed q hq
      rw [hfile? q] at hfile
      split at hfile
      · cases hfile
      · exact ⟨hlayout', content, mtime, hfile, hlt⟩

theorem purged_purgeLoop (t : FileTree Bytes) (files : List Path) :
    Purged base pass t (purgeLoop base pass t files) := by
  induction files generalizing t with
  | nil => exact .refl t none
  | cons file files ih =>
      unfold purgeLoop
      cases hentry : purgeEntry base pass t file with
      | error e => exact .refl t (some e)
      | ok kept =>
          cases kept with
          | none => exact ih t
          | some t' => exact .cons hentry (ih t')

variable (base pass) in
theorem purged_purgeExpired (t : FileTree Bytes) :
    Purged base pass t (purgeExpired base pass t) := by
  unfold purgeExpired
  split
  · exact purged_purgeLoop t _
  · exact .refl t none

/-! ### A pass that is not refused anything -/

variable (base pass) in
/-- What the pass is after. -/
def Expired (t : FileTree Bytes) (file : Path) : Prop :=
  isExpectedLayout base file = true ∧
    ∃ content mtime, t.file? file = some (content, mtime) ∧ mtime < pass.cutoff

theorem purgeEntry_faultless (hpass : pass.Faultless) {t : FileTree Bytes} {file : Path}
    (hdir : isExpectedLayout base file = true → t.isDir file = false) :
    (purgeEntry base pass t file = .ok none ∧ ¬Expired base pass t file) ∨
      ∃ t', purgeEntry base pass t file = .ok (some t') := by
  unfold purgeEntry
  split
  · rename_i hlayout
    rw [statMtime, hpass.stat file]
    cases hnode : t.node file with
    | none =>
        refine .inl ⟨rfl, fun hexp => ?_⟩
        obtain ⟨-, content, mtime, hfile, -⟩ := hexp
        rw [(t.file?_eq_some_iff).mp hfile] at hnode
        cases hnode
    | some n =>
        cases n with
        | dir =>
            have hisDir := (t.isDir_iff).mpr hnode
            rw [hdir hlayout] at hisDir
            cases hisDir
        | file content mtime =>
            have hfile := (t.file?_eq_some_iff).mpr hnode
            show ((if pass.cutoff ≤ mtime then _ else _) = _ ∧ _) ∨
              ∃ t', (if pass.cutoff ≤ mtime then _ else _) = _
            split
            · rename_i hyoung
              refine .inl ⟨rfl, fun hexp => ?_⟩
              obtain ⟨-, content', mtime', hfile', hold⟩ := hexp
              rw [hfile] at hfile'
              cases hfile'
              exact absurd hold (not_lt_of_ge hyoung)
            · right
              rw [← dropLast_of_isExpectedLayout hlayout] at hfile
              obtain ⟨t', hunlink⟩ := FileTree.unlink_isOk hfile
              rw [unlinkEntry, hpass.unlink file, hunlink]
              exact ⟨_, rfl⟩
  · rename_i hlayout
    exact .inl ⟨rfl, fun hexp => hlayout hexp.1⟩

theorem purgeLoop_faultless (hpass : pass.Faultless) {t : FileTree Bytes} {files : List Path}
    (hdir : ∀ q, isExpectedLayout base q = true → t.isDir q = false) :
    (purgeLoop base pass t files).error = none ∧
      ∀ q ∈ files, Expired base pass t q → q ∈ (purgeLoop base pass t files).removed := by
  induction files generalizing t with
  | nil => exact ⟨rfl, fun q hq => absurd hq List.not_mem_nil⟩
  | cons file files ih =>
      rcases purgeEntry_faultless hpass (hdir file) with ⟨hkept, hyoung⟩ | ⟨t', hgone⟩
      · simp only [purgeLoop, hkept]
        refine ⟨(ih hdir).1, fun q hq hexp => ?_⟩
        rcases List.mem_cons.mp hq with rfl | hq
        · exact absurd hexp hyoung
        · exact (ih hdir).2 q hq hexp
      · obtain ⟨-, -, hfile?, hisDir, -⟩ := purgeEntry_removed hgone
        have hdir' (q : Path) (hq : isExpectedLayout base q = true) : t'.isDir q = false := by
          rw [Bool.eq_false_iff]
          exact fun h => Bool.eq_false_iff.mp (hdir q hq) (hisDir q h)
        simp only [purgeLoop, hgone]
        refine ⟨(ih hdir').1, fun q hq hexp => ?_⟩
        by_cases heq : q = file
        · exact heq ▸ List.mem_cons_self
        · refine List.mem_cons_of_mem _ ((ih hdir').2 q (List.mem_of_ne_of_mem heq hq) ?_)
          obtain ⟨hlayout, content, mtime, hfile, hold⟩ := hexp
          exact ⟨hlayout, content, mtime, (hfile? q).trans ((if_neg heq).trans hfile), hold⟩

/-- A file of the layout is under the base directory, and is listed. -/
theorem mem_candidates {t : FileTree Bytes} {q : Path} (h : Expired base pass t q) :
    t.isDir base = true ∧ q ∈ t.rglob pass.order base resultFilename := by
  obtain ⟨hlayout, content, mtime, hfile, -⟩ := h
  have hsome : (t.node q).isSome = true := by rw [(t.file?_eq_some_iff).mp hfile]; rfl
  simp only [isExpectedLayout, Bool.and_eq_true, decide_eq_true_eq] at hlayout
  obtain ⟨hlast, hbase⟩ := hlayout
  have hup {p : Path} (hp : t.isDir p = true) : t.isDir p.dropLast = true :=
    t.isDir_dropLast (by rw [(t.isDir_iff).mp hp]; rfl)
  have hne : q ≠ base := by
    intro heq
    have hlength := congrArg List.length (hbase.trans heq.symm)
    cases q with
    | nil => cases hlast
    | cons c q =>
        simp only [List.length_dropLast, List.length_cons] at hlength
        omega
  refine ⟨hbase ▸ hup (hup (t.isDir_dropLast hsome)), ?_⟩
  exact (FileTree.mem_rglob pass.order_perm).mpr ⟨hbase ▸ ((List.dropLast_prefix _).trans
    (List.dropLast_prefix _)).trans (List.dropLast_prefix _), hne, hlast, hsome⟩

/-- It removes exactly the files of the layout that are older than the TTL. -/
theorem purgeExpired_faultless (hpass : pass.Faultless) {t : FileTree Bytes}
    (hdir : ∀ q, isExpectedLayout base q = true → t.isDir q = false) :
    (purgeExpired base pass t).error = none ∧
      ∀ q, q ∈ (purgeExpired base pass t).removed ↔ Expired base pass t q := by
  have hremoved := (purged_purgeExpired base pass t).removed
  unfold purgeExpired at hremoved ⊢
  split
  · rename_i hbase
    rw [if_pos hbase] at hremoved
    obtain ⟨herror, hall⟩ := purgeLoop_faultless hpass hdir
    exact ⟨herror, fun q => ⟨hremoved q, fun hq => hall q (mem_candidates hq).2 hq⟩⟩
  · rename_i hbase
    exact ⟨rfl, fun q => ⟨fun hq => absurd hq List.not_mem_nil,
      fun hq => absurd (mem_candidates hq).1 hbase⟩⟩

end TranscriptionApi.Pipeline
