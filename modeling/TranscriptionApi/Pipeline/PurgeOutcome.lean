import TranscriptionApi.Pipeline.CacheMap

/-!
What a pass of `purge_expired` comes to, whatever its calls are refused.

A candidate is looked at on its own: a removal changes neither what is at another
candidate nor what its calls answer, since a directory that is removed lies above
all of them. So what the pass will do with a candidate can be said of the tree it
starts from. It deletes the candidate, keeps it, or ends there with an error of
the file system, and it does with the candidates what the list says up to the
first one that ends it.

From this two questions are answered exactly: which of the files that go are
entries of the cache, and when the pass gets to its end.
-/

namespace TranscriptionApi.Pipeline

open Lib Python

variable (base : Path) (pass : Pass)

/-- The modification time of what is at a path. -/
def mtimeOf (t : FileTree Bytes) (file : Path) : Option ℤ :=
  (t.node file).map fun n =>
    match n with
    | .dir => pass.dirMtime file
    | .file _ mtime => mtime

/-- The pass tries to unlink the candidate. -/
def Due (t : FileTree Bytes) (file : Path) : Prop :=
  isExpectedLayout base file = true ∧ pass.statFault file = none ∧
    ∃ mtime, mtimeOf pass t file = some mtime ∧ mtime < pass.cutoff

def Deletes (t : FileTree Bytes) (file : Path) : Prop :=
  Due base pass t file ∧ pass.unlinkFault file = none ∧ t.isDir file = false

/-- The candidate ends the pass: its `stat` or its `unlink` raises an `OSError`
that has no `except` clause. A directory cannot be unlinked. -/
def Aborts (t : FileTree Bytes) (file : Path) (e : Errno) : Prop :=
  skipped e = false ∧
    (isExpectedLayout base file = true ∧ pass.statFault file = some e ∨
      Due base pass t file ∧ (pass.unlinkFault file = some e ∨
        pass.unlinkFault file = none ∧ t.isDir file = true ∧ e = .isDirectory))

/-- The pass comes to the candidate. -/
def Reached (t : FileTree Bytes) (files : List Path) (file : Path) : Prop :=
  ∃ before after, files = before ++ file :: after ∧ ∀ q ∈ before, ∀ e, ¬ Aborts base pass t q e

def purgeCandidates (t : FileTree Bytes) : List Path := t.rglob pass.order base resultFilename

/-- What `purge_expired` returns or raises. -/
def PurgeResult.returned (r : PurgeResult) : Except Errno ℕ :=
  match r.error with
  | some e => .error e
  | none => .ok r.removed.length

variable {base pass} {t t' : FileTree Bytes} {file q : Path} {e : Errno}

/-! ### One candidate -/

theorem statMtime_of_node (hstat : pass.statFault file = none)
    (hnode : (t.node file).isSome = true) :
    ∃ mtime, mtimeOf pass t file = some mtime ∧ statMtime pass t file = .ok mtime := by
  unfold statMtime mtimeOf
  rw [hstat]
  cases hn : t.node file with
  | none =>
      rw [hn] at hnode
      cases hnode
  | some n =>
      cases n with
      | dir => exact ⟨_, rfl, rfl⟩
      | file content mtime => exact ⟨_, rfl, rfl⟩

theorem unlinkEntry_eq (hlayout : isExpectedLayout base file = true)
    (hnode : (t.node file).isSome = true) (hunlink : pass.unlinkFault file = none) :
    (t.isDir file = true ∧ unlinkEntry pass t file = .error .isDirectory) ∨
      (t.isDir file = false ∧ ∃ t', unlinkEntry pass t file = .ok t') := by
  have hpath := dropLast_of_isExpectedLayout hlayout
  cases hdir : t.isDir file with
  | true =>
      refine .inl ⟨rfl, ?_⟩
      rw [unlinkEntry, hunlink, FileTree.unlink, dif_pos (by rw [hpath]; exact hdir)]
  | false =>
      refine .inr ⟨rfl, ?_⟩
      cases hn : t.node file with
      | none =>
          rw [hn] at hnode
          cases hnode
      | some n =>
          cases n with
          | dir =>
              rw [(t.isDir_iff).mpr hn] at hdir
              cases hdir
          | file content mtime =>
              have hfile := (t.file?_eq_some_iff).mpr hn
              rw [← hpath] at hfile
              obtain ⟨t', ht'⟩ := FileTree.unlink_isOk hfile
              exact ⟨t', by rw [unlinkEntry, hunlink, ht']⟩

variable (base pass) in
/-- The three ends of a candidate. -/
inductive EntryEnd (t : FileTree Bytes) (file : Path) :
    Except Errno (Option (FileTree Bytes)) → Prop
  | aborts (e : Errno) (h : Aborts base pass t file e) : EntryEnd t file (.error e)
  | deletes (t' : FileTree Bytes) (h : Deletes base pass t file) : EntryEnd t file (.ok (some t'))
  | keeps (hgo : ∀ e, ¬ Aborts base pass t file e) (h : ¬ Deletes base pass t file) :
      EntryEnd t file (.ok none)

/-- A `stat` that is refused. -/
theorem entryEnd_of_statFault (hlayout : isExpectedLayout base file = true)
    (hstat : pass.statFault file = some e) :
    EntryEnd base pass t file (if skipped e then .ok none else .error e) := by
  have hdue : ¬ Due base pass t file := fun hdue => nomatch hstat.symm.trans hdue.2.1
  split
  · rename_i hskipped
    refine .keeps (fun e' haborts => ?_) fun hdeletes => hdue hdeletes.1
    rcases haborts with ⟨hraised, ⟨-, hstat'⟩ | ⟨hdue', -⟩⟩
    · rw [hstat] at hstat'
      cases hstat'
      rw [hskipped] at hraised
      cases hraised
    · exact hdue hdue'
  · rename_i hraised
    exact .aborts e ⟨by simpa using hraised, .inl ⟨hlayout, hstat⟩⟩

/-- An `unlink` that is refused. -/
theorem entryEnd_of_unlinkFault (hdue : Due base pass t file)
    (hunlink : pass.unlinkFault file = some e) :
    EntryEnd base pass t file (if skipped e then .ok none else .error e) := by
  split
  · rename_i hskipped
    refine .keeps (fun e' haborts => ?_) fun hdeletes => nomatch hunlink.symm.trans hdeletes.2.1
    rcases haborts with ⟨hraised, ⟨-, hstat⟩ | ⟨-, hunlink' | ⟨hunlink', -⟩⟩⟩
    · cases hdue.2.1.symm.trans hstat
    · rw [hunlink] at hunlink'
      cases hunlink'
      rw [hskipped] at hraised
      cases hraised
    · cases hunlink.symm.trans hunlink'
  · rename_i hraised
    exact .aborts e ⟨by simpa using hraised, .inr ⟨hdue, .inl hunlink⟩⟩

theorem entryEnd (hnode : isExpectedLayout base file = true → (t.node file).isSome = true) :
    EntryEnd base pass t file (purgeEntry base pass t file) := by
  unfold purgeEntry
  split
  · rename_i hlayout
    have hnode := hnode hlayout
    cases hstat : pass.statFault file with
    | some e =>
        rw [show statMtime pass t file = .error e by rw [statMtime, hstat]]
        exact entryEnd_of_statFault hlayout hstat
    | none =>
        obtain ⟨mtime, hmtime, hstatted⟩ := statMtime_of_node hstat hnode
        rw [hstatted]
        show EntryEnd base pass t file (if pass.cutoff ≤ mtime then _ else _)
        split
        · rename_i hyoung
          have hdue : ¬ Due base pass t file := by
            rintro ⟨-, -, mtime', hmtime', hold⟩
            rw [hmtime] at hmtime'
            cases hmtime'
            omega
          refine .keeps (fun e haborts => ?_) fun hdeletes => hdue hdeletes.1
          rcases haborts with ⟨-, ⟨-, hstat'⟩ | ⟨hdue', -⟩⟩
          · cases hstat.symm.trans hstat'
          · exact hdue hdue'
        · rename_i hold
          have hdue : Due base pass t file := ⟨hlayout, hstat, mtime, hmtime, by omega⟩
          cases hunlink : pass.unlinkFault file with
          | some e =>
              rw [show unlinkEntry pass t file = .error e by rw [unlinkEntry, hunlink]]
              exact entryEnd_of_unlinkFault hdue hunlink
          | none =>
              rcases unlinkEntry_eq hlayout hnode hunlink with ⟨hdir, heq⟩ | ⟨hdir, t', heq⟩
              · rw [heq]
                exact .aborts .isDirectory ⟨rfl, .inr ⟨hdue, .inr ⟨hunlink, hdir, rfl⟩⟩⟩
              · rw [heq]
                exact .deletes _ ⟨hdue, hunlink, hdir⟩
  · rename_i hlayout
    refine .keeps (fun e haborts => ?_) fun hdeletes => hlayout hdeletes.1.1
    rcases haborts with ⟨-, ⟨hlayout', -⟩ | ⟨hdue, -⟩⟩
    · exact hlayout hlayout'
    · exact hlayout hdue.1

/-! ### Removals do not touch the other candidates -/

theorem length_of_layout (hbase : base ≠ []) (hlayout : isExpectedLayout base q = true) :
    q.length = base.length + 3 := by
  simp only [isExpectedLayout, Bool.and_eq_true, decide_eq_true_eq] at hlayout
  have hlength := congrArg List.length hlayout.2
  have hpos := List.length_pos_iff.mpr hbase
  simp only [List.length_dropLast] at hlength
  omega

theorem node_of_deleted (hbase : base ≠ []) (h : purgeEntry base pass t file = .ok (some t'))
    (hne : q ≠ file) (hlayout : isExpectedLayout base q = true) : t'.node q = t.node q := by
  obtain ⟨-, -, hfile, -, hdeep⟩ := purgeEntry_removed h
  rw [t'.node_eq, t.node_eq, hdeep q (length_of_layout hbase hlayout).ge, hfile, if_neg hne]

theorem deletes_congr (hnode : isExpectedLayout base q = true → t'.node q = t.node q) :
    Deletes base pass t' q ↔ Deletes base pass t q := by
  by_cases hlayout : isExpectedLayout base q = true
  · simp only [Deletes, Due, mtimeOf, FileTree.isDir, hnode hlayout]
  · exact ⟨fun h => absurd h.1.1 hlayout, fun h => absurd h.1.1 hlayout⟩

theorem aborts_congr (hnode : isExpectedLayout base q = true → t'.node q = t.node q) :
    Aborts base pass t' q e ↔ Aborts base pass t q e := by
  by_cases hlayout : isExpectedLayout base q = true
  · simp only [Aborts, Due, mtimeOf, FileTree.isDir, hnode hlayout]
  · simp [Aborts, Due, hlayout]

/-! ### The loop -/

theorem not_aborts_of_deletes (h : Deletes base pass t q) : ¬ Aborts base pass t q e := by
  obtain ⟨⟨-, hstat, -⟩, hunlink, hdir⟩ := h
  rintro ⟨-, ⟨-, hstat'⟩ | ⟨-, hunlink' | ⟨-, hdir', -⟩⟩⟩
  · cases hstat.symm.trans hstat'
  · cases hunlink.symm.trans hunlink'
  · cases hdir.symm.trans hdir'

theorem reached_cons {files : List Path} : Reached base pass t (file :: files) q ↔
    q = file ∨ (∀ e, ¬ Aborts base pass t file e) ∧ Reached base pass t files q := by
  constructor
  · rintro ⟨before, after, hsplit, hbefore⟩
    cases before with
    | nil =>
        cases hsplit
        exact .inl rfl
    | cons p before =>
        cases hsplit
        exact .inr ⟨hbefore file List.mem_cons_self, before, after, rfl,
          fun p hp => hbefore p (List.mem_cons_of_mem file hp)⟩
  · rintro (rfl | ⟨hgo, before, after, rfl, hbefore⟩)
    · exact ⟨[], files, rfl, fun p hp => absurd hp List.not_mem_nil⟩
    · refine ⟨file :: before, after, rfl, fun p hp => ?_⟩
      rcases List.mem_cons.mp hp with rfl | hp
      · exact hgo
      · exact hbefore p hp

theorem Reached.mem {files : List Path} (h : Reached base pass t files q) : q ∈ files := by
  obtain ⟨before, after, rfl, -⟩ := h
  exact List.mem_append_right before List.mem_cons_self

theorem reached_congr {files : List Path}
    (h : ∀ p ∈ files, ∀ e, Aborts base pass t' p e ↔ Aborts base pass t p e) :
    Reached base pass t' files q ↔ Reached base pass t files q := by
  constructor
  · rintro ⟨before, after, rfl, hbefore⟩
    exact ⟨before, after, rfl, fun p hp e haborts =>
      hbefore p hp e ((h p (List.mem_append_left _ hp) e).mpr haborts)⟩
  · rintro ⟨before, after, rfl, hbefore⟩
    exact ⟨before, after, rfl, fun p hp e haborts =>
      hbefore p hp e ((h p (List.mem_append_left _ hp) e).mp haborts)⟩

variable (base pass) in
/-- What the loop does with its candidates. -/
structure LoopSpec (t : FileTree Bytes) (files : List Path) (r : PurgeResult) : Prop where
  error : r.error = none ↔ ∀ q ∈ files, ∀ e, ¬ Aborts base pass t q e
  removed : ∀ q, q ∈ r.removed ↔ Reached base pass t files q ∧ Deletes base pass t q
  nodup : r.removed.Nodup

theorem loopSpec_aborted {files : List Path} (h : Aborts base pass t file e) :
    LoopSpec base pass t (file :: files) ⟨t, [], some e⟩ := by
  refine ⟨⟨fun herror => (nomatch herror), fun hall => ?_⟩, fun q => ?_, List.nodup_nil⟩
  · exact absurd h (hall file List.mem_cons_self e)
  · refine ⟨fun hq => absurd hq List.not_mem_nil, fun ⟨hreached, hdeletes⟩ => ?_⟩
    rcases reached_cons.mp hreached with rfl | ⟨hgo, -⟩
    · exact absurd h (not_aborts_of_deletes hdeletes)
    · exact absurd h (hgo e)

theorem LoopSpec.kept {files : List Path} {r : PurgeResult}
    (hspec : LoopSpec base pass t files r) (hgo : ∀ e, ¬ Aborts base pass t file e)
    (hkept : ¬ Deletes base pass t file) : LoopSpec base pass t (file :: files) r := by
  refine ⟨?_, fun q => ?_, hspec.nodup⟩
  · rw [List.forall_mem_cons]
    exact hspec.error.trans ⟨fun hall => ⟨hgo, hall⟩, And.right⟩
  · rw [reached_cons, hspec.removed q]
    constructor
    · exact fun ⟨hreached, hdeletes⟩ => ⟨.inr ⟨hgo, hreached⟩, hdeletes⟩
    · rintro ⟨rfl | ⟨-, hreached⟩, hdeletes⟩
      · exact absurd hdeletes hkept
      · exact ⟨hreached, hdeletes⟩

/-- After a removal the rest of the list means what it meant before. -/
theorem LoopSpec.deleted {files : List Path} {r : PurgeResult}
    (hspec : LoopSpec base pass t' files r)
    (hnode : ∀ q ∈ files, isExpectedLayout base q = true → t'.node q = t.node q)
    (hfresh : file ∉ files) (hdeletes : Deletes base pass t file) :
    LoopSpec base pass t (file :: files) { r with removed := file :: r.removed } := by
  have hgo : ∀ e, ¬ Aborts base pass t file e := fun e => not_aborts_of_deletes hdeletes
  have haborts : ∀ q ∈ files, ∀ e, Aborts base pass t' q e ↔ Aborts base pass t q e :=
    fun q hq e => aborts_congr (hnode q hq)
  have hremoved (q : Path) :
      q ∈ r.removed ↔ Reached base pass t files q ∧ Deletes base pass t q := by
    rw [hspec.removed q, reached_congr haborts]
    exact and_congr_right fun hreached => deletes_congr (hnode q hreached.mem)
  refine ⟨?_, fun q => ?_, List.nodup_cons.mpr ⟨fun hfile => ?_, hspec.nodup⟩⟩
  · rw [List.forall_mem_cons]
    refine hspec.error.trans ⟨fun hall => ⟨hgo, fun q hq e h => ?_⟩,
      fun hall q hq e h => hall.2 q hq e ((haborts q hq e).mp h)⟩
    exact hall q hq e ((haborts q hq e).mpr h)
  · rw [reached_cons, List.mem_cons, hremoved q]
    constructor
    · rintro (rfl | ⟨hreached, hdeletes'⟩)
      · exact ⟨.inl rfl, hdeletes⟩
      · exact ⟨.inr ⟨hgo, hreached⟩, hdeletes'⟩
    · rintro ⟨rfl | ⟨-, hreached⟩, hdeletes'⟩
      · exact .inl rfl
      · exact .inr ⟨hreached, hdeletes'⟩
  · exact hfresh ((hremoved file).mp hfile).1.mem

theorem purgeLoop_spec (hbase : base ≠ []) {files : List Path} (hnodup : files.Nodup)
    (hnodes : ∀ q ∈ files, isExpectedLayout base q = true → (t.node q).isSome = true) :
    LoopSpec base pass t files (purgeLoop base pass t files) := by
  induction files generalizing t with
  | nil =>
      refine ⟨⟨fun _ q hq => absurd hq List.not_mem_nil, fun _ => rfl⟩, fun q => ?_, List.nodup_nil⟩
      exact ⟨fun hq => absurd hq List.not_mem_nil,
        fun hreached => absurd hreached.1.mem List.not_mem_nil⟩
  | cons file files ih =>
      obtain ⟨hfresh, hnodup⟩ := List.nodup_cons.mp hnodup
      have hrest : ∀ q ∈ files, isExpectedLayout base q = true → (t.node q).isSome = true :=
        fun q hq => hnodes q (List.mem_cons_of_mem file hq)
      have hend : EntryEnd base pass t file (purgeEntry base pass t file) :=
        entryEnd (hnodes file List.mem_cons_self)
      unfold purgeLoop
      cases hentry : purgeEntry base pass t file with
      | error e =>
          rw [hentry] at hend
          cases hend with
          | aborts e h => exact loopSpec_aborted h
      | ok kept =>
          rw [hentry] at hend
          cases hend with
          | keeps hgo hkept => exact (ih hnodup hrest).kept hgo hkept
          | deletes t' hdeletes =>
              have hnode : ∀ q ∈ files, isExpectedLayout base q = true → t'.node q = t.node q :=
                fun q hq => node_of_deleted hbase hentry fun heq => hfresh (heq ▸ hq)
              refine (ih hnodup fun q hq hlayout => ?_).deleted hnode hfresh hdeletes
              rw [hnode q hq hlayout]
              exact hrest q hq hlayout

/-! ### The pass -/

theorem nodup_purgeCandidates (t : FileTree Bytes) : (purgeCandidates base pass t).Nodup :=
  (pass.order_perm _).nodup_iff.mpr ((List.nodup_dedup t.paths).filter _)

/-- Nothing is below a base that is no directory. -/
theorem purgeCandidates_eq_nil (hbase : ¬ t.isDir base = true) :
    purgeCandidates base pass t = [] := by
  refine List.eq_nil_iff_forall_not_mem.mpr fun q hq => hbase ?_
  obtain ⟨⟨rest, rfl⟩, hne, -, hsome⟩ := (FileTree.mem_rglob pass.order_perm).mp hq
  have hrest : rest ≠ [] := by
    rintro rfl
    exact hne (List.append_nil base)
  have hup := t.isDir_dropLast hsome
  rw [List.dropLast_append_of_ne_nil hrest] at hup
  exact t.isDir_of_append _ hup

theorem purgeExpired_spec (hbase : base ≠ []) :
    LoopSpec base pass t (purgeCandidates base pass t) (purgeExpired base pass t) := by
  have hspec : LoopSpec base pass t (purgeCandidates base pass t)
      (purgeLoop base pass t (purgeCandidates base pass t)) :=
    purgeLoop_spec hbase (nodup_purgeCandidates t) fun q hq _ =>
      ((FileTree.mem_rglob pass.order_perm).mp hq).2.2.2
  unfold purgeExpired
  split
  · exact hspec
  · rename_i hno
    rw [purgeCandidates_eq_nil hno] at hspec ⊢
    exact hspec

theorem mem_purgeCandidates_iff (hbase : base ≠ []) (hlayout : isExpectedLayout base q = true) :
    q ∈ purgeCandidates base pass t ↔ (t.node q).isSome = true := by
  rw [purgeCandidates, FileTree.mem_rglob pass.order_perm]
  have hlength := length_of_layout hbase hlayout
  simp only [isExpectedLayout, Bool.and_eq_true, decide_eq_true_eq] at hlayout
  have habove : base <+: q := hlayout.2 ▸ ((List.dropLast_prefix _).trans
    (List.dropLast_prefix _)).trans (List.dropLast_prefix _)
  have hne : q ≠ base := by
    rintro rfl
    omega
  exact ⟨fun h => h.2.2.2, fun h => ⟨habove, hne, hlayout.1, h⟩⟩

/-- A file is gone after the pass if the pass has removed it. -/
theorem gone_iff : (t.file? q).isSome = true ∧ (purgeExpired base pass t).tree.file? q = none ↔
    q ∈ (purgeExpired base pass t).removed := by
  have hpurged := purged_purgeExpired base pass t
  rw [hpurged.file? q]
  constructor
  · rintro ⟨hfile, hgone⟩
    by_contra hq
    rw [if_neg hq] at hgone
    rw [hgone] at hfile
    cases hfile
  · intro hq
    obtain ⟨-, content, mtime, hfile, -⟩ := hpurged.removed q hq
    exact ⟨by rw [hfile]; rfl, if_pos hq⟩

variable (base pass) in
/-- The pass returns, the number it returns is that of the files that are gone,
and every expired entry whose own calls are not refused is among them. -/
structure PurgeContract (t : FileTree Bytes) : Prop where
  returns : ∃ gone : List Path, gone.Nodup ∧
    (∀ q, (t.file? q).isSome = true ∧ (purgeExpired base pass t).tree.file? q = none ↔ q ∈ gone) ∧
    (purgeExpired base pass t).returned = .ok gone.length
  others : ∀ q, Expired base pass t q → pass.statFault q = none → pass.unlinkFault q = none →
    (purgeExpired base pass t).tree.file? q = none

theorem deletes_of_expired (h : Expired base pass t q) (hstat : pass.statFault q = none)
    (hunlink : pass.unlinkFault q = none) : Deletes base pass t q := by
  obtain ⟨hlayout, content, mtime, hfile, hold⟩ := h
  have hnode := (t.file?_eq_some_iff).mp hfile
  refine ⟨⟨hlayout, hstat, mtime, by rw [mtimeOf, hnode]; rfl, hold⟩, hunlink, ?_⟩
  rw [FileTree.isDir, hnode]

/-- Exactly when nothing that is there meets an error the pass does not handle. -/
theorem purgeContract_iff (hbase : base ≠ []) : PurgeContract base pass t ↔
    ∀ q e, (t.node q).isSome = true → ¬ Aborts base pass t q e := by
  have hspec : LoopSpec base pass t (purgeCandidates base pass t) (purgeExpired base pass t) :=
    purgeExpired_spec hbase
  have hlayout {q : Path} {e : Errno} (h : Aborts base pass t q e) :
      isExpectedLayout base q = true := by
    rcases h with ⟨-, ⟨hlayout, -⟩ | ⟨hdue, -⟩⟩
    · exact hlayout
    · exact hdue.1
  constructor
  · rintro ⟨⟨gone, -, -, hreturned⟩, -⟩ q e hnode haborts
    have herror : (purgeExpired base pass t).error = none := by
      unfold PurgeResult.returned at hreturned
      split at hreturned
      · cases hreturned
      · rename_i hnone
        exact hnone
    have hmem : q ∈ purgeCandidates base pass t :=
      (mem_purgeCandidates_iff hbase (hlayout haborts)).mpr hnode
    exact hspec.error.mp herror q hmem e haborts
  · intro hclean
    have hgo : ∀ q ∈ purgeCandidates base pass t, ∀ e, ¬ Aborts base pass t q e := fun q hq e h =>
      hclean q e ((mem_purgeCandidates_iff hbase (hlayout h)).mp hq) h
    refine ⟨⟨_, hspec.nodup, fun q => gone_iff, ?_⟩, fun q hexpired hstat hunlink => ?_⟩
    · rw [PurgeResult.returned, hspec.error.mpr hgo]
    · have hdeletes := deletes_of_expired hexpired hstat hunlink
      have hmem : q ∈ purgeCandidates base pass t := (mem_candidates hexpired).2
      obtain ⟨before, after, hsplit⟩ := List.append_of_mem hmem
      refine (gone_iff.mpr ((hspec.removed q).mpr ⟨⟨before, after, hsplit, ?_⟩, hdeletes⟩)).2
      exact fun p hp => hgo p (hsplit ▸ List.mem_append_left _ hp)

/-! ### Whose files are removed -/

/-- A path that `CacheStore` writes. -/
def IsEntryPath (base q : Path) : Prop :=
  ∃ u h, validAudioHash h = true ∧ q = entryPath base u h

variable (base pass) in
def PurgesOnlyEntries (t : FileTree Bytes) : Prop :=
  ∀ q, (t.file? q).isSome = true → (purgeExpired base pass t).tree.file? q = none →
    IsEntryPath base q

/-- Exactly when the old files of that name and depth the pass comes to are
entries; the names of their directories are not looked at. -/
theorem purgesOnlyEntries_iff (hbase : base ≠ []) : PurgesOnlyEntries base pass t ↔
    ∀ q, Reached base pass t (purgeCandidates base pass t) q → Deletes base pass t q →
      IsEntryPath base q := by
  have hspec : LoopSpec base pass t (purgeCandidates base pass t) (purgeExpired base pass t) :=
    purgeExpired_spec hbase
  constructor
  · intro honly q hreached hdeletes
    obtain ⟨hfile, hgone⟩ := gone_iff.mpr ((hspec.removed q).mpr ⟨hreached, hdeletes⟩)
    exact honly q hfile hgone
  · intro hentries q hfile hgone
    obtain ⟨hreached, hdeletes⟩ := (hspec.removed q).mp (gone_iff.mp ⟨hfile, hgone⟩)
    exact hentries q hreached hdeletes

/-! ### Trees of one candidate -/

/-- A pass of the third day that is refused nothing. -/
def thirdDay : Pass where
  now := 172800000000
  ttlSeconds := 86400
  order := id
  order_perm := List.Perm.refl
  statFault := fun _ => none
  unlinkFault := fun _ => none
  rmdirFault := fun _ => none
  dirMtime := fun _ => 0

/-- A result of the first day in this directory. -/
def oldResult (dir : Path) : FileTree Bytes :=
  let t := (FileTree.empty.mkdirs [] dir).2
  match t.writeFile dir resultFilename [] 0 with
  | .error _ => t
  | .ok t' => t'

/-- The directory is one of a user and a hash. -/
def oldEntry : FileTree Bytes := oldResult (entryDir ["data", "cache"] 1 sampleHash)

theorem isDir_oldEntry (h : isExpectedLayout ["data", "cache"] q = true) :
    oldEntry.isDir q = false := by
  have hfiles : ∀ q ∈ oldEntry.paths, isExpectedLayout ["data", "cache"] q = true →
      oldEntry.isDir q = false := by decide +kernel
  rw [Bool.eq_false_iff]
  intro hdir
  have hlisted := oldEntry.mem_paths q (by rw [(oldEntry.isDir_iff).mp hdir]; rfl)
  rw [hfiles q hlisted h] at hdir
  cases hdir

theorem purgeContract_iff_oldEntry : PurgeContract ["data", "cache"] thirdDay oldEntry := by
  refine (purgeContract_iff (by decide)).mpr fun q e _ haborts => ?_
  rcases haborts with ⟨-, ⟨-, hstat⟩ | ⟨hdue, hunlink | ⟨-, hdir, -⟩⟩⟩
  · cases hstat
  · cases hunlink
  · rw [isDir_oldEntry hdue.1] at hdir
    cases hdir

/-- A directory that is called `result.json`. -/
theorem not_forall_purgeContract : ¬ ∀ t : FileTree Bytes,
    PurgeContract ["data", "cache"] thirdDay t := by
  intro hclaim
  obtain ⟨gone, -, -, hreturned⟩ :=
    (hclaim (FileTree.empty.mkdirs [] ["data", "cache", "a", "b", "result.json"]).2).returns
  have hraised : (purgeExpired ["data", "cache"] thirdDay
      (FileTree.empty.mkdirs [] ["data", "cache", "a", "b", "result.json"]).2).returned =
        .error .isDirectory := by decide +kernel
  rw [hraised] at hreturned
  cases hreturned

theorem purgesOnlyEntries_iff_oldEntry : PurgesOnlyEntries ["data", "cache"] thirdDay oldEntry := by
  refine (purgesOnlyEntries_iff (by decide)).mpr fun q hreached _ => ?_
  have hlisted : purgeCandidates ["data", "cache"] thirdDay oldEntry =
      [entryPath ["data", "cache"] 1 sampleHash] := by decide +kernel
  have hq := hreached.mem
  rw [hlisted, List.mem_singleton] at hq
  exact ⟨1, sampleHash, by decide +kernel, hq⟩

/-- A result in a directory of an operator. -/
theorem not_forall_purgesOnlyEntries : ¬ ∀ t : FileTree Bytes,
    PurgesOnlyEntries ["data", "cache"] thirdDay t := by
  intro hclaim
  obtain ⟨u, h, -, hpath⟩ := hclaim (oldResult ["data", "cache", "backup", "april"])
    ["data", "cache", "backup", "april", "result.json"] (by decide +kernel) (by decide +kernel)
  have hname : "backup" = uuidStr u := by
    simp only [entryPath, entryDir, List.cons_append, List.nil_append, List.cons.injEq] at hpath
    exact hpath.2.2.1
  exact absurd ((congrArg String.length hname).trans (length_uuidStr u)) (by decide)

end TranscriptionApi.Pipeline
