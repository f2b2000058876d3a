import TranscriptionApi.Pipeline.PutPurge

/-!
What a `put` comes to with a pass of the purge in between.

The pass decides by a `stat` and acts on it calls later, and it removes directories
because they are empty. So it can take a new file for the old one it has seen, and
the directory of an entry from under a `put` that has just made sure of it. Both
begin with a `stat` that finds an old file under the key of the `put`. Where none
does, the pass has no business in the directory of the entry, and what it removes
above it is not what the `put` relies on.
-/

namespace TranscriptionApi.Pipeline

open Lib Python

section Race

variable {φ : Type} (P : Json.Interpreter φ) (base : Path) (call : PutCall φ) (pass : Pass)

/-- No file is above the entry, no directory in the place of one of its files. -/
structure Unblocked (t : FileTree Bytes) : Prop where
  above : ∀ q, q <+: call.dir base → t.file? q = none
  result : t.isDir (call.result base) = false
  tmp : t.isDir (call.tmp base) = false

/-- The pass has not decided to remove the entry, and keeps off its directory. -/
structure KeepsOff (t : FileTree Bytes) (pu : Purging) : Prop where
  layout : ∀ file files, pu = .statting file files ∨ pu = .unlinking file files →
    isExpectedLayout base file = true
  spares : ∀ files, pu = .unlinking (call.result base) files →
    pass.unlinkFault (call.result base) ≠ none ∨ t.isDir (call.result base) = true
  doomed : ∀ d ∈ doomed pu, t.isDir d = true ∧ d ≠ call.dir base ∧
    (base.length < d.length ∨ d = [])

/-- The calls of `os.mkdir` below a directory. -/
def callsBelow : Path → List String → List (Path × Bool)
  | _, [] => []
  | p, c :: names => (p ++ [c], false) :: callsBelow (p ++ [c]) names

/-- The directory of the user was missing, and nothing has come into it. -/
structure Bare (t : FileTree Bytes) (pu : Purging) : Prop where
  empty : ∀ c, t.node (userDir base call.userId ++ [c]) = none
  spared : userDir base call.userId ∉ doomed pu

/-- The tree has what the `put` relies on; `t₀` is the tree it began with. -/
def Prepared (t₀ t : FileTree Bytes) (pu : Purging) : Putting → Prop
  | .making calls => calls = [(call.dir base, true)] ∨ ∃ p parents names,
      calls = (p, parents) :: callsBelow p names ∧ p ++ names = call.dir base ∧
        (parents = false → t.isDir p.dropLast = true) ∧ Bare base call t pu
  | .looking _ p calls => (Unblocked base call t₀ → t.isDir p = true) ∧
      ∃ names, calls = callsBelow p names ∧ p ++ names = call.dir base ∧
        (names ≠ [] → Bare base call t pu)
  | .opening text => Json.dumps P.floats P.limits (.obj call.payload.fields) = .ok text ∧
      t.isDir (call.dir base) = true
  | .writing text => Json.dumps P.floats P.limits (.obj call.payload.fields) = .ok text ∧
      t.isDir (call.dir base) = true ∧ (t.file? (call.tmp base)).isSome = true
  | .replacing text => Json.dumps P.floats P.limits (.obj call.payload.fields) = .ok text ∧
      t.isDir (call.dir base) = true ∧
        t.file? (call.tmp base) = some (encodeUtf8 text, call.now)
  | .done => ∃ text, Json.dumps P.floats P.limits (.obj call.payload.fields) = .ok text ∧
      t.file? (call.result base) = some (encodeUtf8 text, call.now)
  | .failed _ => validAudioHash call.audioHash = false ∨
      (∃ e, Json.dumps P.floats P.limits (.obj call.payload.fields) = .error e) ∨
        ¬Unblocked base call t₀

/-- What holds in every state of a run that begins with the tree `t₀`. -/
structure RaceInv (t₀ : FileTree Bytes) (s : Race) : Prop where
  valid : validAudioHash call.audioHash = false → s.put = .failed .invalidHash
  unblocked : Unblocked base call t₀ → Unblocked base call s.tree
  keepsOff : KeepsOff base call pass s.tree s.purge
  prepared : Prepared P base call t₀ s.tree s.purge s.put

/-- A turn in which the pass does not decide to remove the entry that the `put` is to
replace: its `stat` finds no old file there, or one it may not remove. -/
def LeavesEntry (s : Race) : RaceTurn → Prop
  | .put => True
  | .purge => s.put ≠ .done → ∀ files content mtime,
      s.purge = .statting (call.result base) files →
      s.tree.file? (call.result base) = some (content, mtime) → mtime < pass.cutoff →
        pass.statFault (call.result base) ≠ none ∨ pass.unlinkFault (call.result base) ≠ none

variable {P base call pass} {t₀ t t' : FileTree Bytes} {pu pu' : Purging}

/-! ### Places -/

theorem dir_eq : call.dir base = userDir base call.userId ++ [call.audioHash] := by
  simp [PutCall.dir, entryDir, userDir]

theorem length_dir : (call.dir base).length = base.length + 2 := by
  simp [PutCall.dir, entryDir]

theorem length_user : (userDir base call.userId).length = base.length + 1 := by
  simp [userDir]

theorem dropLast_dir : (call.dir base).dropLast = userDir base call.userId := by
  rw [dir_eq, List.dropLast_concat]

/-- What is above an entry: its directory, the one of the user, and the way to these. -/
theorem above_dir {q : Path} (hq : q <+: call.dir base) :
    q = call.dir base ∨ q = userDir base call.userId ∨ q.length ≤ base.length := by
  rw [dir_eq, List.prefix_concat_iff] at hq
  rcases hq with hq | hq
  · exact .inl (hq.trans dir_eq.symm)
  · rw [userDir, List.prefix_concat_iff] at hq
    exact .inr (hq.imp id List.IsPrefix.length_le)

theorem result_not_above : ¬call.result base <+: call.dir base := entryPath_not_above

theorem tmp_not_above : ¬call.tmp base <+: call.dir base := tmpPath_not_above

/-! ### A turn of the pass -/

theorem doomed_of_idle (h : Idle base pu) : doomed pu = [] := by
  cases pu with
  | unlinking | leavingEntry | leavingUser => exact h.elim
  | _ => rfl

/-- The directories above an entry stay. -/
theorem isDir_above (h : purgeStep base pass t pu = some (t', pu'))
    (hoff : KeepsOff base call pass t pu) {q : Path} (hq : q <+: call.dir base)
    (huser : q = userDir base call.userId → userDir base call.userId ∉ doomed pu)
    (hdir : t.isDir q = true) : t'.isDir q = true := by
  by_cases hdoomed : q ∈ doomed pu
  · obtain ⟨-, hne, hlen⟩ := hoff.doomed q hdoomed
    rcases above_dir hq with heq | heq | hshort
    · exact absurd heq hne
    · exact absurd (heq ▸ hdoomed) (huser heq)
    · rcases hlen with hlen | rfl
      · omega
      · exact (t'.isDir_iff).mpr t'.root
  · exact isDir_purgeStep h hdir hdoomed

theorem node_purgeStep (h : purgeStep base pass t pu = some (t', pu'))
    (hoff : KeepsOff base call pass t pu) {q : Path} (hq : t.node q = none) :
    t'.node q = none := by
  rw [FileTree.node_eq_none_iff] at hq ⊢
  refine ⟨Bool.eq_false_iff.mpr fun hdir => ?_, ?_⟩
  · rw [isDir_of_purgeStep h hdir] at hq
    cases hq.1
  · rcases file?_purgeStep h (fun _ _ heq => hoff.layout _ _ (.inr heq)) q with hfile | ⟨hfile, -⟩
    · exact hfile.trans hq.2
    · exact hfile

/-- An entry that the pass spares keeps its file. -/
theorem file?_result (h : purgeStep base pass t pu = some (t', pu'))
    (hoff : KeepsOff base call pass t pu) :
    t'.file? (call.result base) = t.file? (call.result base) := by
  rcases file?_purgeStep h (fun _ _ heq => hoff.layout _ _ (.inr heq)) (call.result base) with
    hfile | ⟨-, files, hpu, hunlink⟩
  · exact hfile
  · obtain ⟨hfault, hok⟩ := unlinkEntry_ok hunlink
    rcases hoff.spares files hpu with hfault' | hdir
    · exact absurd hfault hfault'
    · obtain ⟨⟨f, hf⟩, -⟩ := FileTree.unlink_ok hok
      rw [dropLast_of_isExpectedLayout (hoff.layout _ _ (.inr hpu)),
        t.file?_of_isDir hdir] at hf
      cases hf

theorem file?_tmp (h : purgeStep base pass t pu = some (t', pu'))
    (hoff : KeepsOff base call pass t pu) :
    t'.file? (call.tmp base) = t.file? (call.tmp base) := by
  rcases file?_purgeStep h (fun _ _ heq => hoff.layout _ _ (.inr heq)) (call.tmp base) with
    hfile | ⟨-, files, hpu, -⟩
  · exact hfile
  · have hlayout := hoff.layout _ _ (.inr hpu)
    simp [isExpectedLayout, PutCall.tmp, tmpPath, tmpFilename, resultFilename] at hlayout

theorem Unblocked.purgeStep (h : purgeStep base pass t pu = some (t', pu'))
    (hoff : KeepsOff base call pass t pu) (hfree : Unblocked base call t) :
    Unblocked base call t' where
  above q hq := by
    rcases file?_purgeStep h (fun _ _ heq => hoff.layout _ _ (.inr heq)) q with hfile | ⟨hfile, -⟩
    · exact hfile.trans (hfree.above q hq)
    · exact hfile
  result := Bool.eq_false_iff.mpr fun hdir =>
    Bool.eq_false_iff.mp hfree.result (isDir_of_purgeStep h hdir)
  tmp := Bool.eq_false_iff.mpr fun hdir =>
    Bool.eq_false_iff.mp hfree.tmp (isDir_of_purgeStep h hdir)

/-- What the pass can unlink is in two directories. -/
theorem dirs_of_unlinkEntry {file : Path} (h : unlinkEntry pass t file = .ok t')
    (hlayout : isExpectedLayout base file = true) :
    (t.node file).isSome = true ∧ t.isDir file.dropLast = true ∧
      t.isDir file.dropLast.dropLast = true := by
  obtain ⟨⟨⟨content, mtime⟩, hf⟩, -⟩ := FileTree.unlink_ok (unlinkEntry_ok h).2
  rw [dropLast_of_isExpectedLayout hlayout, t.file?_eq_some_iff] at hf
  have hnode : (t.node file).isSome = true := by rw [hf]; rfl
  have hdir := t.isDir_dropLast hnode
  exact ⟨hnode, hdir, t.isDir_dropLast (by rw [(t.isDir_iff).mp hdir]; rfl)⟩

theorem Bare.purgeStep (h : purgeStep base pass t pu = some (t', pu'))
    (hoff : KeepsOff base call pass t pu) (hbare : Bare base call t pu) :
    Bare base call t' pu' := by
  refine ⟨fun c => node_purgeStep h hoff (hbare.empty c), ?_⟩
  rcases purgeStep_cases h with ⟨-, hidle⟩ | ⟨file, files, mtime, -, -, -, -, rfl⟩ |
    ⟨file, files, rfl, hunlink, rfl⟩ | ⟨file, files, rfl, -, rfl⟩ | ⟨file, files, -, -, hidle⟩
  · rw [doomed_of_idle hidle]
    exact List.not_mem_nil
  · exact List.not_mem_nil
  · -- there would have been something in the directory of the user
    have hlayout := hoff.layout file files (.inr rfl)
    obtain ⟨hnode, hdir, -⟩ := dirs_of_unlinkEntry hunlink hlayout
    intro hmem
    rcases List.mem_pair.mp hmem with heq | heq
    · rw [← dropLast_of_isExpectedLayout hlayout, ← heq, hbare.empty] at hnode
      cases hnode
    · obtain ⟨c, hc⟩ : ∃ c, file.dropLast.getLast? = some c := by
        rw [← Option.isSome_iff_exists, Option.isSome_iff_ne_none, ne_eq,
          List.getLast?_eq_none_iff]
        intro hnil
        rw [hnil, List.dropLast_nil] at heq
        simp [userDir] at heq
      rw [t.isDir_iff, ← List.dropLast_append_getLast? c hc, ← heq, hbare.empty] at hdir
      cases hdir
  · exact fun hmem => hbare.spared (List.mem_cons_of_mem _ hmem)
  · rw [doomed_of_idle hidle]
    exact List.not_mem_nil

theorem KeepsOff.of_idle (hidle : Idle base pu) : KeepsOff base call pass t pu where
  layout file files hpu := by
    rcases hpu with rfl | rfl
    · exact hidle
    · exact hidle.elim
  spares files hpu := by
    subst hpu
    exact hidle.elim
  doomed := by
    rw [doomed_of_idle hidle]
    exact fun d hd => absurd hd List.not_mem_nil

/-- The two directories of a file of the layout, as long as paths. -/
theorem length_dirs {file : Path} (hlayout : isExpectedLayout base file = true) :
    (base.length < file.dropLast.length ∨ file.dropLast = []) ∧
      (base.length < file.dropLast.dropLast.length ∨ file.dropLast.dropLast = []) := by
  simp only [isExpectedLayout, Bool.and_eq_true, decide_eq_true_eq] at hlayout
  have hlen := congrArg List.length hlayout.2
  simp only [List.length_dropLast] at hlen
  simp only [← List.length_eq_zero_iff, List.length_dropLast]
  omega

theorem KeepsOff.purgeStep (h : purgeStep base pass t pu = some (t', pu'))
    (hoff : KeepsOff base call pass t pu)
    (hdecide : ∀ files mtime, pu = .statting (call.result base) files →
      statMtime pass t (call.result base) = .ok mtime → mtime < pass.cutoff →
        pass.unlinkFault (call.result base) ≠ none ∨ t.isDir (call.result base) = true) :
    KeepsOff base call pass t' pu' := by
  rcases purgeStep_cases h with ⟨-, hidle⟩ | ⟨file, files, mtime, rfl, hstat, hold, rfl, rfl⟩ |
    ⟨file, files, rfl, hunlink, rfl⟩ | ⟨file, files, rfl, rfl, rfl⟩ | ⟨file, files, -, -, hidle⟩
  · exact .of_idle hidle
  · refine ⟨fun file' files' hpu => ?_, fun files' hpu => ?_, fun d hd => absurd hd ?_⟩
    · rcases hpu with hpu | hpu
      · cases hpu
      · cases hpu
        exact hoff.layout file files (.inl rfl)
    · cases hpu
      exact hdecide files mtime rfl hstat hold
    · exact List.not_mem_nil
  · have hlayout := hoff.layout file files (.inr rfl)
    obtain ⟨-, hdir, hdir'⟩ := dirs_of_unlinkEntry hunlink hlayout
    obtain ⟨hlen, hlen'⟩ := length_dirs hlayout
    refine ⟨fun file' files' hpu => ?_, fun files' hpu => ?_, fun d hd => ?_⟩
    · rcases hpu with hpu | hpu
      · cases hpu
      · cases hpu
    · cases hpu
    · rw [FileTree.isDir_unlink (unlinkEntry_ok hunlink).2]
      rcases List.mem_pair.mp hd with rfl | rfl
      · refine ⟨hdir, fun heq => ?_, hlen⟩
        -- it would be the entry
        have hfile : file = call.result base := by
          rw [← dropLast_of_isExpectedLayout hlayout, heq]
          rfl
        subst hfile
        rcases hoff.spares files rfl with hfault | hisDir
        · exact hfault (unlinkEntry_ok hunlink).1
        · obtain ⟨⟨f, hf⟩, -⟩ := FileTree.unlink_ok (unlinkEntry_ok hunlink).2
          rw [dropLast_of_isExpectedLayout hlayout, t.file?_of_isDir hisDir] at hf
          cases hf
      · refine ⟨hdir', fun heq => ?_, hlen'⟩
        have hshort := length_of_isExpectedLayout hlayout
        have hlong := congrArg List.length heq
        rw [length_dir] at hlong
        simp only [List.length_dropLast] at hlong
        omega
  · refine ⟨fun file' files' hpu => ?_, fun files' hpu => ?_, fun d hd => ?_⟩
    · rcases hpu with hpu | hpu
      · cases hpu
      · cases hpu
    · cases hpu
    · obtain rfl := List.mem_singleton.mp hd
      obtain ⟨hdir, hne, hlen⟩ := hoff.doomed _ (List.mem_cons_of_mem _ (List.mem_singleton_self _))
      refine ⟨?_, hne, hlen⟩
      by_cases hsame : file.dropLast.dropLast = file.dropLast
      · have hnil : file.dropLast.dropLast = [] := by
          have hlen := congrArg List.length hsame
          rw [List.length_dropLast] at hlen
          rw [hsame]
          exact List.length_eq_zero_iff.mp (by omega)
        rw [hnil]
        exact (FileTree.isDir_iff _).mpr (FileTree.root _)
      · rwa [isDir_safeRmdir_of_ne hsame]
  · exact .of_idle hidle

/-- A tree with more directories. -/
theorem KeepsOff.mono (hoff : KeepsOff base call pass t pu)
    (hdirs : ∀ q, t.isDir q = true → t'.isDir q = true) : KeepsOff base call pass t' pu where
  layout := hoff.layout
  spares files hpu := (hoff.spares files hpu).imp_right (hdirs _)
  doomed d hd := ⟨hdirs d (hoff.doomed d hd).1, (hoff.doomed d hd).2⟩

variable {put put' : Putting}

/-- The pass leaves the `put` what it relies on. -/
theorem Prepared.purgeStep (h : purgeStep base pass t pu = some (t', pu'))
    (hoff : KeepsOff base call pass t pu) (hput : Prepared P base call t₀ t pu put) :
    Prepared P base call t₀ t' pu' put := by
  have hdir : call.dir base ∉ doomed pu := fun hmem => (hoff.doomed _ hmem).2.1 rfl
  cases put with
  | making calls =>
      refine hput.imp_right ?_
      rintro ⟨p, parents, names, rfl, hpath, hparent, hbare⟩
      refine ⟨p, parents, names, rfl, hpath, fun hparents => ?_, hbare.purgeStep h hoff⟩
      have habove : p.dropLast <+: call.dir base :=
        (List.dropLast_prefix p).trans (hpath ▸ List.prefix_append p names)
      exact isDir_above h hoff habove (fun _ => hbare.spared) (hparent hparents)
  | looking e p calls =>
      obtain ⟨hthere, names, rfl, hpath, hbare⟩ := hput
      refine ⟨fun hfree => ?_, names, rfl, hpath, fun hne => (hbare hne).purgeStep h hoff⟩
      by_cases hnames : names = []
      · rw [hnames, List.append_nil] at hpath
        rw [hpath] at hthere ⊢
        exact isDir_purgeStep h (hthere hfree) hdir
      · exact isDir_above h hoff (hpath ▸ List.prefix_append p names)
          (fun _ => (hbare hnames).spared) (hthere hfree)
  | opening text => exact ⟨hput.1, isDir_purgeStep h hput.2 hdir⟩
  | writing text =>
      refine ⟨hput.1, isDir_purgeStep h hput.2.1 hdir, ?_⟩
      rw [file?_tmp h hoff]
      exact hput.2.2
  | replacing text =>
      refine ⟨hput.1, isDir_purgeStep h hput.2.1 hdir, ?_⟩
      rw [file?_tmp h hoff]
      exact hput.2.2
  | done =>
      obtain ⟨text, htext, hfile⟩ := hput
      exact ⟨text, htext, (file?_result h hoff).trans hfile⟩
  | failed e => exact hput

/-! ### A turn of the put -/

/-- What a turn of the `put` changes. -/
structure Grown (base : Path) (call : PutCall φ) (t t' : FileTree Bytes) : Prop where
  dirs : ∀ q, t.isDir q = true → t'.isDir q = true
  made : ∀ q, t'.isDir q = true → t.isDir q = true ∨ q <+: call.dir base
  files : ∀ q, q ≠ call.tmp base → q ≠ call.result base → t'.file? q = t.file? q

theorem Grown.refl (t : FileTree Bytes) : Grown base call t t where
  dirs _ h := h
  made _ h := .inl h
  files _ _ _ := rfl

theorem Unblocked.grown (hgrown : Grown base call t t') (hfree : Unblocked base call t) :
    Unblocked base call t' where
  above q hq := by
    have htmp : q ≠ call.tmp base := fun heq => tmp_not_above (heq ▸ hq)
    have hresult : q ≠ call.result base := fun heq => result_not_above (heq ▸ hq)
    exact (hgrown.files q htmp hresult).trans (hfree.above q hq)
  result := Bool.eq_false_iff.mpr fun hdir => (hgrown.made _ hdir).elim
    (Bool.eq_false_iff.mp hfree.result) result_not_above
  tmp := Bool.eq_false_iff.mpr fun hdir => (hgrown.made _ hdir).elim
    (Bool.eq_false_iff.mp hfree.tmp) tmp_not_above

/-- A `put` that has the directory `p` goes on with the ones below. -/
theorem prepared_goOn {p : Path} {names : List String} (hpath : p ++ names = call.dir base)
    (hdir : t.isDir p = true) (hbare : names ≠ [] → Bare base call t pu) :
    Prepared P base call t₀ t pu (call.goOn P (callsBelow p names)) := by
  cases names with
  | nil =>
      rw [List.append_nil] at hpath
      show Prepared P base call t₀ t pu (call.afterMkdirs P)
      unfold PutCall.afterMkdirs
      cases htext : Json.dumps P.floats P.limits (.obj call.payload.fields) with
      | error e => exact .inr (.inl ⟨e, htext⟩)
      | ok text => exact ⟨htext, hpath ▸ hdir⟩
  | cons c names =>
      refine .inr ⟨p ++ [c], false, names, rfl, by rw [← hpath]; simp, fun _ => ?_,
        hbare (List.cons_ne_nil c names)⟩
      rwa [List.dropLast_concat]

theorem grown_osMkdir {p : Path} (hp : p <+: call.dir base) (h : osMkdir t p = .ok t') :
    Grown base call t t' where
  dirs q hq := ((osMkdir_ok h).2 q).mpr (.inr hq)
  made q hq := by
    rcases ((osMkdir_ok h).2 q).mp hq with rfl | hq
    · exact .inr hp
    · exact .inl hq
  files q _ _ := (osMkdir_ok h).1 q

/-- A directory above the one of the entry leaves that of the user bare. -/
theorem Bare.osMkdir {p : Path} {names : List String} (hpath : p ++ names = call.dir base)
    (hnames : names ≠ []) (h : osMkdir t p = .ok t') (hbare : Bare base call t pu) :
    Bare base call t' pu := by
  refine ⟨fun c => ?_, hbare.spared⟩
  obtain ⟨hdir, hfile⟩ := (FileTree.node_eq_none_iff _).mp (hbare.empty c)
  refine (FileTree.node_eq_none_iff _).mpr ⟨Bool.eq_false_iff.mpr fun hmade => ?_,
    ((osMkdir_ok h).1 _).trans hfile⟩
  rcases ((osMkdir_ok h).2 _).mp hmade with heq | hmade
  · have hlen := congrArg List.length hpath
    have hpos := List.length_pos_of_ne_nil hnames
    rw [← heq, length_dir] at hlen
    simp only [List.length_append, length_user, List.length_singleton] at hlen
    omega
  · rw [hdir] at hmade
    cases hmade

/-- A call of `os.mkdir`. -/
theorem prepared_making {p : Path} {parents : Bool} {calls : List (Path × Bool)}
    (hoff : KeepsOff base call pass t pu) (hfwd : Unblocked base call t₀ → Unblocked base call t)
    (hput : Prepared P base call t₀ t pu (.making ((p, parents) :: calls)))
    (h : putStep P base call t (.making ((p, parents) :: calls)) = some (t', put')) :
    Grown base call t t' ∧ Prepared P base call t₀ t' pu put' := by
  -- both kinds of call list are calls below `p`
  obtain ⟨names, hcalls, hpath, hbare, hparent⟩ : ∃ names, calls = callsBelow p names ∧
      p ++ names = call.dir base ∧ (names ≠ [] → Bare base call t pu) ∧
        ((parents = true ∧ names = []) ∨
          Bare base call t pu ∧ (parents = false → t.isDir p.dropLast = true)) := by
    rcases hput with hfirst | ⟨p', parents', names, hcalls, hpath, hparent, hbare⟩
    · simp only [List.cons.injEq, Prod.mk.injEq] at hfirst
      obtain ⟨⟨rfl, rfl⟩, rfl⟩ := hfirst
      exact ⟨[], rfl, List.append_nil _, fun hne => absurd rfl hne, .inl ⟨rfl, rfl⟩⟩
    · simp only [List.cons.injEq, Prod.mk.injEq] at hcalls
      obtain ⟨⟨rfl, rfl⟩, rfl⟩ := hcalls
      exact ⟨names, rfl, hpath, fun _ => hbare, .inr ⟨hbare, hparent⟩⟩
  subst hcalls
  have habove : p <+: call.dir base := hpath ▸ List.prefix_append p names
  have hroot : t.isDir [] = true := (t.isDir_iff).mpr t.root
  simp only [putStep] at h
  split at h
  · rename_i t₁ hmk
    cases h
    refine ⟨grown_osMkdir habove hmk, prepared_goOn hpath (((osMkdir_ok hmk).2 p).mpr (.inl rfl))
      fun hne => (hbare hne).osMkdir hpath hne hmk⟩
  · rename_i hmk
    have hmissing := osMkdir_noEntry hmk
    have hp : p ≠ [] := by
      rintro rfl
      rw [List.dropLast_nil, hroot] at hmissing
      cases hmissing
    split at h
    · cases h
      refine ⟨.refl t, .inr ?_⟩
      obtain ⟨c, hc⟩ : ∃ c, p.getLast? = some c :=
        ⟨p.getLast hp, List.getLast?_eq_some_getLast hp⟩
      have happ := List.dropLast_append_getLast? c hc
      refine ⟨p.dropLast, true, c :: names, ?_, ?_, fun hfalse => (by cases hfalse), ?_⟩
      · rw [callsBelow, happ]
      · rw [← hpath, List.append_cons, happ]
      · rcases hparent with ⟨-, rfl⟩ | ⟨hbare, -⟩
        · -- the user had no directory, so none is about to be removed
          rw [List.append_nil] at hpath
          rw [hpath, dropLast_dir] at hmissing
          refine ⟨t.child_eq_none hmissing, fun hmem => ?_⟩
          rw [(hoff.doomed _ hmem).1] at hmissing
          cases hmissing
        · exact hbare
    · rename_i hno
      rcases hparent with ⟨rfl, -⟩ | ⟨-, hparent⟩
      · simp [hp] at hno
      · have hfalse : parents = false := by
          simpa [hp] using hno
        rw [hparent hfalse] at hmissing
        cases hmissing
  · rename_i e he hmk
    cases h
    refine ⟨.refl t, fun hfree => ?_, names, rfl, hpath, hbare⟩
    exact isDir_of_osMkdir hmk he fun q hq => (hfwd hfree).above q (hq.trans habove)

/-- The `is_dir` of `mkdir`. -/
theorem prepared_looking {e : Errno} {p : Path} {calls : List (Path × Bool)}
    (hput : Prepared P base call t₀ t pu (.looking e p calls))
    (h : putStep P base call t (.looking e p calls) = some (t', put')) :
    Grown base call t t' ∧ Prepared P base call t₀ t' pu put' := by
  obtain ⟨hthere, names, rfl, hpath, hbare⟩ := hput
  simp only [putStep] at h
  split at h
  · rename_i hdir
    cases h
    exact ⟨.refl t, prepared_goOn hpath hdir hbare⟩
  · rename_i hdir
    cases h
    exact ⟨.refl t, .inr (.inr fun hfree => hdir (hthere hfree))⟩

/-- A write into the directory of the entry fails on a directory in its place only. -/
theorem isDir_of_writeFile_error {c : String} {content : Bytes} {now : ℤ} {p : Path} {e : Errno}
    (hp : t.isDir p = true) (h : t.writeFile p c content now = .error e) :
    t.isDir (p ++ [c]) = true := by
  by_contra hc
  obtain ⟨t₁, hok⟩ : ∃ t₁, t.writeFile p c content now = .ok t₁ :=
    FileTree.writeFile_isOk hp (Bool.eq_false_iff.mpr hc)
  rw [h] at hok
  cases hok

theorem grown_writeFile {content : Bytes} {now : ℤ}
    (h : t.writeFile (call.dir base) tmpFilename content now = .ok t') :
    Grown base call t t' where
  dirs q hq := by rwa [FileTree.isDir_writeFile h]
  made q hq := .inl (by rwa [FileTree.isDir_writeFile h] at hq)
  files q hq _ := (FileTree.file?_writeFile h q).trans (if_neg hq)

/-- A write that fails: a directory stood in the place of the temporary file. -/
theorem prepared_of_writeFile_error {content : Bytes} {now : ℤ} {e : Errno}
    (hfwd : Unblocked base call t₀ → Unblocked base call t) (hdir : t.isDir (call.dir base) = true)
    (h : t.writeFile (call.dir base) tmpFilename content now = .error e) :
    Prepared P base call t₀ t pu (.failed (.os e)) := by
  have htmp := isDir_of_writeFile_error hdir h
  exact .inr (.inr fun hfree => Bool.eq_false_iff.mp (hfwd hfree).tmp htmp)

theorem prepared_opening {text : List Char}
    (hfwd : Unblocked base call t₀ → Unblocked base call t)
    (hput : Prepared P base call t₀ t pu (.opening text))
    (h : putStep P base call t (.opening text) = some (t', put')) :
    Grown base call t t' ∧ Prepared P base call t₀ t' pu put' := by
  obtain ⟨htext, hdir⟩ := hput
  simp only [putStep] at h
  split at h
  · rename_i hwrite
    cases h
    exact ⟨.refl t, prepared_of_writeFile_error hfwd hdir hwrite⟩
  · rename_i t₁ hwrite
    cases h
    refine ⟨grown_writeFile hwrite, htext, ?_, ?_⟩
    · rwa [FileTree.isDir_writeFile hwrite]
    · exact congrArg Option.isSome ((FileTree.file?_writeFile hwrite _).trans (if_pos rfl))

theorem prepared_writing {text : List Char}
    (hfwd : Unblocked base call t₀ → Unblocked base call t)
    (hput : Prepared P base call t₀ t pu (.writing text))
    (h : putStep P base call t (.writing text) = some (t', put')) :
    Grown base call t t' ∧ Prepared P base call t₀ t' pu put' := by
  obtain ⟨htext, hdir, hopen⟩ := hput
  simp only [putStep] at h
  split at h
  · rename_i hnone
    rw [hnone] at hopen
    cases hopen
  · split at h
    · rename_i hwrite
      cases h
      exact ⟨.refl t, prepared_of_writeFile_error hfwd hdir hwrite⟩
    · rename_i t₁ hwrite
      cases h
      refine ⟨grown_writeFile hwrite, htext, ?_, ?_⟩
      · rwa [FileTree.isDir_writeFile hwrite]
      · exact (FileTree.file?_writeFile hwrite _).trans (if_pos rfl)

theorem prepared_replacing {text : List Char}
    (hfwd : Unblocked base call t₀ → Unblocked base call t)
    (hput : Prepared P base call t₀ t pu (.replacing text))
    (h : putStep P base call t (.replacing text) = some (t', put')) :
    Grown base call t t' ∧ Prepared P base call t₀ t' pu put' := by
  obtain ⟨htext, hdir, hfile⟩ := hput
  simp only [putStep] at h
  split at h
  · rename_i hreplace
    cases h
    refine ⟨.refl t, .inr (.inr fun hfree => ?_)⟩
    obtain ⟨t₁, hok⟩ : ∃ t₁, t.replace (call.dir base) tmpFilename resultFilename = .ok t₁ :=
      FileTree.replace_isOk hdir hfile (hfwd hfree).result
    rw [hreplace] at hok
    cases hok
  · rename_i t₁ hreplace
    cases h
    have hfiles := FileTree.file?_replace hreplace hfile
    refine ⟨⟨fun q hq => ?_, fun q hq => ?_, fun q htmp hresult => ?_⟩, text, htext, ?_⟩
    · rwa [FileTree.isDir_replace hreplace]
    · rw [FileTree.isDir_replace hreplace] at hq
      exact .inl hq
    · exact (hfiles q).trans ((if_neg hresult).trans (if_neg htmp))
    · exact (hfiles _).trans (if_pos rfl)

theorem Prepared.putStep (hoff : KeepsOff base call pass t pu)
    (hfwd : Unblocked base call t₀ → Unblocked base call t)
    (hput : Prepared P base call t₀ t pu put)
    (h : putStep P base call t put = some (t', put')) :
    Grown base call t t' ∧ Prepared P base call t₀ t' pu put' := by
  cases put with
  | making calls =>
      cases calls with
      | nil => cases h
      | cons c calls => exact prepared_making hoff hfwd hput h
  | looking e p calls => exact prepared_looking hput h
  | opening text => exact prepared_opening hfwd hput h
  | writing text => exact prepared_writing hfwd hput h
  | replacing text => exact prepared_replacing hfwd hput h
  | done => cases h
  | failed e => cases h

/-! ### Runs -/

theorem RaceInv.start (t : FileTree Bytes) :
    RaceInv P base call pass t (startRace base call t) where
  valid hh := if_neg (Bool.eq_false_iff.mp hh)
  unblocked := id
  keepsOff := .of_idle trivial
  prepared := by
    show Prepared P base call t t .starting (call.start base)
    unfold PutCall.start
    split
    · exact .inl rfl
    · rename_i hh
      exact .inl (Bool.eq_false_iff.mpr hh)

theorem mtime_of_statMtime {file : Path} {mtime : ℤ} (h : statMtime pass t file = .ok mtime) :
    pass.statFault file = none ∧
      (t.isDir file = true ∨ ∃ content, t.file? file = some (content, mtime)) := by
  unfold statMtime at h
  split at h
  · cases h
  · rename_i hfault
    refine ⟨hfault, ?_⟩
    split at h
    · cases h
    · rename_i hdir
      exact .inl ((t.isDir_iff).mpr hdir)
    · rename_i content mtime' hfile
      cases h
      exact .inr ⟨content, (t.file?_eq_some_iff).mpr hfile⟩

/-- A turn that leaves the entry keeps the invariant, as long as a finished `put` has
written a file that the pass takes for fresh. -/
theorem RaceInv.step {s s' : Race} {turn : RaceTurn}
    (hinv : RaceInv P base call pass t₀ s) (hleaves : LeavesEntry base call pass s turn)
    (hfresh : s.put = .done → pass.cutoff ≤ call.now)
    (h : (raceSystem P base call pass).step s turn = some s') :
    RaceInv P base call pass t₀ s' := by
  cases turn with
  | put =>
      obtain ⟨⟨t', put'⟩, hput, rfl⟩ := Option.map_eq_some_iff.mp h
      obtain ⟨hgrown, hprepared⟩ := hinv.prepared.putStep hinv.keepsOff hinv.unblocked hput
      refine ⟨fun hh => ?_, fun hfree => (hinv.unblocked hfree).grown hgrown,
        hinv.keepsOff.mono hgrown.dirs, hprepared⟩
      rw [hinv.valid hh] at hput
      cases hput
  | purge =>
      obtain ⟨⟨t', pu'⟩, hpurge, rfl⟩ := Option.map_eq_some_iff.mp h
      refine ⟨hinv.valid, fun hfree => (hinv.unblocked hfree).purgeStep hpurge hinv.keepsOff,
        hinv.keepsOff.purgeStep hpurge ?_, hinv.prepared.purgeStep hpurge hinv.keepsOff⟩
      intro files mtime hpu hstat hold
      obtain ⟨hstatFault, hdir | ⟨content, hfile⟩⟩ := mtime_of_statMtime hstat
      · exact .inr hdir
      · by_cases hdone : s.put = .done
        · -- the file is the one of the `put`
          have hprepared := hinv.prepared
          rw [hdone] at hprepared
          obtain ⟨text, -, hwritten⟩ := hprepared
          rw [hfile, Option.some.injEq, Prod.mk.injEq] at hwritten
          have hyoung := hfresh hdone
          omega
        · exact .inl ((hleaves hdone files content mtime hpu hfile hold).resolve_left fun hne =>
            hne hstatFault)

/-- A finished `put` makes no turn. -/
theorem done_of_step {s s' : Race} {turn : RaceTurn}
    (h : (raceSystem P base call pass).step s turn = some s') (hdone : s.put = .done) :
    s'.put = .done := by
  cases turn with
  | put =>
      obtain ⟨r, hput, rfl⟩ := Option.map_eq_some_iff.mp h
      rw [hdone] at hput
      cases hput
  | purge =>
      obtain ⟨r, -, rfl⟩ := Option.map_eq_some_iff.mp h
      exact hdone

theorem RaceInv.run {s s' : Race} {turns : List RaceTurn}
    (hinv : (s.put = .done → pass.cutoff ≤ call.now) → RaceInv P base call pass t₀ s)
    (hleaves : (raceSystem P base call pass).Along
      (fun s turn _ => LeavesEntry base call pass s turn) s turns)
    (hrun : (raceSystem P base call pass).run s turns = some s') :
    (s'.put = .done → pass.cutoff ≤ call.now) → RaceInv P base call pass t₀ s' := by
  refine System.invariant_along _ (I := fun s => (s.put = .done → pass.cutoff ≤ call.now) →
    RaceInv P base call pass t₀ s) ?_ hinv hleaves hrun
  intro s turn s' hs hturn hstep hfresh
  have hbefore : s.put = .done → pass.cutoff ≤ call.now := fun hdone =>
    hfresh (done_of_step hstep hdone)
  exact (hs hbefore).step hturn hbefore hstep

theorem isDir_put_of_isDir {q : Path} {payload : Json.Value φ} {now : ℤ} {u : Uuid} {h : String}
    (hq : t.isDir q = true) : (CacheStore.put P base t u h payload now).2.isDir q = true := by
  rcases put_cases t u h payload now with ⟨e, heq | heq⟩ | ⟨text, -, -, heq⟩
  · rwa [heq]
  · rw [heq]
    exact FileTree.isDir_mkdirs_of_isDir hq
  · rw [heq, isDir_writeEntry]
    exact FileTree.isDir_mkdirs_of_isDir hq

/-- What a `put` that returns says about the tree it began with. -/
theorem unblocked_of_put {payload : Json.Value φ} {now : ℤ}
    (hok : (CacheStore.put P base t call.userId call.audioHash payload now).1 = .ok ()) :
    Unblocked base call t := by
  obtain ⟨hh, text, htext, hfiles⟩ := put_ok hok
  have hentry : (CacheStore.put P base t call.userId call.audioHash payload now).2.file?
      (call.result base) = some (encodeUtf8 text, now) := (hfiles _).trans (if_pos rfl)
  have habove : ∀ q, q <+: call.dir base → t.file? q = none := by
    rintro q ⟨names, hq⟩
    have hfile := hfiles q
    rw [if_neg (by rintro rfl; exact result_not_above ⟨names, hq⟩),
      if_neg (by rintro rfl; exact tmp_not_above ⟨names, hq⟩)] at hfile
    have hnode : ((CacheStore.put P base t call.userId call.audioHash payload now).2.node
        (call.result base)).isSome = true := by
      rw [(FileTree.file?_eq_some_iff _).mp hentry]
      rfl
    have hdir := FileTree.isDir_dropLast _ hnode
    have hdrop : (call.result base).dropLast = q ++ names := by
      rw [hq]
      exact List.dropLast_concat
    rw [hdrop] at hdir
    rw [← hfile, FileTree.file?_of_isDir _ (FileTree.isDir_of_append _ names hdir)]
  have hresult : t.isDir (call.result base) = false := by
    rw [Bool.eq_false_iff]
    intro hdir
    rw [FileTree.file?_of_isDir _ (isDir_put_of_isDir hdir)] at hentry
    cases hentry
  refine ⟨habove, hresult, Bool.eq_false_iff.mpr fun htmp => ?_⟩
  rw [put_fst hh habove hresult, htext] at hok
  have hdir : t.isDir (tmpPath base call.userId call.audioHash) = true := htmp
  simp [hdir] at hok

variable (P base call pass) in
/-- A `put` that would return without the pass does not fail with it, and a `put` that is
done, and wrote a file the pass takes for fresh, is what `get` returns. -/
structure Survives (t : FileTree Bytes) (s : Race) : Prop where
  put : (CacheStore.put P base t call.userId call.audioHash (.obj call.payload.fields)
    call.now).1 = .ok () → ∀ e, s.put ≠ .failed e
  entry : s.put = .done → pass.cutoff ≤ call.now →
    CacheStore.get P base s.tree call.userId call.audioHash = .ok (some (.obj call.payload.fields))

theorem RaceInv.survives {s : Race}
    (hinv : (s.put = .done → pass.cutoff ≤ call.now) → RaceInv P base call pass t s) :
    Survives P base call pass t s := by
  refine ⟨fun hok e hfailed => ?_, fun hdone hfresh => ?_⟩
  · have hprepared := (hinv fun hdone => (by rw [hfailed] at hdone; cases hdone)).prepared
    obtain ⟨hh, text, htext, -⟩ := put_ok hok
    rw [hfailed] at hprepared
    rcases hprepared with hh' | ⟨e', herror⟩ | hblocked
    · rw [hh] at hh'
      cases hh'
    · rw [htext] at herror
      cases herror
    · exact hblocked (unblocked_of_put hok)
  · have hprepared := (hinv fun _ => hfresh).prepared
    rw [hdone] at hprepared
    obtain ⟨text, htext, hfile⟩ := hprepared
    have hh : validAudioHash call.audioHash = true := by
      by_contra hh
      have hfailed := (hinv fun _ => hfresh).valid (Bool.eq_false_iff.mpr hh)
      rw [hdone] at hfailed
      cases hfailed
    rw [CacheStore.get, if_pos hh, show s.tree.file? (entryPath base _ _) = _ from hfile]
    exact readEntry_dumps htext call.payload.distinct

/-- In every run in which the pass does not decide to remove the entry before the `put`
is done, every state has the `put` and its entry survive. -/
theorem put_survives_purge (P : Json.Interpreter φ) (base : Path) (call : PutCall φ) (pass : Pass)
    (t : FileTree Bytes) {turns : List RaceTurn} {s : Race}
    (hleaves : (raceSystem P base call pass).Along
      (fun s turn _ => LeavesEntry base call pass s turn) (startRace base call t) turns)
    (hrun : (raceSystem P base call pass).run (startRace base call t) turns = some s) :
    Survives P base call pass t s :=
  RaceInv.survives (RaceInv.run (fun _ => .start t) hleaves hrun)

/-! ### Trees without an old entry -/

theorem file?_result_putStep (h : putStep P base call t put = some (t', put'))
    (hdone : put' ≠ .done) : t'.file? (call.result base) = t.file? (call.result base) := by
  have htmp : call.result base ≠ call.dir base ++ [tmpFilename] := entryPath_ne_tmpPath
  unfold putStep at h
  split at h
  · cases h
  · split at h
    · rename_i hmk
      cases h
      exact (osMkdir_ok hmk).1 _
    · split at h
      · cases h
        rfl
      · cases h
        rfl
    · cases h
      rfl
  · split at h
    · cases h
      rfl
    · cases h
      rfl
  · split at h
    · cases h
      rfl
    · rename_i hwrite
      cases h
      exact (FileTree.file?_writeFile hwrite _).trans (if_neg htmp)
  · split at h
    · cases h
      rfl
    · split at h
      · cases h
        rfl
      · rename_i hwrite
        cases h
        exact (FileTree.file?_writeFile hwrite _).trans (if_neg htmp)
  · split at h
    · cases h
      rfl
    · cases h
      exact absurd rfl hdone
  · cases h
  · cases h

/-- The pass makes no file. -/
theorem file?_of_purgeStep (h : purgeStep base pass t pu = some (t', pu')) {q : Path}
    {f : Bytes × ℤ} (hf : t'.file? q = some f) : t.file? q = some f := by
  rcases purgeStep_cases h with ⟨rfl, -⟩ | ⟨file, files, mtime, -, -, -, rfl, -⟩ |
    ⟨file, files, -, hunlink, -⟩ | ⟨file, files, -, rfl, -⟩ | ⟨file, files, -, rfl, -⟩
  · exact hf
  · exact hf
  · rw [FileTree.file?_unlink (unlinkEntry_ok hunlink).2] at hf
    split at hf
    · cases hf
    · exact hf
  · rwa [file?_safeRmdir] at hf
  · rwa [file?_safeRmdir] at hf

/-- Where the entry is absent, or young enough, when the two begin, the pass never decides
to remove it. -/
theorem leavesEntry_of_young
    (hyoung : ∀ content mtime, t.file? (call.result base) = some (content, mtime) →
      pass.cutoff ≤ mtime) (turns : List RaceTurn) :
    (raceSystem P base call pass).Along (fun s turn _ => LeavesEntry base call pass s turn)
      (startRace base call t) turns := by
  refine System.along_of_invariant _ (I := fun s => s.put ≠ .done → ∀ content mtime,
    s.tree.file? (call.result base) = some (content, mtime) → pass.cutoff ≤ mtime) ?_ ?_
    fun _ => hyoung
  · intro s turn s' hs hstep hdone content mtime hfile
    have hbefore : s.put ≠ .done := fun h => hdone (done_of_step hstep h)
    cases turn with
    | put =>
        obtain ⟨⟨t', put'⟩, hput, rfl⟩ := Option.map_eq_some_iff.mp hstep
        rw [file?_result_putStep hput hdone] at hfile
        exact hs hbefore content mtime hfile
    | purge =>
        obtain ⟨⟨t', pu'⟩, hpurge, rfl⟩ := Option.map_eq_some_iff.mp hstep
        exact hs hbefore content mtime (file?_of_purgeStep hpurge hfile)
  · intro s turn s' hs hstep
    cases turn with
    | put => trivial
    | purge =>
        intro hdone files content mtime hpu hfile hold
        have hle := hs hdone content mtime hfile
        omega

/-! ### Two schedules -/

/-- A pass on the second day, with a TTL of a day. -/
def secondDay : Pass where
  now := 86403500000
  ttlSeconds := 86400
  order := id
  order_perm := List.Perm.refl
  statFault := fun _ => none
  unlinkFault := fun _ => none
  rmdirFault := fun _ => none
  dirMtime := fun _ => 0

/-- A cache with one entry, of the first day. -/
def oldCache (h : String) : FileTree Bytes :=
  (CacheStore.put Json.wholeInterpreter ["data", "cache"] FileTree.empty 1 h
    (.obj samplePayload.fields) 0).2

/-- A `put` of the same user on the second day. -/
def samplePut : PutCall ℤ := ⟨1, sampleHash, samplePayload, 86403000000⟩

/-- The pass removes the old entry of another audio while the `put` makes its directory. -/
theorem put_survives_purge_sample : ∃ s,
    (raceSystem Json.wholeInterpreter ["data", "cache"] samplePut secondDay).run
      (startRace ["data", "cache"] samplePut (oldCache (String.ofList (List.replicate 64 'b'))))
      (List.replicate 8 .purge ++ .put :: List.replicate 3 .purge ++ List.replicate 3 .put) =
        some s ∧ s.put = .done ∧ s.purge = .ended ∧
    CacheStore.get Json.wholeInterpreter ["data", "cache"] s.tree 1 sampleHash =
      .ok (some (.obj samplePayload.fields)) := by
  have hends : ((raceSystem Json.wholeInterpreter ["data", "cache"] samplePut secondDay).run
      (startRace ["data", "cache"] samplePut (oldCache (String.ofList (List.replicate 64 'b'))))
      (List.replicate 8 .purge ++ .put :: List.replicate 3 .purge ++ List.replicate 3 .put)).map
        (fun s => (s.put, s.purge)) = some (.done, .ended) := by
    decide +kernel
  obtain ⟨s, hrun, hs⟩ := Option.map_eq_some_iff.mp hends
  obtain ⟨hput, hpurge⟩ := Prod.mk.inj hs
  refine ⟨s, hrun, hput, hpurge, ?_⟩
  have habsent : (oldCache (String.ofList (List.replicate 64 'b'))).file?
      (samplePut.result ["data", "cache"]) = none := by
    decide +kernel
  exact (put_survives_purge _ _ samplePut secondDay _
    (leavesEntry_of_young (fun _ _ hfile => by rw [habsent] at hfile; cases hfile) _)
    hrun).entry hput (by decide)

/-- The pass finds the entry old, the `put` replaces it, and the pass removes what is
there by now. -/
theorem not_forall_survives : ¬∀ (call : PutCall ℤ) (pass : Pass) (t : FileTree Bytes)
    (turns : List RaceTurn) (s : Race),
    (raceSystem Json.wholeInterpreter ["data", "cache"] call pass).run
      (startRace ["data", "cache"] call t) turns = some s → s.purge = .ended →
    Survives Json.wholeInterpreter ["data", "cache"] call pass t s := by
  intro h
  have hends : ((raceSystem Json.wholeInterpreter ["data", "cache"] samplePut secondDay).run
      (startRace ["data", "cache"] samplePut (oldCache sampleHash))
      (List.replicate 8 RaceTurn.purge ++ List.replicate 5 RaceTurn.put ++
        List.replicate 3 RaceTurn.purge)).map
        (fun s => (s.put, s.purge, s.tree.file? (samplePut.result ["data", "cache"]))) =
      some (.done, .ended, none) := by
    decide +kernel
  obtain ⟨s, hrun, hs⟩ := Option.map_eq_some_iff.mp hends
  simp only [Prod.mk.injEq] at hs
  obtain ⟨hput, hpurge, hfile⟩ := hs
  have hget := (h samplePut secondDay _ _ s hrun hpurge).entry hput (by decide)
  have hvalid : validAudioHash samplePut.audioHash = true := by decide +kernel
  rw [CacheStore.get, if_pos hvalid, show s.tree.file? (entryPath _ _ _) = none from hfile] at hget
  cases hget

end Race

end TranscriptionApi.Pipeline
