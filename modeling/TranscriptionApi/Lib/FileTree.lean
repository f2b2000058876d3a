import Mathlib.Data.Int.Notation
import Mathlib.Data.List.Dedup
import Mathlib.Data.List.Infix
import Mathlib.Logic.Function.Basic

/-!
A file system: directories and regular files under absolute paths.

A path is the list of its components, and a `FileTree` says what is at each of
them. Everything in the tree has a directory above it, so that a file below a
file or in a missing directory cannot be written down. `paths` lists the places
where something may be, which makes a directory listing computable.

The operations are the system calls with the errors their callers can tell
apart, and each has two lemmas: what it does to the files, and which directories
it can add. A proof about a program that uses them needs nothing else.
-/

namespace TranscriptionApi.Lib

abbrev Path := List String

inductive Node (β : Type) where
  | dir
  | file (content : β) (mtime : ℤ)

def Node.file? {β : Type} : Node β → Option (β × ℤ)
  | .dir => none
  | .file content mtime => some (content, mtime)

inductive Errno where
  | noEntry
  | alreadyExists
  | notDirectory
  | isDirectory
  | notEmpty
  | permission
  | other
  deriving DecidableEq

structure FileTree (β : Type) where
  node : Path → Option (Node β)
  paths : List Path
  mem_paths : ∀ p, (node p).isSome → p ∈ paths
  root : node [] = some .dir
  closed : ∀ p c, (node (p ++ [c])).isSome → node p = some .dir

namespace FileTree

variable {β : Type}

/-- The root directory alone. -/
def empty : FileTree β where
  node := fun p => if p = [] then some .dir else none
  paths := [[]]
  mem_paths := by
    intro p hp
    split at hp
    · rename_i h
      exact h ▸ List.mem_singleton_self []
    · cases hp
  root := if_pos rfl
  closed := by
    intro p c hp
    rw [if_neg (by simp)] at hp
    cases hp

theorem node_empty (p : Path) :
    (empty : FileTree β).node p = if p = [] then some .dir else none := rfl

section Nodes

variable (t : FileTree β)

def isDir (p : Path) : Bool :=
  match t.node p with
  | some .dir => true
  | _ => false

/-- The regular file at a path, its content and its modification time. -/
def file? (p : Path) : Option (β × ℤ) := (t.node p).bind Node.file?

theorem isDir_iff {p : Path} : t.isDir p = true ↔ t.node p = some .dir := by
  unfold isDir
  split
  · rename_i h
    simp [h]
  · rename_i h
    exact ⟨fun hfalse => (by cases hfalse), fun hp => absurd hp h⟩

theorem file?_eq_some_iff {p : Path} {content : β} {mtime : ℤ} :
    t.file? p = some (content, mtime) ↔ t.node p = some (.file content mtime) := by
  rw [file?, Option.bind_eq_some_iff]
  constructor
  · rintro ⟨n, hn, hfile⟩
    cases n with
    | dir => cases hfile
    | file content mtime =>
        cases hfile
        exact hn
  · exact fun h => ⟨_, h, rfl⟩

theorem file?_of_isDir {p : Path} (h : t.isDir p = true) : t.file? p = none := by
  rw [file?, (t.isDir_iff).mp h]
  rfl

/-- What is at a path is a directory, a file, or nothing. -/
theorem node_eq (p : Path) : t.node p =
    if t.isDir p then some .dir else (t.file? p).map fun f => .file f.1 f.2 := by
  unfold isDir file?
  cases t.node p with
  | none => rfl
  | some n =>
      cases n with
      | dir => rfl
      | file content mtime => rfl

theorem node_eq_none_iff {p : Path} :
    t.node p = none ↔ t.isDir p = false ∧ t.file? p = none := by
  rw [node_eq]
  cases t.isDir p with
  | true => simp
  | false => simp

/-- What is in the tree is in a directory. -/
theorem isDir_dropLast {p : Path} (h : (t.node p).isSome = true) :
    t.isDir p.dropLast = true := by
  rw [isDir_iff]
  rcases List.eq_nil_or_concat' p with rfl | ⟨q, c, rfl⟩
  · exact t.root
  · rw [List.dropLast_concat]
    exact t.closed q c h

/-- So the directories above a directory are in the tree. -/
theorem isDir_of_append {p : Path} (q : Path) (h : t.isDir (p ++ q) = true) :
    t.isDir p = true := by
  induction q using List.reverseRecOn with
  | nil => rwa [List.append_nil] at h
  | append_singleton q c ih =>
      refine ih ?_
      have hup := t.isDir_dropLast (p := p ++ (q ++ [c])) (by rw [(t.isDir_iff).mp h]; rfl)
      rwa [← List.append_assoc, List.dropLast_concat] at hup

/-- Nothing is below what is no directory. -/
theorem child_eq_none {p : Path} (h : t.isDir p = false) (c : String) :
    t.node (p ++ [c]) = none := by
  cases hc : t.node (p ++ [c]) with
  | none => rfl
  | some n =>
      have hdir := t.closed p c (by rw [hc]; rfl)
      rw [(t.isDir_iff).mpr hdir] at h
      cases h

theorem file?_empty (p : Path) : (empty : FileTree β).file? p = none := by
  rw [file?, node_empty]
  split
  · rfl
  · rfl

theorem isDir_empty (p : Path) : (empty : FileTree β).isDir p = true ↔ p = [] := by
  rw [isDir_iff, node_empty]
  split
  · rename_i hp
    simp [hp]
  · rename_i hp
    simp [hp]

/-- Put a node into a directory. -/
def setNode (p : Path) (c : String) (n : Node β) (hp : t.node p = some .dir)
    (hn : n = .dir ∨ t.node (p ++ [c]) ≠ some .dir) : FileTree β where
  node := Function.update t.node (p ++ [c]) (some n)
  paths := (p ++ [c]) :: t.paths
  mem_paths := by
    intro q hq
    by_cases heq : q = p ++ [c]
    · exact heq ▸ List.mem_cons_self
    · rw [Function.update_of_ne heq] at hq
      exact List.mem_cons_of_mem _ (t.mem_paths q hq)
  root := by
    rw [Function.update_of_ne (by simp)]
    exact t.root
  closed := by
    intro q d hq
    by_cases heq : q ++ [d] = p ++ [c]
    · obtain ⟨rfl, -⟩ := List.append_inj' heq rfl
      rw [Function.update_of_ne (by simp)]
      exact hp
    · rw [Function.update_of_ne heq] at hq
      have hdir := t.closed q d hq
      by_cases hqc : q = p ++ [c]
      · subst hqc
        rcases hn with rfl | hn
        · exact Function.update_self ..
        · exact absurd hdir hn
      · rw [Function.update_of_ne hqc]
        exact hdir

/-- Take away a node that has none below it. -/
def removeNode (p : Path) (c : String) (h : ∀ d, t.node (p ++ [c] ++ [d]) = none) :
    FileTree β where
  node := Function.update t.node (p ++ [c]) none
  paths := t.paths
  mem_paths := by
    intro q hq
    by_cases heq : q = p ++ [c]
    · rw [heq, Function.update_self] at hq
      cases hq
    · rw [Function.update_of_ne heq] at hq
      exact t.mem_paths q hq
  root := by
    rw [Function.update_of_ne (by simp)]
    exact t.root
  closed := by
    intro q d hq
    by_cases heq : q ++ [d] = p ++ [c]
    · rw [heq, Function.update_self] at hq
      cases hq
    · rw [Function.update_of_ne heq] at hq
      by_cases hqc : q = p ++ [c]
      · rw [hqc, h d] at hq
        cases hq
      · rw [Function.update_of_ne hqc]
        exact t.closed q d hq

theorem node_setNode {p : Path} {c : String} {n : Node β} {hp : t.node p = some .dir}
    {hn : n = .dir ∨ t.node (p ++ [c]) ≠ some .dir} (q : Path) :
    (t.setNode p c n hp hn).node q = if q = p ++ [c] then some n else t.node q :=
  Function.update_apply ..

theorem node_removeNode {p : Path} {c : String} {h : ∀ d, t.node (p ++ [c] ++ [d]) = none}
    (q : Path) : (t.removeNode p c h).node q = if q = p ++ [c] then none else t.node q :=
  Function.update_apply ..

theorem file?_setNode {p : Path} {c : String} {n : Node β} {hp : t.node p = some .dir}
    {hn : n = .dir ∨ t.node (p ++ [c]) ≠ some .dir} (q : Path) :
    (t.setNode p c n hp hn).file? q = if q = p ++ [c] then n.file? else t.file? q := by
  simp only [file?, node_setNode]
  split
  · rfl
  · rfl

theorem file?_removeNode {p : Path} {c : String} {h : ∀ d, t.node (p ++ [c] ++ [d]) = none}
    (q : Path) : (t.removeNode p c h).file? q = if q = p ++ [c] then none else t.file? q := by
  simp only [file?, node_removeNode]
  split
  · rfl
  · rfl

theorem isDir_setNode {p : Path} {c : String} {n : Node β} {hp : t.node p = some .dir}
    {hn : n = .dir ∨ t.node (p ++ [c]) ≠ some .dir} (q : Path) :
    (t.setNode p c n hp hn).isDir q = true ↔
      if q = p ++ [c] then n = .dir else t.isDir q = true := by
  simp only [isDir_iff, node_setNode]
  split
  · exact Option.some_inj
  · rfl

theorem isDir_removeNode {p : Path} {c : String} {h : ∀ d, t.node (p ++ [c] ++ [d]) = none}
    (q : Path) : (t.removeNode p c h).isDir q = true ↔ q ≠ p ++ [c] ∧ t.isDir q = true := by
  simp only [isDir_iff, node_removeNode]
  split
  · rename_i hq
    simp [hq]
  · rename_i hq
    simp [hq]

end Nodes

/-! ### System calls -/

section Calls

variable (t : FileTree β) (p : Path) (c : String)

/-- The error of a lookup that finds nothing. -/
def missing (p : Path) : Errno :=
  if p.inits.any fun q => (t.file? q).isSome then .notDirectory else .noEntry

/-- `os.mkdir`. -/
def mkdir : Except Errno (FileTree β) :=
  if hp : t.isDir p = true then
    if t.isDir (p ++ [c]) || (t.file? (p ++ [c])).isSome then .error .alreadyExists
    else .ok (t.setNode p c .dir ((t.isDir_iff).mp hp) (.inl rfl))
  else .error (t.missing p)

/-- `Path.mkdir(parents=True, exist_ok=True)`, from a directory down: the tree
afterwards, and the error it ends with. -/
def mkdirs (t : FileTree β) (p : Path) : List String → Option Errno × FileTree β
  | [] => (none, t)
  | c :: names =>
      if t.isDir (p ++ [c]) then mkdirs t (p ++ [c]) names
      else
        match t.mkdir p c with
        | .error e => (some (if names.isEmpty then e else .notDirectory), t)
        | .ok t' => mkdirs t' (p ++ [c]) names

/-- `Path.write_text`. -/
def writeFile (content : β) (now : ℤ) : Except Errno (FileTree β) :=
  if hp : t.isDir p = true then
    if hc : t.isDir (p ++ [c]) = true then .error .isDirectory
    else .ok (t.setNode p c (.file content now) ((t.isDir_iff).mp hp)
      (.inr fun h => hc ((t.isDir_iff).mpr h)))
  else .error (t.missing p)

/-- `os.unlink`. -/
def unlink : Except Errno (FileTree β) :=
  if hc : t.isDir (p ++ [c]) = true then .error .isDirectory
  else if (t.file? (p ++ [c])).isSome then
    .ok (t.removeNode p c (t.child_eq_none (Bool.eq_false_iff.mpr hc)))
  else .error (t.missing (p ++ [c]))

/-- `os.replace` of a file by another of the same directory. -/
def replace (src dst : String) : Except Errno (FileTree β) :=
  match t.file? (p ++ [src]) with
  | none => .error (t.missing (p ++ [src]))
  | some (content, mtime) =>
      match t.unlink p src with
      | .error e => .error e
      | .ok t' => t'.writeFile p dst content mtime

/-- Nothing is in the directory. -/
def isEmptyDir (p : Path) : Bool :=
  t.paths.all fun q => q = [] || q.dropLast ≠ p || (t.node q).isNone

theorem child_of_isEmptyDir {p : Path} (h : t.isEmptyDir p = true) (d : String) :
    t.node (p ++ [d]) = none := by
  cases hd : t.node (p ++ [d]) with
  | none => rfl
  | some n =>
      have hmem := t.mem_paths (p ++ [d]) (by rw [hd]; rfl)
      have hchild := List.all_eq_true.mp h _ hmem
      rw [hd] at hchild
      simp at hchild

theorem isEmptyDir_iff {p : Path} : t.isEmptyDir p = true ↔ ∀ d, t.node (p ++ [d]) = none := by
  refine ⟨t.child_of_isEmptyDir, fun h => List.all_eq_true.mpr fun q _ => ?_⟩
  rcases List.eq_nil_or_concat' q with rfl | ⟨p', d, rfl⟩
  · rfl
  · by_cases hp : p' = p
    · simp [hp, h d]
    · simp [hp]

/-- `os.rmdir`. -/
def rmdir : Except Errno (FileTree β) :=
  if t.isDir (p ++ [c]) then
    if h : t.isEmptyDir (p ++ [c]) = true then .ok (t.removeNode p c (t.child_of_isEmptyDir h))
    else .error .notEmpty
  else .error (t.missing (p ++ [c]))

/-- `Path.rglob(name)`: the places below `p` with this name, in the order the
system lists them. -/
def rglob (order : List Path → List Path) (p : Path) (name : String) : List Path :=
  order (t.paths.dedup.filter fun q =>
    p.isPrefixOf q && q ≠ p && q.getLast? = some name && (t.node q).isSome)

/-- `Path.iterdir()`: the names in a directory, in the order the system lists
them. -/
def iterdir (order : List String → List String) (p : Path) : List String :=
  order (t.paths.dedup.filterMap fun q =>
    if q.dropLast = p && (t.node q).isSome then q.getLast? else none)

end Calls

/-! ### What a call does -/

section Effects

variable {t t' : FileTree β} {p : Path} {c : String}

theorem mkdir_ok (h : t.mkdir p c = .ok t') :
    t.file? (p ++ [c]) = none ∧ ∃ hp, t' = t.setNode p c .dir hp (.inl rfl) := by
  unfold mkdir at h
  split at h
  · rename_i hp
    split at h
    · cases h
    · rename_i hfree
      simp only [Bool.or_eq_true, not_or, Option.not_isSome_iff_eq_none] at hfree
      cases h
      exact ⟨hfree.2, (t.isDir_iff).mp hp, rfl⟩
  · cases h

theorem file?_mkdir (h : t.mkdir p c = .ok t') (q : Path) : t'.file? q = t.file? q := by
  obtain ⟨hfree, hp, rfl⟩ := mkdir_ok h
  rw [file?_setNode]
  split
  · rename_i hq
    rw [hq, hfree]
    rfl
  · rfl

theorem isDir_mkdir (h : t.mkdir p c = .ok t') (q : Path) :
    t'.isDir q = true ↔ q = p ++ [c] ∨ t.isDir q = true := by
  obtain ⟨-, hp, rfl⟩ := mkdir_ok h
  rw [isDir_setNode]
  split
  · rename_i hq
    simp [hq]
  · rename_i hq
    simp [hq]

/-- `mkdir` only fails where there is something, or no directory to make it in. -/
theorem mkdir_isOk (hp : t.isDir p = true) (hdir : t.isDir (p ++ [c]) = false)
    (hfile : t.file? (p ++ [c]) = none) : ∃ t', t.mkdir p c = .ok t' := by
  rw [mkdir, dif_pos hp, hdir, hfile]
  exact ⟨_, rfl⟩

theorem file?_mkdirs (names : List String) (q : Path) :
    (t.mkdirs p names).2.file? q = t.file? q := by
  induction names generalizing t p with
  | nil => rfl
  | cons c names ih =>
      unfold mkdirs
      split
      · exact ih
      · cases hmk : t.mkdir p c with
        | error e => rfl
        | ok t' => exact ih.trans (file?_mkdir hmk q)

/-- The directories of a path down to it, and no others, may be new. -/
theorem isDir_mkdirs {names : List String} {q : Path}
    (h : (t.mkdirs p names).2.isDir q = true) : t.isDir q = true ∨ q <+: p ++ names := by
  induction names generalizing t p with
  | nil => exact .inl h
  | cons c names ih =>
      have happ : p ++ c :: names = p ++ [c] ++ names := by simp
      unfold mkdirs at h
      rw [happ]
      split at h
      · exact ih h
      · cases hmk : t.mkdir p c with
        | error e =>
            rw [hmk] at h
            exact .inl h
        | ok t' =>
            rw [hmk] at h
            rcases ih h with h | h
            · rcases (isDir_mkdir hmk q).mp h with rfl | h
              · exact .inr (List.prefix_append ..)
              · exact .inl h
            · exact .inr h

theorem isDir_mkdirs_of_isDir {names : List String} {q : Path} (h : t.isDir q = true) :
    (t.mkdirs p names).2.isDir q = true := by
  induction names generalizing t p with
  | nil => exact h
  | cons c names ih =>
      unfold mkdirs
      split
      · exact ih h
      · cases hmk : t.mkdir p c with
        | error e => exact h
        | ok t' => exact ih ((isDir_mkdir hmk q).mpr (.inr h))

theorem isDir_mkdirs_of_not_above {names : List String} {q : Path} (h : ¬q <+: p ++ names) :
    (t.mkdirs p names).2.isDir q = t.isDir q := by
  rw [Bool.eq_iff_iff]
  exact ⟨fun hq => (isDir_mkdirs hq).resolve_right h, isDir_mkdirs_of_isDir⟩

/-- Where no file is in the way, the directories get made. -/
theorem mkdirs_ok (names : List String) (hp : t.isDir p = true)
    (h : ∀ q, q <+: p ++ names → t.file? q = none) :
    (t.mkdirs p names).1 = none ∧ (t.mkdirs p names).2.isDir (p ++ names) = true := by
  induction names generalizing t p with
  | nil => exact ⟨rfl, by rw [List.append_nil]; exact hp⟩
  | cons c names ih =>
      have happ : p ++ c :: names = p ++ [c] ++ names := by simp
      rw [happ] at h ⊢
      unfold mkdirs
      split
      · rename_i hc
        exact ih hc h
      · rename_i hc
        obtain ⟨t', hmk⟩ := mkdir_isOk hp (by simpa using hc) (h _ (List.prefix_append ..))
        rw [hmk]
        refine ih ((isDir_mkdir hmk _).mpr (.inl rfl)) fun q hq => ?_
        rw [file?_mkdir hmk]
        exact h q hq

theorem writeFile_ok {content : β} {now : ℤ} (h : t.writeFile p c content now = .ok t') :
    ∃ hp hn, t' = t.setNode p c (.file content now) hp hn := by
  unfold writeFile at h
  split at h
  · split at h
    · cases h
    · cases h
      exact ⟨_, _, rfl⟩
  · cases h

theorem file?_writeFile {content : β} {now : ℤ} (h : t.writeFile p c content now = .ok t')
    (q : Path) : t'.file? q = if q = p ++ [c] then some (content, now) else t.file? q := by
  obtain ⟨hp, hn, rfl⟩ := writeFile_ok h
  exact t.file?_setNode q

theorem isDir_writeFile {content : β} {now : ℤ} (h : t.writeFile p c content now = .ok t')
    {q : Path} : t'.isDir q = t.isDir q := by
  obtain ⟨hp, hn, rfl⟩ := writeFile_ok h
  rw [Bool.eq_iff_iff, isDir_setNode]
  split
  · rename_i hq
    rcases hn with hn | hn
    · cases hn
    · simp [hq, isDir_iff, hn]
  · rfl

theorem writeFile_isOk {content : β} {now : ℤ} (hp : t.isDir p = true)
    (hc : t.isDir (p ++ [c]) = false) : ∃ t', t.writeFile p c content now = .ok t' := by
  rw [writeFile, dif_pos hp, dif_neg (by rw [hc]; decide)]
  exact ⟨_, rfl⟩

theorem writeFile_isDirectory {content : β} {now : ℤ} (hp : t.isDir p = true)
    (hc : t.isDir (p ++ [c]) = true) : t.writeFile p c content now = .error .isDirectory := by
  rw [writeFile, dif_pos hp, dif_pos hc]

theorem unlink_ok (h : t.unlink p c = .ok t') : (∃ f, t.file? (p ++ [c]) = some f) ∧
    ∃ hempty, t' = t.removeNode p c hempty := by
  unfold unlink at h
  split at h
  · cases h
  · split at h
    · rename_i hfile
      cases h
      exact ⟨Option.isSome_iff_exists.mp hfile, _, rfl⟩
    · cases h

theorem file?_unlink (h : t.unlink p c = .ok t') (q : Path) :
    t'.file? q = if q = p ++ [c] then none else t.file? q := by
  obtain ⟨-, hempty, rfl⟩ := unlink_ok h
  exact t.file?_removeNode q

theorem isDir_unlink (h : t.unlink p c = .ok t') {q : Path} : t'.isDir q = t.isDir q := by
  obtain ⟨⟨f, hf⟩, hempty, rfl⟩ := unlink_ok h
  rw [Bool.eq_iff_iff, isDir_removeNode]
  refine ⟨And.right, fun hq => ⟨?_, hq⟩⟩
  rintro rfl
  rw [t.file?_of_isDir hq] at hf
  cases hf

theorem unlink_isOk {f : β × ℤ} (h : t.file? (p ++ [c]) = some f) :
    ∃ t', t.unlink p c = .ok t' := by
  have hdir : t.isDir (p ++ [c]) ≠ true := by
    intro hdir
    rw [t.file?_of_isDir hdir] at h
    cases h
  rw [unlink, dif_neg hdir, h]
  exact ⟨_, rfl⟩

/-- Where nothing is, and no file above it, `unlink` finds nothing. -/
theorem unlink_noEntry (hdir : t.isDir (p ++ [c]) = false)
    (h : ∀ q, q <+: p ++ [c] → t.file? q = none) : t.unlink p c = .error .noEntry := by
  have hmissing : t.missing (p ++ [c]) = .noEntry := by
    refine if_neg ?_
    simp only [List.any_eq_true, List.mem_inits, not_exists, not_and]
    intro q hq
    simp [h q hq]
  rw [unlink, dif_neg (by simp [hdir]), h _ (List.prefix_refl _), hmissing]
  rfl

theorem replace_ok {src dst : String} (h : t.replace p src dst = .ok t') :
    ∃ content mtime t₁, t.file? (p ++ [src]) = some (content, mtime) ∧
      t.unlink p src = .ok t₁ ∧ t₁.writeFile p dst content mtime = .ok t' := by
  unfold replace at h
  split at h
  · cases h
  · rename_i content mtime hfile
    split at h
    · cases h
    · rename_i t₁ hunlink
      exact ⟨content, mtime, t₁, hfile, hunlink, h⟩

theorem file?_replace {src dst : String} {f : β × ℤ} (h : t.replace p src dst = .ok t')
    (hf : t.file? (p ++ [src]) = some f) (q : Path) :
    t'.file? q =
      if q = p ++ [dst] then some f else if q = p ++ [src] then none else t.file? q := by
  obtain ⟨content, mtime, t₁, hfile, hunlink, hwrite⟩ := replace_ok h
  rw [hf] at hfile
  rw [file?_writeFile hwrite, file?_unlink hunlink, Option.some.inj hfile]

theorem isDir_replace {src dst : String} (h : t.replace p src dst = .ok t') {q : Path} :
    t'.isDir q = t.isDir q := by
  obtain ⟨content, mtime, t₁, -, hunlink, hwrite⟩ := replace_ok h
  rw [isDir_writeFile hwrite, isDir_unlink hunlink]

theorem replace_isOk {src dst : String} {f : β × ℤ} (hp : t.isDir p = true)
    (hf : t.file? (p ++ [src]) = some f) (hdst : t.isDir (p ++ [dst]) = false) :
    ∃ t', t.replace p src dst = .ok t' := by
  obtain ⟨t₁, hunlink⟩ := unlink_isOk hf
  obtain ⟨t', hwrite⟩ : ∃ t', t₁.writeFile p dst f.1 f.2 = .ok t' := writeFile_isOk
    ((isDir_unlink hunlink).trans hp) ((isDir_unlink hunlink).trans hdst)
  refine ⟨t', ?_⟩
  simp only [replace, hf, hunlink]
  exact hwrite

theorem rmdir_ok (h : t.rmdir p c = .ok t') : t.isDir (p ++ [c]) = true ∧
    t.isEmptyDir (p ++ [c]) = true ∧ ∃ hempty, t' = t.removeNode p c hempty := by
  unfold rmdir at h
  split at h
  · rename_i hdir
    split at h
    · rename_i hempty
      cases h
      exact ⟨hdir, hempty, _, rfl⟩
    · cases h
  · cases h

theorem rmdir_isOk (hdir : t.isDir (p ++ [c]) = true) (hempty : t.isEmptyDir (p ++ [c]) = true) :
    ∃ t', t.rmdir p c = .ok t' := by
  rw [rmdir, if_pos hdir, dif_pos hempty]
  exact ⟨_, rfl⟩

theorem file?_rmdir (h : t.rmdir p c = .ok t') (q : Path) : t'.file? q = t.file? q := by
  obtain ⟨hdir, -, hempty, rfl⟩ := rmdir_ok h
  rw [file?_removeNode]
  split
  · rename_i hq
    rw [hq, t.file?_of_isDir hdir]
  · rfl

theorem isDir_rmdir (h : t.rmdir p c = .ok t') {q : Path} (hq : t'.isDir q = true) :
    t.isDir q = true := by
  obtain ⟨-, -, hempty, rfl⟩ := rmdir_ok h
  exact ((t.isDir_removeNode q).mp hq).2

theorem isDir_rmdir_of_ne (h : t.rmdir p c = .ok t') {q : Path} (hne : q ≠ p ++ [c]) :
    t'.isDir q = t.isDir q := by
  obtain ⟨-, -, hempty, rfl⟩ := rmdir_ok h
  rw [Bool.eq_iff_iff, isDir_removeNode]
  exact and_iff_right hne

/-- What `rglob` lists, when the order it comes in is a rearrangement. -/
theorem mem_rglob {order : List Path → List Path} (horder : ∀ l, (order l).Perm l) {name : String}
    {q : Path} : q ∈ t.rglob order p name ↔
      p <+: q ∧ q ≠ p ∧ q.getLast? = some name ∧ (t.node q).isSome = true := by
  have hmem (h : (t.node q).isSome = true) : q ∈ t.paths := t.mem_paths q h
  rw [rglob, (horder _).mem_iff]
  simp only [List.mem_filter, List.mem_dedup, Bool.and_eq_true, List.isPrefixOf_iff_prefix,
    decide_eq_true_eq, ne_eq]
  constructor
  · rintro ⟨-, ⟨⟨hp, hne⟩, hname⟩, hsome⟩
    exact ⟨hp, hne, hname, hsome⟩
  · rintro ⟨hp, hne, hname, hsome⟩
    exact ⟨hmem hsome, ⟨⟨hp, hne⟩, hname⟩, hsome⟩

/-- What `iterdir` lists. -/
theorem mem_iterdir {order : List String → List String} (horder : ∀ l, (order l).Perm l) :
    c ∈ t.iterdir order p ↔ (t.node (p ++ [c])).isSome = true := by
  rw [iterdir, (horder _).mem_iff, List.mem_filterMap]
  constructor
  · rintro ⟨q, -, hq⟩
    split at hq
    · rename_i hchild
      simp only [Bool.and_eq_true, decide_eq_true_eq] at hchild
      obtain ⟨rfl, hsome⟩ := hchild
      rw [List.dropLast_append_getLast? c hq]
      exact hsome
    · cases hq
  · intro hsome
    refine ⟨p ++ [c], List.mem_dedup.mpr (t.mem_paths _ hsome), ?_⟩
    rw [if_pos (by rw [List.dropLast_concat, hsome, decide_eq_true rfl]; rfl),
      List.getLast?_concat]

end Effects

end FileTree

end TranscriptionApi.Lib
