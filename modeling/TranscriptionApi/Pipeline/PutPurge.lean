import TranscriptionApi.Lib.Transition
import TranscriptionApi.Pipeline.CacheOps

/-!
A `put` and a pass of the purge side by side, one call of the file system after
the other.

A `put` makes the directories of its entry, writes the temporary file and renames
it. `Path.mkdir` tries the last directory first and asks for the ones above it when
there is none to make it in; an `OSError` it lets pass when a directory is there
after all. The pass walks down from the base directory, and then looks at each file
it found, removes it when it is old, and with it the two directories above.

Nothing keeps the two apart, so a run is any list of turns. An error of the file
system that the tree does not call for is none of this: of the pass they are
those of `Pass`, a `put` has none.
-/

namespace TranscriptionApi.Pipeline

open Lib Python

/-- The arguments of a `put`, and the time its file gets. -/
structure PutCall (φ : Type) where
  userId : Uuid
  audioHash : String
  payload : Payload φ
  now : ℤ

/-- Where a `put` is. -/
inductive Putting where
  /-- the calls of `os.mkdir` to come, each with the argument `parents` of its `mkdir` -/
  | making (calls : List (Path × Bool))
  /-- the `is_dir` after an error of `os.mkdir` -/
  | looking (e : Errno) (p : Path) (calls : List (Path × Bool))
  | opening (text : List Char)
  | writing (text : List Char)
  | replacing (text : List Char)
  | done
  | failed (e : CacheError)
  deriving DecidableEq

/-- What the walk of `rglob` does in a directory. -/
inductive Visit where
  | check (dir : Path)
  | scan (dir : Path)
  deriving DecidableEq

/-- Where a pass is. -/
inductive Purging where
  | starting
  | listing (todo : List Visit) (found : List Path)
  | statting (file : Path) (files : List Path)
  | unlinking (file : Path) (files : List Path)
  | leavingEntry (file : Path) (files : List Path)
  | leavingUser (file : Path) (files : List Path)
  | ended
  | raised (e : Errno)
  deriving DecidableEq

section Put

variable {φ : Type} (P : Json.Interpreter φ) (base : Path) (call : PutCall φ)

namespace PutCall

def dir : Path := entryDir base call.userId call.audioHash

def result : Path := entryPath base call.userId call.audioHash

def tmp : Path := tmpPath base call.userId call.audioHash

/-- The `put` once its directories are made: `json.dumps` comes before the first call
for the file. -/
def afterMkdirs : Putting :=
  match Json.dumps P.floats P.limits (.obj call.payload.fields) with
  | .error e => .failed (.dumps e)
  | .ok text => .opening text

def goOn : List (Path × Bool) → Putting
  | [] => call.afterMkdirs P
  | calls => .making calls

def start : Putting :=
  if validAudioHash call.audioHash then .making [(call.dir base, true)]
  else .failed .invalidHash

end PutCall

/-- `os.mkdir`. -/
def osMkdir (t : FileTree Bytes) (p : Path) : Except Errno (FileTree Bytes) :=
  match p.getLast? with
  | none => .error .alreadyExists
  | some c => t.mkdir p.dropLast c

/-- The next call of a `put`. -/
def putStep (t : FileTree Bytes) : Putting → Option (FileTree Bytes × Putting)
  | .making [] => none
  | .making ((p, parents) :: calls) =>
      match osMkdir t p with
      | .ok t' => some (t', call.goOn P calls)
      | .error .noEntry =>
          if parents && p ≠ [] then
            some (t, .making ((p.dropLast, true) :: (p, false) :: calls))
          else some (t, .failed (.os .noEntry))
      | .error e => some (t, .looking e p calls)
  | .looking e p calls =>
      if t.isDir p then some (t, call.goOn P calls) else some (t, .failed (.os e))
  | .opening text =>
      match t.writeFile (call.dir base) tmpFilename [] call.now with
      | .error e => some (t, .failed (.os e))
      | .ok t' => some (t', .writing text)
  | .writing text =>
      -- a file that has left its directory takes the bytes with it
      match t.file? (call.tmp base) with
      | none => some (t, .replacing text)
      | some _ =>
          match t.writeFile (call.dir base) tmpFilename (encodeUtf8 text) call.now with
          | .error e => some (t, .failed (.os e))
          | .ok t' => some (t', .replacing text)
  | .replacing _ =>
      match t.replace (call.dir base) tmpFilename resultFilename with
      | .error e => some (t, .failed (.os e))
      | .ok t' => some (t', .done)
  | .done => none
  | .failed _ => none

end Put

section Purge

variable (base : Path) (pass : Pass)

/-- The directories in a directory. -/
def subdirs (t : FileTree Bytes) (d : Path) : List Path :=
  t.paths.dedup.filter fun q => q ≠ [] && q.dropLast = d && t.isDir q

/-- The pass goes on to the next file of the layout. -/
def nextFile : List Path → Purging
  | [] => .ended
  | file :: files => if isExpectedLayout base file then .statting file files else nextFile files

def goOnListing (found : List Path) : List Visit → Purging
  | [] => nextFile base found
  | todo => .listing todo found

/-- The next call of a pass. -/
def purgeStep (t : FileTree Bytes) : Purging → Option (FileTree Bytes × Purging)
  | .starting =>
      some (t, if t.isDir base then .listing [.check base, .scan base] [] else .ended)
  | .listing [] _ => none
  | .listing (.check d :: todo) found =>
      let file := d ++ [resultFilename]
      some (t, goOnListing base (if (t.node file).isSome then found ++ [file] else found) todo)
  | .listing (.scan d :: todo) found =>
      if t.isDir d then
        let below := (pass.order (subdirs t d)).flatMap fun q => [.check q, .scan q]
        some (t, goOnListing base found (below ++ todo))
      else some (t, .raised (t.missing d))
  | .statting file files =>
      match statMtime pass t file with
      | .error e => some (t, if skipped e then nextFile base files else .raised e)
      | .ok mtime =>
          some (t, if pass.cutoff ≤ mtime then nextFile base files else .unlinking file files)
  | .unlinking file files =>
      match unlinkEntry pass t file with
      | .error e => some (t, if skipped e then nextFile base files else .raised e)
      | .ok t' => some (t', .leavingEntry file files)
  | .leavingEntry file files => some (safeRmdir pass t file.dropLast, .leavingUser file files)
  | .leavingUser file files =>
      some (safeRmdir pass t file.dropLast.dropLast, nextFile base files)
  | .ended => none
  | .raised _ => none

end Purge

/-! ### Both -/

inductive RaceTurn where
  | put
  | purge
  deriving DecidableEq

structure Race where
  tree : FileTree Bytes
  put : Putting
  purge : Purging

section Race

variable {φ : Type} (P : Json.Interpreter φ) (base : Path) (call : PutCall φ) (pass : Pass)

def raceSystem : System Race RaceTurn where
  step s
    | .put => (putStep P base call s.tree s.put).map fun r => { s with tree := r.1, put := r.2 }
    | .purge => (purgeStep base pass s.tree s.purge).map fun r =>
        { s with tree := r.1, purge := r.2 }

def startRace (t : FileTree Bytes) : Race := ⟨t, call.start base, .starting⟩

end Race

/-! ### What a turn of the pass does -/

section PurgeTurns

variable {base : Path} {pass : Pass} {t t' : FileTree Bytes} {pu pu' : Purging}

/-- The directories the pass is about to remove. -/
def doomed : Purging → List Path
  | .leavingEntry file _ => [file.dropLast, file.dropLast.dropLast]
  | .leavingUser file _ => [file.dropLast.dropLast]
  | _ => []

/-- The pass is between two files. -/
def Idle (base : Path) : Purging → Prop
  | .statting file _ => isExpectedLayout base file = true
  | .unlinking .. => False
  | .leavingEntry .. => False
  | .leavingUser .. => False
  | _ => True

theorem idle_nextFile (files : List Path) : Idle base (nextFile base files) := by
  induction files with
  | nil => trivial
  | cons file files ih =>
      rw [nextFile]
      split
      · assumption
      · exact ih

theorem idle_goOnListing (found : List Path) (todo : List Visit) :
    Idle base (goOnListing base found todo) := by
  cases todo with
  | nil => exact idle_nextFile found
  | cons v todo => trivial

/-- What a turn can come to. -/
theorem purgeStep_cases (h : purgeStep base pass t pu = some (t', pu')) :
    (t' = t ∧ Idle base pu') ∨
    (∃ file files mtime, pu = .statting file files ∧ statMtime pass t file = .ok mtime ∧
      mtime < pass.cutoff ∧ t' = t ∧ pu' = .unlinking file files) ∨
    (∃ file files, pu = .unlinking file files ∧ unlinkEntry pass t file = .ok t' ∧
      pu' = .leavingEntry file files) ∨
    (∃ file files, pu = .leavingEntry file files ∧ t' = safeRmdir pass t file.dropLast ∧
      pu' = .leavingUser file files) ∨
    ∃ file files, pu = .leavingUser file files ∧
      t' = safeRmdir pass t file.dropLast.dropLast ∧ Idle base pu' := by
  unfold purgeStep at h
  split at h
  · cases h
    refine .inl ⟨rfl, ?_⟩
    split
    · trivial
    · trivial
  · cases h
  · cases h
    exact .inl ⟨rfl, idle_goOnListing ..⟩
  · split at h
    · cases h
      exact .inl ⟨rfl, idle_goOnListing ..⟩
    · cases h
      exact .inl ⟨rfl, trivial⟩
  · rename_i file files
    split at h
    · cases h
      refine .inl ⟨rfl, ?_⟩
      split
      · exact idle_nextFile files
      · trivial
    · rename_i mtime hstat
      cases h
      split
      · exact .inl ⟨rfl, idle_nextFile files⟩
      · rename_i hold
        exact .inr (.inl ⟨file, files, mtime, rfl, hstat, lt_of_not_ge hold, rfl, rfl⟩)
  · rename_i file files
    split at h
    · cases h
      refine .inl ⟨rfl, ?_⟩
      split
      · exact idle_nextFile files
      · trivial
    · rename_i hunlink
      cases h
      exact .inr (.inr (.inl ⟨file, files, rfl, hunlink, rfl⟩))
  · cases h
    exact .inr (.inr (.inr (.inl ⟨_, _, rfl, rfl, rfl⟩)))
  · cases h
    exact .inr (.inr (.inr (.inr ⟨_, _, rfl, rfl, idle_nextFile _⟩)))
  · cases h
  · cases h

theorem unlinkEntry_ok {file : Path} (h : unlinkEntry pass t file = .ok t') :
    pass.unlinkFault file = none ∧ t.unlink file.dropLast resultFilename = .ok t' := by
  unfold unlinkEntry at h
  split at h
  · cases h
  · exact ⟨‹_›, h⟩

/-- The files of a turn: the pass unlinks the file it has come to. -/
theorem file?_purgeStep (h : purgeStep base pass t pu = some (t', pu'))
    (hlayout : ∀ file files, pu = .unlinking file files → isExpectedLayout base file = true)
    (q : Path) : t'.file? q = t.file? q ∨
      t'.file? q = none ∧ ∃ files, pu = .unlinking q files ∧ unlinkEntry pass t q = .ok t' := by
  rcases purgeStep_cases h with ⟨rfl, -⟩ | ⟨file, files, mtime, -, -, -, rfl, -⟩ |
    ⟨file, files, rfl, hunlink, -⟩ | ⟨file, files, -, rfl, -⟩ | ⟨file, files, -, rfl, -⟩
  · exact .inl rfl
  · exact .inl rfl
  · have hfile := FileTree.file?_unlink (unlinkEntry_ok hunlink).2 q
    rw [dropLast_of_isExpectedLayout (hlayout file files rfl)] at hfile
    split at hfile
    · rename_i hq
      subst hq
      exact .inr ⟨hfile, files, rfl, hunlink⟩
    · exact .inl hfile
  · exact .inl (file?_safeRmdir ..)
  · exact .inl (file?_safeRmdir ..)

theorem isDir_of_purgeStep (h : purgeStep base pass t pu = some (t', pu')) {q : Path}
    (hq : t'.isDir q = true) : t.isDir q = true := by
  rcases purgeStep_cases h with ⟨rfl, -⟩ | ⟨file, files, mtime, -, -, -, rfl, -⟩ |
    ⟨file, files, -, hunlink, -⟩ | ⟨file, files, -, rfl, -⟩ | ⟨file, files, -, rfl, -⟩
  · exact hq
  · exact hq
  · rwa [FileTree.isDir_unlink (unlinkEntry_ok hunlink).2] at hq
  · exact isDir_safeRmdir hq
  · exact isDir_safeRmdir hq

/-- A directory that the pass is not about to remove stays. -/
theorem isDir_purgeStep (h : purgeStep base pass t pu = some (t', pu')) {q : Path}
    (hq : t.isDir q = true) (hkeep : q ∉ doomed pu) : t'.isDir q = true := by
  rcases purgeStep_cases h with ⟨rfl, -⟩ | ⟨file, files, mtime, -, -, -, rfl, -⟩ |
    ⟨file, files, -, hunlink, -⟩ | ⟨file, files, rfl, rfl, -⟩ | ⟨file, files, rfl, rfl, -⟩
  · exact hq
  · exact hq
  · rwa [FileTree.isDir_unlink (unlinkEntry_ok hunlink).2]
  · have hne : q ≠ file.dropLast := fun heq => hkeep (heq ▸ List.mem_cons_self)
    rwa [isDir_safeRmdir_of_ne hne]
  · have hne : q ≠ file.dropLast.dropLast := fun heq => hkeep (heq ▸ List.mem_cons_self)
    rwa [isDir_safeRmdir_of_ne hne]

end PurgeTurns

/-! ### What a turn of the put does -/

section PutTurns

variable {t t' : FileTree Bytes} {p q : Path}

theorem osMkdir_ok (h : osMkdir t p = .ok t') :
    (∀ q, t'.file? q = t.file? q) ∧ ∀ q, t'.isDir q = true ↔ q = p ∨ t.isDir q = true := by
  unfold osMkdir at h
  split at h
  · cases h
  · rename_i c hlast
    have happ := List.dropLast_append_getLast? c hlast
    refine ⟨FileTree.file?_mkdir h, fun q => ?_⟩
    rw [FileTree.isDir_mkdir h, happ]

/-- There is no directory to make it in. -/
theorem osMkdir_noEntry (h : osMkdir t p = .error .noEntry) : t.isDir p.dropLast = false := by
  unfold osMkdir at h
  split at h
  · cases h
  · unfold FileTree.mkdir at h
    split at h
    · split at h
      · cases h
      · cases h
    · rename_i hdir
      exact Bool.eq_false_iff.mpr hdir

/-- Where no file is in the way, any other error says that the directory is there. -/
theorem isDir_of_osMkdir {e : Errno} (h : osMkdir t p = .error e) (he : e ≠ .noEntry)
    (habove : ∀ q, q <+: p → t.file? q = none) : t.isDir p = true := by
  unfold osMkdir at h
  split at h
  · rename_i hlast
    rw [List.getLast?_eq_none_iff.mp hlast]
    exact (t.isDir_iff).mpr t.root
  · rename_i c hlast
    have happ := List.dropLast_append_getLast? c hlast
    unfold FileTree.mkdir at h
    split at h
    · split at h
      · rename_i hthere
        rw [happ, habove p (List.prefix_refl p)] at hthere
        simpa using hthere
      · cases h
    · have hmissing : t.missing p.dropLast = .noEntry := by
        refine if_neg ?_
        simp only [List.any_eq_true, List.mem_inits, not_exists, not_and]
        intro q hq
        simp [habove q (hq.trans (List.dropLast_prefix p))]
      rw [hmissing] at h
      exact absurd (Except.error.inj h).symm he

end PutTurns

end TranscriptionApi.Pipeline
