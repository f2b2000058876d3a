import TranscriptionApi.Lib.Transition
import TranscriptionApi.Pipeline.Run

/-!
Calls of `orchestrate` and passes of the purge, by any users and in any order,
from a cache without entries.

The caller of `orchestrate` commits what a call that returned has inserted, and
rolls back after one that failed. The log says what every call came to and what
every pass removed; nothing reads it, and it is what the statements about runs
are made of. The entries on disk are the ones of the log: under each key the
payload of the last call that wrote it, unless a pass has removed it since.
-/

namespace TranscriptionApi.Pipeline

open Lib Python

inductive LogEntry (δ φ : Type) where
  | called (call : OrchestrateCall φ) (report : RunReport δ φ)
  /-- by a pass -/
  | cleaned (removed : List Path)

structure CacheWorld (δ φ : Type) where
  tree : FileTree Bytes
  rows : List (TranscriptionRow δ φ)
  /-- the last entry first -/
  log : List (LogEntry δ φ)

inductive CacheEvent (φ : Type) where
  | call (call : OrchestrateCall φ)
  | purge (pass : Pass)

variable {δ φ : Type} (S : Services δ φ) (settings : ModelSettings) (base : Path)

/-- The commit or the rollback of the caller. -/
def settle (rows : List (TranscriptionRow δ φ)) (report : RunReport δ φ) :
    List (TranscriptionRow δ φ) :=
  match report.result with
  | .ok _ => rows ++ report.flushed.toList
  | .error _ => rows

def afterCall (s : CacheWorld δ φ) (call : OrchestrateCall φ) : CacheWorld δ φ :=
  let report := orchestrate S settings base s.tree call
  { tree := report.tree, rows := settle s.rows report,
    log := .called call report :: (report.cleaned.map .cleaned ++ s.log) }

def afterPurge (s : CacheWorld δ φ) (pass : Pass) : CacheWorld δ φ :=
  let purged := purgeExpired base pass s.tree
  { s with tree := purged.tree, log := .cleaned purged.removed :: s.log }

def cacheSystem : System (CacheWorld δ φ) (CacheEvent φ) where
  step := fun s e =>
    match e with
    | .call call => some (afterCall S settings base s call)
    | .purge pass => some (afterPurge base s pass)

/-- Nothing has been called. -/
def startWorld (t : FileTree Bytes) : CacheWorld δ φ := ⟨t, [], []⟩

/-- What the calls have written and no pass has removed. -/
def lastWrite : List (LogEntry δ φ) → CacheMap φ
  | [] => CacheMap.empty
  | .cleaned removed :: log =>
      (lastWrite log).keep fun u h _ => !removed.contains (entryPath base u h)
  | .called call report :: log =>
      match report.written with
      | some (h, payload) => (lastWrite log).set call.userId h (some (payload, call.writtenAt))
      | none => lastWrite log

variable {S} {settings} {base}

section Refinement

variable {P : Json.Interpreter φ} {t t' : FileTree Bytes} {m : CacheMap φ}
  {call : OrchestrateCall φ} {h : String} {payload : Json.Fields φ}

theorem refines_runPasses {log : List (LogEntry δ φ)} (passes : List Pass)
    (hr : Refines P base t (lastWrite base log)) :
    Refines P base (runPasses base t passes).1
      (lastWrite base ((runPasses base t passes).2.map .cleaned ++ log)) :=
  runPasses_induction (I := fun t removed =>
    Refines P base t (lastWrite base (removed.map .cleaned ++ log))) passes
    (fun _ _ _ hr => hr.purge) hr

/-- A write that breaks off touches the temporary file and the directories. -/
theorem brokenPut_effect (t : FileTree Bytes) (call : OrchestrateCall φ) (h : String)
    (fault : DiskFault) :
    (∀ q, q ≠ tmpPath base call.userId h →
      (brokenPut base t call h fault).2.file? q = t.file? q) ∧
    ∀ q, (brokenPut base t call h fault).2.isDir q = true →
      t.isDir q = true ∨ validAudioHash h = true ∧ q <+: entryDir base call.userId h := by
  unfold brokenPut
  split
  · rename_i hh
    have hmade (q : Path) (hq : (t.mkdirs [] (entryDir base call.userId h)).2.isDir q = true) :
        t.isDir q = true ∨ validAudioHash h = true ∧ q <+: entryDir base call.userId h :=
      (FileTree.isDir_mkdirs hq).imp_right fun hprefix => ⟨hh, hprefix⟩
    simp only
    split
    · exact ⟨fun q _ => FileTree.file?_mkdirs _ q, hmade⟩
    · split
      · exact ⟨fun q _ => FileTree.file?_mkdirs _ q, hmade⟩
      · rename_i t₁ hwrite
        refine ⟨fun q hq => ?_, fun q hq => hmade q (FileTree.isDir_writeFile hwrite ▸ hq)⟩
        exact (FileTree.file?_writeFile hwrite q).trans
          ((if_neg hq).trans (FileTree.file?_mkdirs _ q))
  · exact ⟨fun q _ => rfl, fun q hq => .inl hq⟩

theorem refines_brokenPut (hr : Refines P base t m) (call : OrchestrateCall φ) (h : String)
    (fault : DiskFault) : Refines P base (brokenPut base t call h fault).2 m := by
  obtain ⟨hfile, hdir⟩ := brokenPut_effect t call h fault
  have hlayout : Layout base (brokenPut base t call h fault).2 := by
    refine hr.layout.mono (fun q hlength hq => ?_) fun q hq =>
      (hdir q hq).imp_right fun hnew => ⟨_, _, hnew⟩
    rw [hfile, hq]
    rintro rfl
    rw [length_tmpPath] at hlength
    omega
  exact hr.step hlayout fun u' h' _ => .inl ⟨rfl, hfile _ entryPath_ne_tmpPath⟩

theorem brokenPut_error (t : FileTree Bytes) (fault : DiskFault) :
    (brokenPut base t call h fault).1 ≠ .ok () := by
  unfold brokenPut
  split
  · simp only
    split
    · simp
    · split
      · simp
      · simp
  · simp

theorem refines_cachePut (hr : Refines S.interpreter base t m)
    (hpayload : (Json.Value.obj payload).Distinct)
    (hput : cachePut S base t call h payload = (.ok (), t')) :
    Refines S.interpreter base t' (m.set call.userId h (some (payload, call.writtenAt))) := by
  unfold cachePut at hput
  split at hput
  · have hok := hr.put hpayload (congrArg Prod.fst hput)
    rwa [hput] at hok
  · exact absurd (congrArg Prod.fst hput) (brokenPut_error t _)

theorem refines_cachePut_error {e : CacheError} (hr : Refines S.interpreter base t m)
    (hput : cachePut S base t call h payload = (.error e, t')) :
    Refines S.interpreter base t' m := by
  unfold cachePut at hput
  split at hput
  · have herror := hr.put_error (congrArg Prod.fst hput)
    rwa [hput] at herror
  · rename_i fault _
    have hbroken := refines_brokenPut hr call h fault
    rwa [hput] at hbroken

variable (S) (base) in
/-- The entries after a call with this report are the ones of the log with it. -/
def Leaves (log : List (LogEntry δ φ)) (call : OrchestrateCall φ) (report : RunReport δ φ) : Prop :=
  Refines S.interpreter base report.tree
    (lastWrite base (.called call report :: (report.cleaned.map .cleaned ++ log)))

variable {log : List (LogEntry δ φ)} {duration : Json.Number φ}

theorem leaves_missReport (hr : Refines S.interpreter base t (lastWrite base log)) :
    Leaves S base log call (missReport S settings base t call h duration) := by
  have hpasses := refines_runPasses call.during hr
  unfold missReport
  simp only
  split
  · exact hpasses
  · rename_i payload hcomputed
    split
    · rename_i e t' hput
      exact refines_cachePut_error hpasses hput
    · rename_i t' hput
      exact refines_cachePut hpasses (computePayload_ok hcomputed).1 hput

/-- The step lemma of a call. -/
theorem leaves_orchestrate (hr : Refines S.interpreter base t (lastWrite base log))
    (call : OrchestrateCall φ) :
    Leaves S base log call (orchestrate S settings base t call) := by
  have hfailed (e : RunFailure) (stages : List Stage) :
      Leaves S base log call (failedReport t e stages) := hr
  have hrun : Leaves S base log call (runPipeline S settings base t call) := by
    unfold runPipeline
    split
    · exact hfailed _ _
    · split
      · exact hfailed _ _
      · exact refines_runPasses call.during hr
      · exact leaves_missReport hr
  unfold orchestrate
  split
  · exact hrun
  · exact hfailed _ _

end Refinement

/-! ### The log and the disk -/

variable (S) (settings) (base) in
/-- The tree holds what the log says, and every call in the log did what
`orchestrate` does. -/
structure Recorded (s : CacheWorld δ φ) : Prop where
  refines : Refines S.interpreter base s.tree (lastWrite base s.log)
  called : ∀ call report, .called call report ∈ s.log →
    ∃ t, report = orchestrate S settings base t call

theorem recorded_startWorld {t : FileTree Bytes} (hfresh : Fresh base t) :
    Recorded S settings base (startWorld t) where
  refines := hfresh.refines
  called := fun _ _ hmem => by cases hmem

theorem Recorded.step {s s' : CacheWorld δ φ} {e : CacheEvent φ} (hs : Recorded S settings base s)
    (hstep : (cacheSystem S settings base).step s e = some s') : Recorded S settings base s' := by
  cases e with
  | call call =>
      cases hstep
      refine ⟨leaves_orchestrate hs.refines call, fun c r hmem => ?_⟩
      rcases List.mem_cons.mp hmem with heq | hmem
      · cases heq
        exact ⟨s.tree, rfl⟩
      · -- behind it come its passes, and then the log before
        rcases List.mem_append.mp hmem with hmem | hmem
        · obtain ⟨removed, -, heq⟩ := List.mem_map.mp hmem
          cases heq
        · exact hs.called c r hmem
  | purge pass =>
      cases hstep
      refine ⟨hs.refines.purge, fun c r hmem => ?_⟩
      rcases List.mem_cons.mp hmem with heq | hmem
      · cases heq
      · exact hs.called c r hmem

end TranscriptionApi.Pipeline
