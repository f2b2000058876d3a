import TranscriptionApi.Api.Transcriptions
import TranscriptionApi.Pipeline.FormatGate
import TranscriptionApi.Pipeline.History
import TranscriptionApi.Runtime.Readiness
import TranscriptionApi.Uploads.ImageRun

/-!
`POST /api/transcriptions`, from its gates to the `unlink` of its `finally`.

The body is written to a file of the uploads directory, and the pipeline works on
that file and puts a WAV next to it. The request can fail or be cancelled in every
read and every `await`. Two blocks unlink the file: the handler around the loop,
which asks for `Exception` and so misses a cancelled read, and the `finally` around
the pipeline, which misses nothing but an `unlink` that raises.

The handlers after the pipeline roll back and answer from a catalogue. They find the
transaction open, unless what they handle is that the answer of a call that has
committed cannot be rendered.
-/

namespace TranscriptionApi.Api

open Db Lib Mcp Pipeline Python Uploads
open TranscriptionApi.Runtime

/-! ### The request -/

/-- `PurePath(s).name`. -/
def pathName (s : String) : List Char :=
  (((splitOnSlash s.toList).filter fun part => part ≠ [] ∧ part ≠ ['.']).getLast?).getD []

/-- `PurePath(s).suffix`. -/
def pathSuffix (s : String) : String :=
  let name := pathName s
  -- up to the last dot, from the right
  let stem := name.reverse.dropWhile (· ≠ '.')
  if 1 < stem.length ∧ stem.length < name.length then String.ofList (name.drop (stem.length - 1))
  else ""

def decDigit (c : Char) : Option ℕ :=
  if 48 ≤ c.toNat ∧ c.toNat ≤ 57 then some (c.toNat - 48) else none

/-- The digits of an integer literal in base 10: `int` allows one underscore between
two digits. -/
def decDigits : ℕ → List Char → Option ℕ
  | acc, [] => some acc
  | acc, '_' :: c :: s => (decDigit c).bind fun d => decDigits (10 * acc + d) s
  | acc, c :: s => (decDigit c).bind fun d => decDigits (10 * acc + d) s

def decLiteral : List Char → Option ℕ
  | [] => none
  | '_' :: _ => none
  | s => if 4300 < (s.filter (· ≠ '_')).length then none else decDigits 0 s

/-- `int(s)` on the text of a header; `none` is the `ValueError`. -/
def intBase10 (s : String) : Option ℤ :=
  match stripBy isSpace s.toList with
  | '+' :: t => (decLiteral t).map Int.ofNat
  | '-' :: t => (decLiteral t).map fun n => -Int.ofNat n
  | t => (decLiteral t).map Int.ofNat

/-- An exception, as far as the classifiers look at it. -/
structure PyException where
  className : String
  isRuntimeError : Bool
  isTimeoutError : Bool
  text : String

/-- What cuts the pipeline off in an `await`. -/
inductive Cut where
  | deadline
  | cancelled

/-- The exceptions that `post_transcription` tells apart. -/
inductive PipelineError (φ : Type) where
  | gpuBusy
  | pipelineTimeout
  | gpuError (detail : String)
  | pipelineDiarizeError
  | pipelineNormalizeError
  | audioFormatInvalid (reason : String)
  | audioTooLong (durationSeconds : Json.Number φ) (maxSeconds : ℕ)
  | other
  /-- a `CancelledError`, which is no `Exception` -/
  | cancelled

/-- How `rollback` ends. -/
inductive RollbackEnd where
  | returned
  | raised
  | cancelled

/-- A request, with all that it meets. The pipeline gets its file and its size from
the body, whatever `call` and `wav` say of them. -/
structure PostRun (μ π φ : Type) where
  app : AppState μ π
  contentLength : Option String
  filename : Option String
  rawId : Uuid
  mkdirFails : Bool
  openFails : Bool
  reads : List BodyRead
  /-- the `close` of the file raises, and leaves this much in it -/
  closeFault : Option Bytes
  /-- the `unlink` of a file that is too large raises -/
  tooLargeUnlinkFails : Bool
  /-- the `unlink` of the handler around the loop raises -/
  discardUnlinkFails : Bool
  call : OrchestrateCall φ
  lockCancelled : Bool
  wav : WavRun φ
  /-- the exception, if the pipeline raises one -/
  exception : PyException
  /-- what cuts the pipeline off, if something does -/
  cut : Option Cut
  commit : CommitEnd
  commitCancelled : Bool
  rollback : RollbackEnd
  /-- the `unlink` of the `finally` raises -/
  unlinkFails : Bool
  errorId : Uuid

/-- The settings of the endpoint, and the code around it. -/
structure Deployment (δ φ : Type) where
  services : Services δ φ
  settings : Settings
  models : ModelSettings
  cacheDir : Path
  maxAudioDurationSeconds : ℕ
  lockRetryAfterSeconds : ℕ
  pipelineTimeoutSeconds : ℕ
  sha256 : Bytes → String
  exceeds : Json.Number φ → ℕ → Bool
  /-- `format(x, ".1f")` -/
  fixed1 : Json.Number φ → String
  /-- `JSONResponse` renders the object -/
  renders : Json.Fields φ → Bool

/-- An error body, and the seconds of a `Retry-After` header. -/
structure PostError (φ : Type) where
  status : ℕ
  errorCode : String
  reason : String
  extra : Json.Fields φ := []
  retryAfter : Option ℕ := none

inductive PostAnswer (φ : Type) where
  | ok (body : Json.Fields φ)
  | error (e : PostError φ)
  | raised
  | cancelled

/-- The uploads directory, the cache and the table of transcriptions. -/
structure PostState (δ φ : Type) where
  files : UploadFiles
  tree : FileTree Bytes
  rows : List (TranscriptionRow δ φ)

section Exceptions

variable {μ π φ : Type}

/-- `_is_cuda_oom`. -/
def isCudaOom (e : PyException) : Bool :=
  e.className = "OutOfMemoryError" || within (lower e.text) "out of memory" ||
    within (lower e.text) "cuda oom"

/-- `_is_cuda_runtime_error`. -/
def isCudaRuntimeError (e : PyException) : Bool :=
  e.isRuntimeError && (within (lower e.text) "cuda" || within (lower e.text) "cublas")

/-- An exception on its way out of `orchestrate`. -/
def PyException.toError (e : PyException) : PipelineError φ :=
  if e.isTimeoutError then .pipelineTimeout else .other

/-- What `transcribe` makes of an exception of the model. -/
def transcribeError (e : PyException) : PipelineError φ :=
  if isCudaOom e then .gpuError "oom"
  else if isCudaRuntimeError e then .gpuError "runtime"
  else e.toError

def Cut.toError : Cut → PipelineError φ
  | .deadline => .pipelineTimeout
  | .cancelled => .cancelled

namespace PostRun

variable (run : PostRun μ π φ)

def uploadFilename : String := Api.uploadFilename run.filename

/-- The suffix of the raw file, in lower case. -/
def suffix : String := lower (pathSuffix run.uploadFilename)

/-- `f"{raw_id}{suffix}"`. -/
def rawName : String := uuidStr run.rawId ++ run.suffix

/-- The pipeline on the stored body. -/
def orchestrateCall : OrchestrateCall φ :=
  { run.call with
    originalFilename := run.uploadFilename, originalSizeBytes := (received run.reads).length }

def wavRun : WavRun φ :=
  { run.wav with
    normalize := run.wav.normalize.onFile (received run.reads)
      (String.ofList (run.suffix.toList.dropWhile (· = '.'))) }

/-- The exception of a pipeline that was cut off, or has raised one. -/
def cutOr (e : PipelineError φ) : PipelineError φ :=
  match run.cut with
  | some cut => cut.toError
  | none => e

/-- The exception of a failed call. -/
def error (normalized : Except (NormalizeError φ) (String × String × Json.Number φ)) :
    RunFailure → PipelineError φ
  | .gpuBusy => if run.lockCancelled then .cancelled else .gpuBusy
  | .stage .normalize =>
      match run.wav.wait, normalized with
      | .returned, .error (.audioFormatInvalid reason) => .audioFormatInvalid reason
      | .returned, .error (.pipelineNormalizeError _) => .pipelineNormalizeError
      | .returned, .error (.audioTooLong duration max) => .audioTooLong duration max
      | .returned, _ => run.exception.toError
      | _, _ => run.cutOr run.exception.toError
  | .stage .transcribe => run.cutOr (transcribeError run.exception)
  | .stage .diarize => run.cutOr .pipelineDiarizeError
  | .insert => run.cutOr run.exception.toError
  | .interrupted => run.cutOr run.exception.toError
  | _ => run.exception.toError

end PostRun

end Exceptions

/-! ### The answers -/

section Answers

variable {δ φ : Type} (D : Deployment δ φ)

def audioTooLarge : PostError φ where
  status := 413
  errorCode := "AUDIO_TOO_LARGE"
  reason := "upload exceeds " ++ toString D.settings.maxUploadMb ++ " MB"
  extra := [(jsonKey "max_mb", .int D.settings.maxUploadMb)]

/-- `_models_loaded_or_503`. -/
def modelsNotLoaded (r : ReadinessResult) : PostError φ where
  status := 503
  errorCode := "MODELS_NOT_LOADED"
  reason := r.failingModel.getD "None" ++ " model is not ready; service is starting or degraded"
  extra := [(jsonKey "detail", match r.detail with
    | none => .null
    | some detail => .str (jsonKey detail))]
  retryAfter := some 30

/-- `_stripped_500`. -/
def stripped500 (errorId : Uuid) (errorCode : String) (extra : Json.Fields φ) : PostError φ where
  status := 500
  errorCode := errorCode
  reason := "see error_id in logs"
  extra := (jsonKey "error_id", uuidValue errorId) :: extra

/-- The `except` clauses, in the order of their classes; `none` is an exception that
none of them catches. -/
def catalogue (errorId : Uuid) : PipelineError φ → Option (PostError φ)
  | .gpuBusy => some
      { status := 503
        errorCode := "GPU_BUSY"
        reason := "GPU busy; retry shortly"
        extra := [(jsonKey "retry_after", .int D.lockRetryAfterSeconds)]
        retryAfter := some D.lockRetryAfterSeconds }
  | .pipelineTimeout => some
      { status := 504
        errorCode := "PIPELINE_TIMEOUT"
        reason := "pipeline exceeded " ++ toString D.pipelineTimeoutSeconds ++ "s"
        extra := [(jsonKey "timeout_seconds", .int D.pipelineTimeoutSeconds)] }
  | .gpuError detail =>
      some (stripped500 errorId "GPU_ERROR" [(jsonKey "detail", .str (jsonKey detail))])
  | .pipelineDiarizeError => some (stripped500 errorId "PIPELINE_DIARIZE_ERROR" [])
  | .pipelineNormalizeError => some (stripped500 errorId "PIPELINE_NORMALIZE_ERROR" [])
  | .audioFormatInvalid reason => some
      { status := 400
        errorCode := "AUDIO_FORMAT_INVALID"
        reason := reason }
  | .audioTooLong duration maxSeconds => some
      { status := 413
        errorCode := "AUDIO_TOO_LARGE"
        reason := "audio duration " ++ D.fixed1 duration ++ "s exceeds " ++ toString maxSeconds ++
          "s cap"
        extra := [(jsonKey "duration_seconds", .float duration),
          (jsonKey "max_seconds", .int maxSeconds)] }
  | .other => some (stripped500 errorId "INTERNAL_ERROR" [])
  | .cancelled => none

/-- A handler: the rollback, and then the answer if it can be rendered. -/
def handle (rollback : RollbackEnd) (errorId : Uuid) (e : PipelineError φ) : PostAnswer φ :=
  match catalogue D errorId e with
  | none => .cancelled
  | some answer =>
      match rollback with
      | .returned => if D.renders answer.extra then .error answer else .raised
      | .raised => .raised
      | .cancelled => .cancelled

end Answers

/-! ### The endpoint -/

/-- The loop: the bytes it has written, and how it ended; `none` when the cap was
exceeded. -/
def streamRaw (maxBytes : ℕ) (written : Bytes) : List BodyRead → Bytes × Option BodyEnd
  | [] => (written, some .finished)
  | .chunk b bs :: reads =>
      if written.length + (b :: bs).length > maxBytes then (written, none)
      else streamRaw maxBytes (written ++ b :: bs) reads
  | .unwritable b bs :: _ =>
      if written.length + (b :: bs).length > maxBytes then (written, none)
      else (written, some .raised)
  | .raised :: _ => (written, some .raised)
  | .cancelled :: _ => (written, some .cancelled)

def maxUploadBytes (settings : Settings) : ℕ := settings.maxUploadMb * 1024 * 1024

section Endpoint

variable {μ π δ φ : Type} (D : Deployment δ φ) (run : PostRun μ π φ)

/-- The checks before anything is stored. -/
def precheck : Option (PostAnswer φ) :=
  match checkModelsReady run.app with
  | none => some .raised
  | some r =>
      if r.ready then
        match run.contentLength.bind intBase10 with
        | none => none
        | some declared =>
            if declared > maxUploadBytes D.settings then some (.error (audioTooLarge D))
            else none
      else some (.error (modelsNotLoaded r))

/-- The `except Exception` block around the loop. -/
def discardRaw (files : UploadFiles) : UploadFiles × Option (PostAnswer φ) :=
  (unlinkFile run.discardUnlinkFails run.rawName files, some .raised)

/-- The raw file, and the answer unless the request goes on to the pipeline. -/
def saveRaw (files : UploadFiles) : UploadFiles × Option (PostAnswer φ) :=
  if run.mkdirFails then (files, some .raised)
  else if run.openFails then discardRaw run files
  else
    let streamed := streamRaw (maxUploadBytes D.settings) [] run.reads
    match run.closeFault with
    | some left => discardRaw run (Function.update files run.rawName (some left))
    | none =>
        let stored := Function.update files run.rawName (some streamed.1)
        match streamed.2 with
        | none =>
            -- an `unlink` that raises here is made again by the handler
            if run.tooLargeUnlinkFails then discardRaw run stored
            else (unlinkFile false run.rawName stored, some (.error (audioTooLarge D)))
        | some .finished => (stored, none)
        | some .raised => discardRaw run stored
        | some .cancelled => (stored, some .cancelled)

/-- `orchestrate`, with the files of the uploads directory. -/
def orchestrateRaw (s : PostState δ φ) : RunReport δ φ × UploadFiles :=
  if run.orchestrateCall.acquires then
    let ran := runPipelineIn D.services D.models D.cacheDir D.sha256 D.exceeds
      D.maxAudioDurationSeconds s.tree run.orchestrateCall run.wavRun s.files
    (finishCall D.services run.orchestrateCall ran.1, ran.2)
  else (failedReport s.tree .gpuBusy [], s.files)

/-- The `try` around the pipeline: the answer and the rows. -/
def settlePost (s : PostState δ φ) (report : RunReport δ φ) :
    PostAnswer φ × List (TranscriptionRow δ φ) :=
  match report.result with
  | .error failure =>
      let normalized := (normalizeAudio D.sha256 D.exceeds D.maxAudioDurationSeconds
        run.wavRun.normalize s.files).1
      (handle D run.rollback run.errorId (run.error normalized failure), s.rows)
  | .ok body =>
      let answer (e : PipelineError φ) := handle D run.rollback run.errorId
        (if run.commitCancelled then .cancelled else e)
      match run.commit with
      | .committed =>
          -- what has been committed stays, also if it cannot be rendered
          (if D.renders body then .ok body else handle D run.rollback run.errorId .other,
            s.rows ++ report.flushed.toList)
      | .rolledBack => (answer .other, s.rows)
      | .answerLost => (answer .other, s.rows ++ report.flushed.toList)

/-- `post_transcription`. -/
def postTranscriptionIn (s : PostState δ φ) : PostAnswer φ × PostState δ φ :=
  match precheck D run with
  | some answer => (answer, s)
  | none =>
      let saved := saveRaw D run s.files
      let s := { s with files := saved.1 }
      match saved.2 with
      | some answer => (answer, s)
      | none =>
          let ran := orchestrateRaw D run s
          let settled := settlePost D run s ran.1
          (settled.1,
            { files := unlinkFile run.unlinkFails run.rawName ran.2
              tree := ran.1.tree
              rows := settled.2 })

end Endpoint

/-! ### The name of the raw file -/

theorem toLower_eq_dot {c : Char} : c.toLower = '.' ↔ c = '.' := by
  unfold Char.toLower
  split
  · rename_i hupper
    refine iff_of_false (fun h => ?_) fun h => ?_
    · have hval := congrArg (fun c => c.val.toNat) h
      simp only [ge_iff_le, UInt32.le_iff_toNat_le] at hupper
      simp at hval hupper
      omega
    · subst h
      revert hupper
      decide
  · rfl

theorem count_dot_lower (s : String) : (lower s).toList.count '.' = s.toList.count '.' := by
  rw [lower, String.toList_ofList, List.count, List.countP_map]
  refine List.countP_congr fun c _ => ?_
  simp only [Function.comp_apply, beq_iff_eq]
  exact toLower_eq_dot

/-- A suffix is a dot and what comes after the last dot of the name. -/
theorem count_dot_pathSuffix (s : String) : (pathSuffix s).toList.count '.' ≤ 1 := by
  unfold pathSuffix
  generalize pathName s = name
  dsimp only
  split
  · rename_i hstem
    have hsplit : (name.reverse.dropWhile (· ≠ '.')).reverse ++
        (name.reverse.takeWhile (· ≠ '.')).reverse = name := by
      rw [← List.reverse_append, List.takeWhile_append_dropWhile, List.reverse_reverse]
    have hafter : (name.reverse.takeWhile (· ≠ '.')).reverse.count '.' = 0 := by
      rw [List.count_reverse, List.count_eq_zero]
      intro hmem
      simpa using List.all_eq_true.mp List.all_takeWhile _ hmem
    generalize name.reverse.dropWhile (· ≠ '.') = stem at hsplit hstem ⊢
    cases stem with
    | nil => simp at hstem
    | cons c rest =>
        rw [String.toList_ofList, ← hsplit, List.reverse_cons, List.append_assoc,
          List.length_cons, Nat.add_sub_cancel, ← List.length_reverse, List.drop_left,
          List.count_append, hafter]
        exact List.count_le_length
  · simp

theorem count_dot_uuidStr (u : Uuid) : (uuidStr u).toList.count '.' = 0 := by
  rw [List.count_eq_zero]
  intro hmem
  rcases mem_uuidStr hmem with h | ⟨d, h⟩
  · revert h
    decide
  · revert d
    decide

/-- The raw file and the WAV never have one name. -/
theorem rawName_ne_outName {μ π φ : Type} (run : PostRun μ π φ) (c : NormalizeCall φ) :
    c.outName ≠ run.rawName := by
  intro h
  have hraw : run.rawName.toList.count '.' ≤ 1 := by
    rw [PostRun.rawName, String.toList_append, List.count_append, count_dot_uuidStr,
      PostRun.suffix, count_dot_lower, Nat.zero_add]
    exact count_dot_pathSuffix _
  have hout : 2 ≤ c.outName.toList.count '.' := by
    rw [NormalizeCall.outName, String.toList_append, List.count_append]
    have hext : ".normalized.wav".toList.count '.' = 2 := by decide
    omega
  rw [h] at hout
  omega

/-! ### The files -/

section Files

variable {μ π δ φ : Type} (D : Deployment δ φ) (run : PostRun μ π φ)

/-- The loop ends as the body does, unless it goes past the cap, and then it has
written what it has read. -/
theorem streamRaw_spec (maxBytes : ℕ) (reads : List BodyRead) (written : Bytes)
    (hle : written.length ≤ maxBytes) :
    (streamRaw maxBytes written reads).2 =
        (if written.length + (received reads).length > maxBytes then none
          else some (bodyEnd reads)) ∧
      (bodyEnd reads = .finished → written.length + (received reads).length ≤ maxBytes →
        (streamRaw maxBytes written reads).1 = written ++ received reads) := by
  induction reads generalizing written with
  | nil =>
      rw [if_neg (by simpa [received] using hle)]
      exact ⟨rfl, fun _ _ => (List.append_nil _).symm⟩
  | cons r reads ih =>
      cases r with
      | chunk b bs =>
          have hlength : written.length + (received (.chunk b bs :: reads)).length =
              (written ++ b :: bs).length + (received reads).length := by
            simp only [received, List.length_append]
            omega
          rw [streamRaw, hlength, ← List.length_append]
          split
          · rename_i hover
            exact ⟨(if_pos (by omega)).symm, fun _ hfits => by omega⟩
          · obtain ⟨hend, hbytes⟩ := ih (written ++ b :: bs) (by omega)
            refine ⟨hend, fun hfinished hfits => ?_⟩
            rw [hbytes hfinished hfits, received, List.append_assoc]
      | unwritable b bs =>
          rw [streamRaw]
          simp only [received, bodyEnd]
          split
          · rename_i hover
            exact ⟨(if_pos hover).symm, fun h => by cases h⟩
          · rename_i hfits
            exact ⟨(if_neg hfits).symm, fun h => by cases h⟩
      | raised =>
          rw [if_neg (by simpa [received] using hle)]
          exact ⟨rfl, fun h => by cases h⟩
      | cancelled =>
          rw [if_neg (by simpa [received] using hle)]
          exact ⟨rfl, fun h => by cases h⟩

/-- The body is longer than the cap, wherever its reads end. -/
def PostRun.TooLarge : Prop := maxUploadBytes D.settings < (received run.reads).length

/-- The request gets to the loop. -/
structure PostRun.Opens : Prop where
  precheck : precheck D run = none
  mkdir : run.mkdirFails = false
  openWb : run.openFails = false

/-- The request gets to the pipeline. -/
structure PostRun.Stores : Prop extends run.Opens D where
  fits : ¬ run.TooLarge D
  finished : bodyEnd run.reads = .finished
  closed : run.closeFault = none

open Classical in
/-- Something keeps both `unlink` calls from taking the raw file away: each of the
calls that the request comes to raises, or it is cancelled in a read and comes to
none. -/
def PostRun.LeavesRaw : Prop :=
  run.Opens D ∧
    if run.closeFault.isSome then run.discardUnlinkFails = true
    else if run.TooLarge D then run.tooLargeUnlinkFails = true ∧ run.discardUnlinkFails = true
    else
      match bodyEnd run.reads with
      | .finished => run.unlinkFails = true
      | .raised => run.discardUnlinkFails = true
      | .cancelled => True

variable {D run} {files : UploadFiles}

/-- Only the raw file is written before the pipeline. -/
theorem files_discardRaw (left : Option Bytes) :
    (discardRaw run (Function.update files run.rawName left)).1 =
      Function.update files run.rawName (if run.discardUnlinkFails then left else none) :=
  unlinkFile_update ..

open Classical in
/-- A request that stores its body goes on; any other has its answer, and leaves the
raw file as `LeavesRaw` says. -/
theorem saveRaw_spec (hpre : precheck D run = none) (hfresh : files run.rawName = none) :
    (run.Stores D ∧ saveRaw D run files =
        (Function.update files run.rawName (some (received run.reads)), none)) ∨
      ¬ run.Stores D ∧ (∃ answer, (saveRaw D run files).2 = some answer ∧
        ∀ body, answer ≠ .ok body) ∧
        ((saveRaw D run files).1 = files ↔ ¬ run.LeavesRaw D) := by
  have hupdate (left : Option Bytes) :
      Function.update files run.rawName left = files ↔ left = none := by
    rw [Function.update_eq_self_iff, hfresh]
  have hdiscard (left : Option Bytes) (hleft : left.isSome) :
      (discardRaw run (Function.update files run.rawName left)).1 = files ↔
        ¬ run.discardUnlinkFails = true := by
    rw [files_discardRaw, hupdate]
    cases run.discardUnlinkFails with
    | false => simp
    | true =>
        obtain ⟨bytes, rfl⟩ := Option.isSome_iff_exists.mp hleft
        simp
  have hraised : ∃ answer : PostAnswer φ, some PostAnswer.raised = some answer ∧
      ∀ body, answer ≠ .ok body := ⟨_, rfl, fun _ h => by cases h⟩
  unfold saveRaw
  cases hmkdir : run.mkdirFails with
  | true =>
      right
      have hnot : ¬ run.Opens D := fun h => by simp [h.mkdir] at hmkdir
      exact ⟨fun h => hnot h.toOpens, hraised, iff_of_true rfl fun h => hnot h.1⟩
  | false =>
      cases hopen : run.openFails with
      | true =>
          right
          have hnot : ¬ run.Opens D := fun h => by simp [h.openWb] at hopen
          refine ⟨fun h => hnot h.toOpens, hraised, iff_of_true ?_ fun h => hnot h.1⟩
          show unlinkFile run.discardUnlinkFails run.rawName files = files
          unfold unlinkFile
          split
          · rfl
          · exact (hupdate none).mpr rfl
      | false =>
          have hopens : run.Opens D := ⟨hpre, hmkdir, hopen⟩
          obtain ⟨hend, hbytes⟩ := streamRaw_spec (maxUploadBytes D.settings) run.reads []
            (Nat.zero_le _)
          simp only [List.length_nil, Nat.zero_add, List.nil_append] at hend hbytes
          simp only [Bool.false_eq_true, if_false]
          cases hclose : run.closeFault with
          | some left =>
              right
              refine ⟨fun h => by simp [h.closed] at hclose, hraised, ?_⟩
              rw [PostRun.LeavesRaw, and_iff_right hopens, hclose]
              exact hdiscard (some left) rfl
          | none =>
              by_cases hover : (received run.reads).length > maxUploadBytes D.settings
              · right
                have hlarge : run.TooLarge D := hover
                rw [hend, if_pos hover]
                have hiff : run.LeavesRaw D ↔ run.tooLargeUnlinkFails = true ∧
                    run.discardUnlinkFails = true := by
                  rw [PostRun.LeavesRaw, and_iff_right hopens, hclose]
                  simp [hlarge]
                rw [hiff]
                refine ⟨fun h => h.fits hlarge, ?_, ?_⟩
                · dsimp only
                  split
                  · exact hraised
                  · exact ⟨_, rfl, fun _ h => by cases h⟩
                · dsimp only
                  split
                  · rename_i hunlink
                    rw [hdiscard _ rfl]
                    simp [hunlink]
                  · rename_i hunlink
                    rw [unlinkFile_update, if_neg Bool.false_ne_true, hupdate none]
                    exact iff_of_true rfl fun h => hunlink h.1
              · have hlarge : ¬ run.TooLarge D := hover
                rw [hend, if_neg hover]
                have hiff : run.LeavesRaw D ↔ match bodyEnd run.reads with
                    | .finished => run.unlinkFails = true
                    | .raised => run.discardUnlinkFails = true
                    | .cancelled => True := by
                  rw [PostRun.LeavesRaw, and_iff_right hopens, hclose]
                  simp [hlarge]
                cases hbody : bodyEnd run.reads with
                | finished =>
                    left
                    refine ⟨⟨hopens, hlarge, hbody, hclose⟩, ?_⟩
                    rw [hbytes hbody (Nat.not_lt.mp hover)]
                | raised =>
                    right
                    rw [hiff, hbody]
                    refine ⟨fun h => by simp [h.finished] at hbody, hraised, ?_⟩
                    exact hdiscard _ rfl
                | cancelled =>
                    right
                    rw [hiff, hbody]
                    refine ⟨fun h => by simp [h.finished] at hbody,
                      ⟨_, rfl, fun _ h => by cases h⟩, ?_⟩
                    dsimp only
                    rw [hupdate]
                    exact iff_of_false (Option.some_ne_none _) fun h => h trivial

/-- The pipeline writes under the name of its WAV only. -/
theorem files_runPipelineIn_of_ne {S : Services δ φ} {models : ModelSettings} {base : Path}
    {sha256 : Bytes → String} {exceeds : Json.Number φ → ℕ → Bool} {maxSeconds : ℕ}
    {t : FileTree Bytes} {call : OrchestrateCall φ} {wav : WavRun φ} {name : String}
    (hname : name ≠ wav.normalize.outName) :
    (runPipelineIn S models base sha256 exceeds maxSeconds t call wav files).2 name =
      files name := by
  by_cases hencodes : Encodes wav
  · rw [files_runPipelineIn hencodes, Function.update_of_ne hname]
  · rw [files_runPipelineIn_of_not_encodes hencodes]

theorem keepsName_congr {exceeds : Json.Number φ → ℕ → Bool} {maxSeconds : ℕ} {wav : WavRun φ}
    {files' : UploadFiles} (h : files wav.normalize.outName = files' wav.normalize.outName) :
    KeepsName exceeds maxSeconds wav files ↔ KeepsName exceeds maxSeconds wav files' := by
  unfold KeepsName
  rw [h]

theorem files_orchestrateRaw_rawName (s : PostState δ φ) :
    (orchestrateRaw D run s).2 run.rawName = s.files run.rawName := by
  unfold orchestrateRaw
  split
  · exact files_runPipelineIn_of_ne (rawName_ne_outName run run.wavRun.normalize).symm
  · rfl

theorem files_orchestrateRaw_iff (s : PostState δ φ) :
    (orchestrateRaw D run s).2 = s.files ↔ (run.call.acquires = true →
      KeepsName D.exceeds D.maxAudioDurationSeconds run.wavRun s.files) := by
  unfold orchestrateRaw
  split
  · rename_i hacquires
    rw [runPipelineIn_files_iff]
    exact ⟨fun h _ => h, fun h => h hacquires⟩
  · rename_i hacquires
    exact iff_of_true rfl fun h => absurd h hacquires

/-- With the raw file stored, what is left is up to the pipeline and the `finally`. -/
theorem unlinkFile_eq_iff {left stored : UploadFiles} {name : String} {body : Bytes}
    (hstored : stored = Function.update files name (some body)) (hfresh : files name = none)
    (hleft : left name = stored name) (fault : Bool) :
    unlinkFile fault name left = files ↔ ¬ fault = true ∧ left = stored := by
  have hbody : stored name = some body := by rw [hstored, Function.update_self]
  cases fault with
  | true =>
      refine iff_of_false (fun h => ?_) fun h => h.1 rfl
      have hname := congrFun h name
      rw [unlinkFile, if_pos rfl, hleft, hbody, hfresh] at hname
      cases hname
  | false =>
      rw [unlinkFile, if_neg Bool.false_ne_true, and_iff_right Bool.false_ne_true]
      constructor
      · intro h
        funext other
        by_cases hother : other = name
        · rw [hother, hleft]
        · have hsame := congrFun h other
          rw [Function.update_of_ne hother] at hsame
          rw [hsame, hstored, Function.update_of_ne hother]
      · intro h
        rw [h, hstored, Function.update_idem, Function.update_eq_self_iff, hfresh]

/-- A request leaves the uploads directory as it was exactly when its raw file is
unlinked and, if the pipeline runs, its WAV is. -/
theorem files_postTranscriptionIn {s : PostState δ φ} (hfresh : s.files run.rawName = none) :
    (postTranscriptionIn D run s).2.files = s.files ↔
      ¬ run.LeavesRaw D ∧ (run.Stores D → run.call.acquires = true →
        KeepsName D.exceeds D.maxAudioDurationSeconds run.wavRun s.files) := by
  unfold postTranscriptionIn
  cases hpre : precheck D run with
  | some answer =>
      have hnot : ¬ run.Opens D := fun h => by simp [h.precheck] at hpre
      exact iff_of_true rfl ⟨fun h => hnot h.1, fun h => absurd h.toOpens hnot⟩
  | none =>
      dsimp only
      rcases saveRaw_spec hpre hfresh with ⟨hstores, hsaved⟩ | ⟨hnot, ⟨answer, hanswer, -⟩, hiff⟩
      · rw [hsaved]
        dsimp only
        have hleaves : run.LeavesRaw D ↔ run.unlinkFails = true := by
          rw [PostRun.LeavesRaw, and_iff_right hstores.toOpens, hstores.closed]
          simp [hstores.fits, hstores.finished]
        generalize hstored : ({ s with
          files := Function.update s.files run.rawName (some (received run.reads)) } :
            PostState δ φ) = stored
        have hfiles : stored.files =
            Function.update s.files run.rawName (some (received run.reads)) := by rw [← hstored]
        have hwav : stored.files run.wavRun.normalize.outName =
            s.files run.wavRun.normalize.outName := by
          rw [hfiles, Function.update_of_ne (rawName_ne_outName run _)]
        rw [unlinkFile_eq_iff hfiles hfresh (files_orchestrateRaw_rawName stored), hleaves,
          files_orchestrateRaw_iff, keepsName_congr hwav]
        exact and_congr_right fun _ => ⟨fun h _ => h, fun h => h hstores⟩
      · rw [hanswer]
        dsimp only
        rw [hiff]
        exact ⟨fun h => ⟨h, fun hstores => absurd hstores hnot⟩, fun h => h.1⟩

end Files

/-! ### The row -/

section Row

variable {μ π δ φ : Type} {D : Deployment δ φ} {run : PostRun μ π φ} {s : PostState δ φ}

/-- A call that returns has flushed a row, and its result is of the same payload. -/
theorem flushed_of_finishCall {S : Services δ φ} {models : ModelSettings} {base : Path}
    {t : FileTree Bytes} {call : OrchestrateCall φ} {result : Json.Fields φ}
    (hok : (finishCall S call (runPipeline S models base t call)).result = .ok result) :
    ∃ h payload row, (finishCall S call (runPipeline S models base t call)).flushed = some row ∧
      persistRow S call h payload = .ok (row, pipelineResult call.rowId payload) ∧
      addProcessingSeconds (pipelineResult call.rowId payload) (processingSeconds S call) =
        .ok result := by
  obtain ⟨result₁, hrun, hfinish⟩ := Json.bind_eq_ok hok
  have hadded : addProcessingSeconds result₁ (processingSeconds S call) = .ok result := by
    split at hfinish
    · exact hfinish
    · cases hfinish
  show ∃ h payload row, (runPipeline S models base t call).flushed = _ ∧ _
  have hpersisted {h : String} {payload : Json.Fields φ}
      {sent : TranscriptionRow δ φ × Json.Fields φ} (hsent : persistRow S call h payload = .ok sent)
      (hresult : sent.2 = result₁) :
      persistRow S call h payload = .ok (sent.1, pipelineResult call.rowId payload) ∧
        addProcessingSeconds (pipelineResult call.rowId payload) (processingSeconds S call) =
          .ok result := by
    obtain ⟨row, _⟩ := sent
    obtain ⟨columns, -, -, -, rfl, -⟩ := persistRow_ok hsent
    obtain rfl : pipelineResult call.rowId payload = result₁ := hresult
    exact ⟨hsent, hadded⟩
  unfold runPipeline at hrun ⊢
  cases hnormalize : call.normalize with
  | none =>
      rw [hnormalize] at hrun
      cases hrun
  | some measured =>
      obtain ⟨h, duration⟩ := measured
      rw [hnormalize] at hrun
      dsimp only at hrun ⊢
      cases hget : CacheStore.get S.interpreter base t call.userId h with
      | error e =>
          rw [hget] at hrun
          cases hrun
      | ok found =>
          rw [hget] at hrun
          cases found with
          | some cached =>
              dsimp only [hitReport] at hrun ⊢
              obtain ⟨sent, hsent, hresult⟩ := Json.map_eq_ok hrun
              obtain ⟨payload, -, hpersist⟩ := Json.bind_eq_ok hsent
              exact ⟨h, payload, sent.1, by rw [hsent]; rfl, hpersisted hpersist hresult⟩
          | none =>
              dsimp only [missReport] at hrun ⊢
              split at hrun
              · cases hrun
              · rename_i payload hpayload
                split at hrun
                · cases hrun
                · obtain ⟨sent, hsent, hresult⟩ := Json.map_eq_ok hrun
                  exact ⟨h, payload, sent.1, by dsimp only; rw [hsent]; rfl,
                    hpersisted hsent hresult⟩

theorem measureOutput_ok {sha256 : Bytes → String} {exceeds : Json.Number φ → ℕ → Bool}
    {maxSeconds : ℕ} {c : NormalizeCall φ} {files : UploadFiles} {wav h : String}
    {duration : Json.Number φ}
    (hok : (measureOutput sha256 exceeds maxSeconds c files).1 = .ok (wav, h, duration)) :
    c.probe = .returned duration ∧ exceeds duration maxSeconds = false := by
  unfold measureOutput at hok
  cases hwav : files c.outName with
  | none =>
      rw [hwav] at hok
      cases hok
  | some bytes =>
      cases hhash : c.hashFault with
      | some e =>
          rw [hwav, hhash] at hok
          cases hok
      | none =>
          rw [hwav, hhash] at hok
          cases hprobe : c.probe with
          | returned duration' =>
              rw [hprobe] at hok
              dsimp only at hok
              split at hok
              · cases hok
              · rename_i hexceeds
                cases hok
                exact ⟨rfl, Bool.eq_false_iff.mpr hexceeds⟩
          | _ =>
              rw [hprobe] at hok
              cases hok

theorem discardOutput_ne_ok {c : NormalizeCall φ} {detail : String} {files : UploadFiles}
    {r : String × String × Json.Number φ} : (discardOutput c detail files).1 ≠ .ok r := by
  unfold discardOutput
  split
  · exact fun h => by cases h
  · exact fun h => by cases h

/-- A result of `normalize_audio` is one of a file of a known format, of a duration
under the cap. -/
theorem normalizeAudio_ok {sha256 : Bytes → String} {exceeds : Json.Number φ → ℕ → Bool}
    {maxSeconds : ℕ} {c : NormalizeCall φ} {files : UploadFiles} {wav h : String}
    {duration : Json.Number φ}
    (hok : (normalizeAudio sha256 exceeds maxSeconds c files).1 = .ok (wav, h, duration)) :
    c.checkFormat = .ok () ∧ c.probe = .returned duration ∧
      exceeds duration maxSeconds = false := by
  unfold normalizeAudio at hok
  cases hformat : c.checkFormat with
  | error e =>
      rw [hformat] at hok
      cases hok
  | ok u =>
      refine ⟨rfl, ?_⟩
      cases hmkdir : c.mkdirFault with
      | some e =>
          rw [hformat, hmkdir] at hok
          cases hok
      | none =>
          rw [hformat, hmkdir] at hok
          unfold encode at hok
          cases hffmpeg : c.ffmpeg with
          | returned =>
              rw [hffmpeg] at hok
              exact measureOutput_ok hok
          | raised e =>
              rw [hffmpeg] at hok
              cases hok
          | _ =>
              rw [hffmpeg] at hok
              exact absurd hok discardOutput_ne_ok

/-- What a request has shown of its body when it gets a row: it is under the cap, it
begins like one of the formats, and its duration is under the other cap. -/
structure PostRun.Accepted (D : Deployment δ φ) (run : PostRun μ π φ) : Prop
    extends run.Stores D where
  format : ∃ ext ∈ allowedExtensions, magicMatches (readMagicHead (received run.reads)) ext = true
  duration : ∃ duration, run.wav.normalize.probe = .returned duration ∧
    D.exceeds duration D.maxAudioDurationSeconds = false

theorem format_of_checkFormat {c : NormalizeCall φ} {content : Bytes} {ext : String}
    (h : (c.onFile content ext).checkFormat = .ok ()) :
    ∃ ext ∈ allowedExtensions, magicMatches (readMagicHead content) ext = true := by
  by_cases hext : ext ∈ allowedExtensions
  · exact ⟨ext, hext, (checkFormat_onFile_allowed hext).mp h⟩
  · exact detectExtByMagic_isSome_iff.mp ((checkFormat_onFile_unknown hext).mp h)

theorem PostRun.probe_wavRun : run.wavRun.normalize.probe = run.wav.normalize.probe := by
  simp only [PostRun.wavRun, NormalizeCall.onFile]

/-- The row of a request that the pipeline answers with `body`: its columns and the
body hold the same payload. -/
structure PostRun.RowOf (D : Deployment δ φ) (run : PostRun μ π φ) (row : TranscriptionRow δ φ)
    (body : Json.Fields φ) : Prop where
  id : row.id = run.call.rowId
  userId : row.userId = run.call.userId
  originalFilename : row.originalFilename = run.uploadFilename
  originalSizeBytes : row.originalSizeBytes = (received run.reads).length
  payload : ∃ payload, columnsOf D.services payload = .ok row.columns ∧
    addProcessingSeconds (pipelineResult row.id payload) (processingSeconds D.services run.call) =
      .ok body

theorem orchestrateRaw_ok {body : Json.Fields φ} (hstores : run.Stores D)
    (hok : (orchestrateRaw D run s).1.result = .ok body) :
    run.Accepted D ∧ ∃ row, (orchestrateRaw D run s).1.flushed = some row ∧
      run.RowOf D row body := by
  unfold orchestrateRaw at hok ⊢
  split at hok
  · rename_i hacquires
    rw [if_pos hacquires]
    dsimp only at hok ⊢
    unfold runPipelineIn at hok ⊢
    dsimp only at hok ⊢
    have hfailed {call : OrchestrateCall φ} (hnone : call.normalize = none)
        (hok : (finishCall D.services run.orchestrateCall
          (runPipeline D.services D.models D.cacheDir s.tree call)).result = .ok body) : False := by
      rw [runPipeline, hnone] at hok
      cases hok
    cases hwait : run.wavRun.wait with
    | cancelledQueued =>
        rw [hwait] at hok
        exact (hfailed rfl hok).elim
    | cancelled =>
        rw [hwait] at hok
        exact (hfailed rfl hok).elim
    | returned =>
        rw [hwait] at hok
        dsimp only at hok ⊢
        cases hnormalized : (normalizeAudio D.sha256 D.exceeds D.maxAudioDurationSeconds
            run.wavRun.normalize s.files).1 with
        | error e =>
            rw [hnormalized] at hok
            exact (hfailed rfl hok).elim
        | ok measured =>
            obtain ⟨wav, h, duration⟩ := measured
            rw [hnormalized] at hok
            obtain ⟨hformat, hprobe, hexceeds⟩ := normalizeAudio_ok hnormalized
            rw [PostRun.probe_wavRun] at hprobe
            refine ⟨⟨hstores, format_of_checkFormat hformat, duration, hprobe, hexceeds⟩, ?_⟩
            obtain ⟨h', payload, row, hflushed, hpersist, hbody⟩ := flushed_of_finishCall hok
            obtain ⟨columns, hcolumns, -, -, -, rfl⟩ := persistRow_ok hpersist
            exact ⟨_, hflushed, rfl, rfl, rfl, rfl, payload, hcolumns, hbody⟩
  · cases hok

theorem handle_ne_ok {rollback : RollbackEnd} {errorId : Uuid} {e : PipelineError φ}
    {body : Json.Fields φ} : handle D rollback errorId e ≠ .ok body := by
  unfold handle
  cases catalogue D errorId e with
  | none => exact fun h => by cases h
  | some answer =>
      cases rollback with
      | returned =>
          dsimp only
          split
          · exact fun h => by cases h
          · exact fun h => by cases h
      | raised => exact fun h => by cases h
      | cancelled => exact fun h => by cases h

theorem precheck_ne_ok {answer : PostAnswer φ} (h : precheck D run = some answer)
    (body : Json.Fields φ) : answer ≠ .ok body := by
  unfold precheck at h
  rintro rfl
  split at h
  · cases h
  · split at h
    · split at h
      · cases h
      · split at h
        · cases h
        · cases h
    · cases h

/-- What the pipeline makes of the stored body. -/
def PostRun.report (D : Deployment δ φ) (run : PostRun μ π φ) (s : PostState δ φ) :
    RunReport δ φ :=
  (orchestrateRaw D run { s with
    files := Function.update s.files run.rawName (some (received run.reads)) }).1

/-- The body is stored, and the pipeline returns `body` on it and has flushed `row`. -/
structure PostRun.Delivers (D : Deployment δ φ) (run : PostRun μ π φ) (s : PostState δ φ)
    (row : TranscriptionRow δ φ) (body : Json.Fields φ) : Prop extends run.Stores D where
  returned : (run.report D s).result = .ok body
  flushed : (run.report D s).flushed = some row

/-- What comes of a request: what it does to the table, and whether it says so. -/
structure Concluded (D : Deployment δ φ) (run : PostRun μ π φ) (s : PostState δ φ)
    (answer : PostAnswer φ) (rows : List (TranscriptionRow δ φ)) : Prop where
  /-- A result of the pipeline is one of an accepted body, with its row. -/
  accepted : ∀ row body, run.Delivers D s row body → run.Accepted D ∧ run.RowOf D row body
  /-- The row is inserted unless the COMMIT is rolled back. -/
  inserted : ∀ row body, run.Delivers D s row body →
    rows = if run.commit = .rolledBack then s.rows else s.rows ++ [row]
  /-- Nothing else is inserted. -/
  kept : (∀ row body, ¬ run.Delivers D s row body) → rows = s.rows
  /-- The answer is 200 with the result when the COMMIT is known and the result can be
  rendered, and then only. -/
  answered : ∀ body, answer = .ok body ↔
    (∃ row, run.Delivers D s row body) ∧ run.commit = .committed ∧ D.renders body = true

/-- A request that gets no result. -/
theorem concluded_of_not_delivers {answer : PostAnswer φ} (hnot : ∀ row body,
    ¬ run.Delivers D s row body) (hanswer : ∀ body, answer ≠ .ok body) :
    Concluded D run s answer s.rows where
  accepted := fun row body h => (hnot row body h).elim
  inserted := fun row body h => (hnot row body h).elim
  kept := fun _ => rfl
  answered := fun body => iff_of_false (hanswer body) fun ⟨⟨row, h⟩, _⟩ => hnot row body h

theorem concluded_settlePost (hstores : run.Stores D) {stored : PostState δ φ}
    (hstored : stored = { s with
      files := Function.update s.files run.rawName (some (received run.reads)) }) :
    Concluded D run s (settlePost D run stored (orchestrateRaw D run stored).1).1
      (settlePost D run stored (orchestrateRaw D run stored).1).2 := by
  have hreport : (orchestrateRaw D run stored).1 = run.report D s := by rw [hstored]; rfl
  have hrows : stored.rows = s.rows := by rw [hstored]
  rw [hreport]
  unfold settlePost
  rw [hrows]
  cases hresult : (run.report D s).result with
  | error failure =>
      refine concluded_of_not_delivers (fun row body h => ?_) fun body => handle_ne_ok
      cases hresult.symm.trans h.returned
  | ok body =>
      obtain ⟨haccepted, row, hflushed, hrow⟩ := orchestrateRaw_ok hstores hresult
      have hflushed : (run.report D s).flushed = some row := hflushed
      have hdelivers : run.Delivers D s row body := ⟨hstores, hresult, hflushed⟩
      have hunique {row' : TranscriptionRow δ φ} {body' : Json.Fields φ}
          (h : run.Delivers D s row' body') : row' = row ∧ body' = body := by
        constructor
        · exact Option.some.inj (h.flushed.symm.trans hflushed)
        · exact Except.ok.inj (h.returned.symm.trans hresult)
      rw [hflushed]
      refine ⟨fun row' body' h => ?_, fun row' body' h => ?_,
        fun h => absurd hdelivers (h row body), fun body' => ?_⟩
      · obtain ⟨rfl, rfl⟩ := hunique h
        exact ⟨haccepted, hrow⟩
      · obtain ⟨rfl, -⟩ := hunique h
        cases run.commit with
        | _ => rfl
      · cases hcommit : run.commit with
        | committed =>
            dsimp only
            split
            · rename_i hrenders
              rw [PostAnswer.ok.injEq]
              constructor
              · rintro rfl
                exact ⟨⟨row, hdelivers⟩, rfl, hrenders⟩
              · rintro ⟨⟨row', h⟩, -⟩
                exact (hunique h).2.symm
            · rename_i hrenders
              refine iff_of_false handle_ne_ok ?_
              rintro ⟨⟨row', h⟩, -, hrenders'⟩
              rw [(hunique h).2] at hrenders'
              exact hrenders hrenders'
        | _ => exact iff_of_false handle_ne_ok fun h => by cases h.2.1

theorem concluded_postTranscriptionIn (hfresh : s.files run.rawName = none) :
    Concluded D run s (postTranscriptionIn D run s).1 (postTranscriptionIn D run s).2.rows := by
  unfold postTranscriptionIn
  cases hpre : precheck D run with
  | some answer =>
      refine concluded_of_not_delivers (fun row body h => ?_) (precheck_ne_ok hpre)
      cases hpre.symm.trans h.precheck
  | none =>
      dsimp only
      rcases saveRaw_spec hpre hfresh with ⟨hstores, hsaved⟩ | ⟨hnot, ⟨answer, hanswer, hne⟩, -⟩
      · rw [hsaved]
        exact concluded_settlePost hstores rfl
      · rw [hanswer]
        exact concluded_of_not_delivers (fun row body h => hnot h.toStores) hne

/-- Whatever a request meets: it leaves the uploads directory as it was exactly when
the `unlink` calls it comes to take its file and its WAV away; and it inserts the row
of the result that the pipeline returns for an accepted body, unless the COMMIT is
rolled back, and answers 200 with that result exactly when it knows of the COMMIT and
can render it. -/
theorem postTranscription_contract (D : Deployment δ φ) (run : PostRun μ π φ)
    (s : PostState δ φ) (hfresh : s.files run.rawName = none) :
    ((postTranscriptionIn D run s).2.files = s.files ↔
      ¬ run.LeavesRaw D ∧ (run.Stores D → run.call.acquires = true →
        KeepsName D.exceeds D.maxAudioDurationSeconds run.wavRun s.files)) ∧
      Concluded D run s (postTranscriptionIn D run s).1 (postTranscriptionIn D run s).2.rows :=
  ⟨files_postTranscriptionIn hfresh, concluded_postTranscriptionIn hfresh⟩

end Row

def sampleDeployment : Deployment ℤ ℤ where
  services := sampleServices
  settings := default
  models := {}
  cacheDir := ["data", "cache"]
  maxAudioDurationSeconds := 7200
  lockRetryAfterSeconds := 600
  pipelineTimeoutSeconds := 1800
  sha256 := fun _ => sampleHash
  exceeds := fun duration maxSeconds => match duration with
    | .finite x => decide (x > maxSeconds)
    | .infinity => true
    | _ => false
  fixed1 := fun _ => "0.0"
  renders := fun _ => true

/-- The models are ready, and the client goes away in the second read. -/
def cancelledUpload : PostRun Unit Unit ℤ where
  app := ⟨⟨some "ready", some none, some (some ())⟩, ⟨some "ready", some none, some (some ())⟩⟩
  contentLength := none
  filename := some "minutes.FLAC"
  rawId := 7
  mkdirFails := false
  openFails := false
  reads := [.chunk 102 [76, 97, 67], .cancelled]
  closeFault := none
  tooLargeUnlinkFails := false
  discardUnlinkFails := false
  call := sampleCall
  lockCancelled := false
  wav := unreadableWav
  exception := ⟨"RuntimeError", true, false, "CUDA error"⟩
  cut := none
  commit := .committed
  commitCancelled := false
  rollback := .returned
  unlinkFails := false
  errorId := 8

/-- The client stays, and the pipeline finds twelve seconds of silence. -/
def acceptedUpload : PostRun Unit Unit ℤ :=
  { cancelledUpload with
    reads := [.chunk 102 [76, 97, 67]]
    wav := { unreadableWav with
      normalize := { unreadableWav.normalize with probe := .returned (.finite 12) } } }

def noUploads : PostState ℤ ℤ := ⟨fun _ => none, .empty, []⟩

/-- The file of the first one stays. The second one is answered with its result, and
leaves its row and no file. -/
theorem postTranscription_contract_uploads :
    (postTranscriptionIn sampleDeployment cancelledUpload noUploads).2.files ≠ noUploads.files ∧
      ∃ row body, acceptedUpload.Delivers sampleDeployment noUploads row body ∧
        (postTranscriptionIn sampleDeployment acceptedUpload noUploads).1 = .ok body ∧
        (postTranscriptionIn sampleDeployment acceptedUpload noUploads).2.rows = [row] ∧
        (postTranscriptionIn sampleDeployment acceptedUpload noUploads).2.files =
          noUploads.files := by
  constructor
  · intro h
    have hleaves := ((postTranscription_contract sampleDeployment cancelledUpload noUploads
      rfl).1.mp h).1
    have hfits : ¬ cancelledUpload.TooLarge sampleDeployment := by
      show ¬ 500 * 1024 * 1024 < 4
      decide
    refine hleaves ⟨⟨rfl, rfl, rfl⟩, ?_⟩
    rw [if_neg (by decide), if_neg hfits]
    trivial
  · obtain ⟨hfiles, hconcluded⟩ :=
      postTranscription_contract sampleDeployment acceptedUpload noUploads rfl
    have hfits : ¬ acceptedUpload.TooLarge sampleDeployment := by
      show ¬ 500 * 1024 * 1024 < 4
      decide
    have hreturns : (acceptedUpload.report sampleDeployment noUploads).result.toOption.isSome =
        true := by decide +kernel
    obtain ⟨body, hreturned⟩ :
        ∃ body, (acceptedUpload.report sampleDeployment noUploads).result = .ok body := by
      cases hresult : (acceptedUpload.report sampleDeployment noUploads).result with
      | ok body => exact ⟨body, rfl⟩
      | error e =>
          rw [hresult] at hreturns
          cases hreturns
    have hstores : acceptedUpload.Stores sampleDeployment := ⟨⟨rfl, rfl, rfl⟩, hfits, rfl, rfl⟩
    obtain ⟨-, row, hflushed, -⟩ := orchestrateRaw_ok hstores hreturned
    have hdelivers : acceptedUpload.Delivers sampleDeployment noUploads row body :=
      ⟨hstores, hreturned, hflushed⟩
    refine ⟨row, body, hdelivers, (hconcluded.answered body).mpr ⟨⟨row, hdelivers⟩, rfl, rfl⟩,
      hconcluded.inserted row body hdelivers, hfiles.mpr ⟨?_, fun _ _ => ?_⟩⟩
    · rintro ⟨-, hleaves⟩
      rw [if_neg (by decide), if_neg hfits] at hleaves
      cases hleaves
    · exact .inr (.inl ⟨⟨rfl, .finite 12, rfl, .inr ⟨rfl, rfl, rfl⟩⟩, rfl⟩)

end TranscriptionApi.Api
