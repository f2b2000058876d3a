import TranscriptionApi.Pipeline.Hits
import TranscriptionApi.Pipeline.WavHash

/-!
The normalized WAV in the upload directory, from `normalize_audio` to the `finally`
of `_run_pipeline`.

ffmpeg writes the file under a random name. Three places remove it again: the
handlers for a failed ffmpeg, the check of the duration, and the `finally`, which
only knows the file once `normalize_audio` has returned it. The function runs in a
thread, and a call that is cut off while the thread runs never gets its result; one
that is cut off while the thread waits for its turn keeps it from running.

The stages after the first do not write in this directory, so that the rest of the
call is the one of `runPipeline`, whatever becomes of it.
-/

namespace TranscriptionApi.Pipeline

open Lib Python

/-- How `subprocess.run` ends. -/
inductive SubprocessEnd where
  | returned
  | calledProcessError (returncode : ℤ) (stderr : String)
  | timeoutExpired
  | raised (e : String)

/-- How `_probe_duration_seconds` ends. -/
inductive ProbeEnd (φ : Type) where
  | returned (duration : Json.Number φ)
  /-- `CalledProcessError`, or the `ValueError` of an output that is no number -/
  | failed (text : String)
  | timeoutExpired
  | raised (e : String)

inductive NormalizeError (φ : Type) where
  | audioFormatInvalid (reason : String)
  | pipelineNormalizeError (detail : String)
  | audioTooLong (durationSeconds : Json.Number φ) (maxSeconds : ℕ)
  /-- an exception that nothing in the function catches -/
  | raised (e : String)

/-- A call of `normalize_audio`, with what the system around makes of it. -/
structure NormalizeCall (φ : Type) where
  /-- `src.suffix.lower().lstrip(".")` -/
  ext : String
  /-- the first bytes of `src`, none when it is no file -/
  head : Except String Bytes
  mkdirFault : Option String
  token : String
  ffmpeg : SubprocessEnd
  /-- what is under the name of the output when ffmpeg has ended -/
  written : Option Bytes
  existsFault : Option String
  hashFault : Option String
  probe : ProbeEnd φ
  /-- the `unlink` of the function raises an `OSError` -/
  unlinkFault : Bool

/-- The files of the upload directory, by name. -/
abbrev UploadFiles := String → Option Bytes

def allowedExtensions : List String := ["mp3", "mp4", "m4a", "wav", "flac"]

def isWavMagic (blob : Bytes) : Bool := blob.take 4 = riffId && (blob.take 12).drop 8 = waveId

/-- `fLaC`. -/
def isFlacMagic (blob : Bytes) : Bool := blob.take 4 = [102, 76, 97, 67]

/-- `ID3`, or eleven bits set. -/
def isMp3Magic (blob : Bytes) : Bool :=
  blob.take 3 = [73, 68, 51] || match blob with
    | b₀ :: b₁ :: _ => b₀ = 0xFF && b₁ &&& 0xE0 = 0xE0
    | _ => false

/-- `ftyp` at the fifth byte. -/
def isMp4Magic (blob : Bytes) : Bool := (blob.take 8).drop 4 = [102, 116, 121, 112]

/-- `_magic_matches`. -/
def magicMatches (blob : Bytes) (ext : String) : Bool :=
  if ext = "wav" then isWavMagic blob
  else if ext = "flac" then isFlacMagic blob
  else if ext = "mp3" then isMp3Magic blob
  else if ext = "mp4" ∨ ext = "m4a" then isMp4Magic blob
  else false

/-- `_detect_ext_by_magic`. -/
def detectExtByMagic (blob : Bytes) : Option String :=
  if isWavMagic blob then some "wav"
  else if isFlacMagic blob then some "flac"
  else if isMp3Magic blob then some "mp3"
  else if isMp4Magic blob then some "mp4"
  else none

section Normalize

variable {φ : Type}

namespace NormalizeCall

variable (c : NormalizeCall φ)

def outName : String := c.token ++ ".normalized.wav"

/-- The checks before the directory is made. -/
def checkFormat : Except (NormalizeError φ) Unit :=
  match c.head with
  | .error e => .error (.raised e)
  | .ok head =>
      if c.ext ∉ allowedExtensions then
        match detectExtByMagic head with
        | none => .error (.audioFormatInvalid
            ("extensión ." ++ c.ext ++ " no soportada y magic-bytes no reconocidos; " ++
              "soportadas: mp4, mp3, m4a, wav, flac"))
        | some _ => .ok ()
      else if magicMatches head c.ext then .ok ()
      else .error (.audioFormatInvalid
        ("el archivo declara extensión ." ++ c.ext ++ " pero su contenido no lo es"))

end NormalizeCall

/-- `unlink(missing_ok=True)`, with its `OSError` caught. -/
def unlinkFile (fault : Bool) (name : String) (files : UploadFiles) : UploadFiles :=
  if fault then files else Function.update files name none

variable (sha256 : Bytes → String) (exceeds : Json.Number φ → ℕ → Bool) (maxSeconds : ℕ)
  (c : NormalizeCall φ)

/-- The handlers for a failed ffmpeg. -/
def discardOutput (detail : String) (files : UploadFiles) :
    Except (NormalizeError φ) (String × String × Json.Number φ) × UploadFiles :=
  match c.existsFault with
  | some e => (.error (.raised e), files)
  | none =>
      (.error (.pipelineNormalizeError detail),
        if (files c.outName).isSome then unlinkFile c.unlinkFault c.outName files else files)

/-- The hash, the duration and its check. -/
def measureOutput (files : UploadFiles) :
    Except (NormalizeError φ) (String × String × Json.Number φ) × UploadFiles :=
  match files c.outName with
  | none => (.error (.raised "FileNotFoundError"), files)
  | some wav =>
      match c.hashFault with
      | some e => (.error (.raised e), files)
      | none =>
          let audioHash := sha256WavPcm sha256 wav
          match c.probe with
          | .failed text =>
              (.error (.pipelineNormalizeError ("ffprobe failed: " ++ text)), files)
          | .timeoutExpired =>
              (.error (.pipelineNormalizeError "ffprobe exceeded 30s timeout"), files)
          | .raised e => (.error (.raised e), files)
          | .returned duration =>
              if exceeds duration maxSeconds then
                (.error (.audioTooLong duration maxSeconds),
                  unlinkFile c.unlinkFault c.outName files)
              else (.ok (c.outName, audioHash, duration), files)

/-- ffmpeg, and what follows on it. -/
def encode (files : UploadFiles) :
    Except (NormalizeError φ) (String × String × Json.Number φ) × UploadFiles :=
  let files := Function.update files c.outName c.written
  match c.ffmpeg with
  | .calledProcessError returncode stderr =>
      let text := strip stderr
      discardOutput c ("ffmpeg failed (rc=" ++ toString returncode ++ "): " ++
        if text.isEmpty then "no stderr" else text) files
  | .timeoutExpired => discardOutput c "ffmpeg exceeded 600s timeout" files
  | .raised e => (.error (.raised e), files)
  | .returned => measureOutput sha256 exceeds maxSeconds c files

/-- `normalize_audio`. -/
def normalizeAudio (files : UploadFiles) :
    Except (NormalizeError φ) (String × String × Json.Number φ) × UploadFiles :=
  match c.checkFormat with
  | .error e => (.error e, files)
  | .ok () =>
      match c.mkdirFault with
      | some e => (.error (.raised e), files)
      | none => encode sha256 exceeds maxSeconds c files

end Normalize

/-- What becomes of the `await` of the thread. -/
inductive ThreadWait where
  | returned
  /-- cut off while the thread runs -/
  | cancelled
  /-- cut off before the thread starts -/
  | cancelledQueued
  deriving DecidableEq

/-- A call of `_run_pipeline`: its first stage, and the `unlink` of the `finally`. -/
structure WavRun (φ : Type) where
  normalize : NormalizeCall φ
  wait : ThreadWait
  unlinkFault : Bool

section Run

variable {δ φ : Type} (S : Services δ φ) (settings : ModelSettings) (base : Path)
  (sha256 : Bytes → String) (exceeds : Json.Number φ → ℕ → Bool) (maxSeconds : ℕ)

/-- `_run_pipeline`, with the files of the upload directory once all its work has
ended. -/
def runPipelineIn (t : FileTree Bytes) (call : OrchestrateCall φ) (run : WavRun φ)
    (files : UploadFiles) : RunReport δ φ × UploadFiles :=
  let normalized := normalizeAudio sha256 exceeds maxSeconds run.normalize files
  match run.wait with
  | .cancelledQueued => (runPipeline S settings base t { call with normalize := none }, files)
  | .cancelled => (runPipeline S settings base t { call with normalize := none }, normalized.2)
  | .returned =>
      match normalized.1 with
      | .error _ =>
          (runPipeline S settings base t { call with normalize := none }, normalized.2)
      | .ok (wav, audioHash, duration) =>
          (runPipeline S settings base t { call with normalize := some (audioHash, duration) },
            unlinkFile run.unlinkFault wav normalized.2)

end Run

/-! ### What is left -/

section Left

variable {φ : Type} (exceeds : Json.Number φ → ℕ → Bool) (maxSeconds : ℕ)

/-- ffmpeg is started. -/
def Encodes (run : WavRun φ) : Prop :=
  run.wait ≠ .cancelledQueued ∧ run.normalize.checkFormat = .ok () ∧
    run.normalize.mkdirFault = none

/-- One of the three places removes the file. -/
def Removes (run : WavRun φ) : Prop :=
  match run.normalize.ffmpeg with
  | .calledProcessError .. => run.normalize.existsFault = none ∧ run.normalize.unlinkFault = false
  | .timeoutExpired => run.normalize.existsFault = none ∧ run.normalize.unlinkFault = false
  | .raised _ => False
  | .returned => run.normalize.hashFault = none ∧ ∃ duration,
      run.normalize.probe = .returned duration ∧
        (exceeds duration maxSeconds = true ∧ run.normalize.unlinkFault = false ∨
          exceeds duration maxSeconds = false ∧ run.wait = .returned ∧ run.unlinkFault = false)

/-- The directory holds under the drawn name what it held before. -/
def KeepsName (run : WavRun φ) (files : UploadFiles) : Prop :=
  ¬Encodes run ∨
    (Removes exceeds maxSeconds run ∧ files run.normalize.outName = none) ∨
    (¬Removes exceeds maxSeconds run ∧ run.normalize.written = files run.normalize.outName)

variable {exceeds} {maxSeconds} {c : NormalizeCall φ} {files : UploadFiles}

theorem unlinkFile_update (fault : Bool) (name : String) (left : Option Bytes) :
    unlinkFile fault name (Function.update files name left) =
      Function.update files name (if fault then left else none) := by
  cases fault with
  | false => exact Function.update_idem ..
  | true => rfl

theorem discardOutput_snd (detail : String) :
    (discardOutput c detail (Function.update files c.outName c.written)).2 =
      Function.update files c.outName
        (if c.existsFault = none ∧ c.unlinkFault = false then none else c.written) := by
  unfold discardOutput
  cases hexists : c.existsFault with
  | some e => simp
  | none =>
      simp only [Function.update_self, unlinkFile_update]
      cases hwritten : c.written with
      | none => simp
      | some wav => cases c.unlinkFault <;> simp

end Left

section Left

variable {δ φ : Type} {S : Services δ φ} {settings : ModelSettings} {base : Path}
  {sha256 : Bytes → String} {exceeds : Json.Number φ → ℕ → Bool} {maxSeconds : ℕ}
  {t : FileTree Bytes} {call : OrchestrateCall φ} {run : WavRun φ} {files : UploadFiles}

/-- The `finally`, on what `normalize_audio` has returned. -/
def finallyFiles (run : WavRun φ)
    (normalized : Except (NormalizeError φ) (String × String × Json.Number φ) × UploadFiles) :
    UploadFiles :=
  match run.wait, normalized.1 with
  | .returned, .ok (wav, _, _) => unlinkFile run.unlinkFault wav normalized.2
  | _, _ => normalized.2

theorem runPipelineIn_snd (hwait : run.wait ≠ .cancelledQueued) :
    (runPipelineIn S settings base sha256 exceeds maxSeconds t call run files).2 =
      finallyFiles run (normalizeAudio sha256 exceeds maxSeconds run.normalize files) := by
  unfold runPipelineIn finallyFiles
  generalize normalizeAudio sha256 exceeds maxSeconds run.normalize files = normalized
  obtain ⟨result, left⟩ := normalized
  cases hw : run.wait with
  | cancelledQueued => exact absurd hw hwait
  | cancelled => rfl
  | returned =>
      cases result with
      | error e => rfl
      | ok r => rfl

theorem finallyFiles_error {e : NormalizeError φ} :
    finallyFiles run (.error e, files) = files := by
  unfold finallyFiles
  split
  · rename_i h
    cases h
  · rfl

theorem finallyFiles_discardOutput (detail : String) (files : UploadFiles) :
    finallyFiles run (discardOutput run.normalize detail files) =
      (discardOutput run.normalize detail files).2 := by
  unfold discardOutput
  split
  · exact finallyFiles_error
  · exact finallyFiles_error

open Classical in
/-- After a failed ffmpeg its handler is what removes the file. -/
theorem finallyFiles_discarded (hremoves : Removes exceeds maxSeconds run ↔
      run.normalize.existsFault = none ∧ run.normalize.unlinkFault = false) (detail : String) :
    finallyFiles run (discardOutput run.normalize detail
        (Function.update files run.normalize.outName run.normalize.written)) =
      Function.update files run.normalize.outName
        (if Removes exceeds maxSeconds run then none else run.normalize.written) := by
  rw [finallyFiles_discardOutput, discardOutput_snd]
  exact congrArg _ (if_congr hremoves.symm rfl rfl)

open Classical in
/-- A WAV that ffmpeg has written stays unless it is measured. -/
theorem finallyFiles_measureOutput (hffmpeg : run.normalize.ffmpeg = .returned) :
    finallyFiles run (measureOutput sha256 exceeds maxSeconds run.normalize
      (Function.update files run.normalize.outName run.normalize.written)) =
    Function.update files run.normalize.outName
      (if Removes exceeds maxSeconds run then none else run.normalize.written) := by
  rw [Removes, hffmpeg]
  unfold measureOutput
  rw [Function.update_self]
  cases hwritten : run.normalize.written with
  | none =>
      rw [ite_self]
      exact finallyFiles_error
  | some wav =>
      cases hhash : run.normalize.hashFault with
      | some e =>
          rw [if_neg fun h => (by cases h.1)]
          exact finallyFiles_error
      | none =>
          cases hprobe : run.normalize.probe with
          | failed text =>
              rw [if_neg fun ⟨_, _, h, _⟩ => (by cases h)]
              exact finallyFiles_error
          | timeoutExpired =>
              rw [if_neg fun ⟨_, _, h, _⟩ => (by cases h)]
              exact finallyFiles_error
          | raised e =>
              rw [if_neg fun ⟨_, _, h, _⟩ => (by cases h)]
              exact finallyFiles_error
          | returned duration =>
              simp only [ProbeEnd.returned.injEq, exists_eq_left', true_and]
              by_cases hlong : exceeds duration maxSeconds = true
              · rw [if_pos hlong, finallyFiles_error, unlinkFile_update]
                cases hfault : run.normalize.unlinkFault <;> simp [hlong]
              · rw [if_neg hlong]
                rw [Bool.not_eq_true] at hlong
                cases hwait : run.wait with
                | returned =>
                    simp only [finallyFiles, hwait]
                    rw [unlinkFile_update]
                    cases hfault : run.unlinkFault <;> simp [hlong]
                | cancelled => simp [finallyFiles, hwait, hlong]
                | cancelledQueued => simp [finallyFiles, hwait, hlong]

open Classical in
/-- What is under the drawn name in the end. -/
theorem files_runPipelineIn (hencodes : Encodes run) :
    (runPipelineIn S settings base sha256 exceeds maxSeconds t call run files).2 =
      Function.update files run.normalize.outName
        (if Removes exceeds maxSeconds run then none else run.normalize.written) := by
  obtain ⟨hwait, hformat, hmkdir⟩ := hencodes
  rw [runPipelineIn_snd hwait, normalizeAudio, hformat]
  simp only [hmkdir, encode]
  cases hffmpeg : run.normalize.ffmpeg with
  | returned => exact finallyFiles_measureOutput hffmpeg
  | calledProcessError returncode stderr =>
      exact finallyFiles_discarded (by rw [Removes, hffmpeg]) _
  | timeoutExpired => exact finallyFiles_discarded (by rw [Removes, hffmpeg]) _
  | raised e =>
      rw [Removes, hffmpeg, if_neg not_false]
      exact finallyFiles_error

/-- Where ffmpeg is not started, there is nothing to remove. -/
theorem files_runPipelineIn_of_not_encodes (hencodes : ¬Encodes run) :
    (runPipelineIn S settings base sha256 exceeds maxSeconds t call run files).2 = files := by
  by_cases hwait : run.wait = .cancelledQueued
  · rw [runPipelineIn, hwait]
  · rw [runPipelineIn_snd hwait, normalizeAudio]
    cases hformat : run.normalize.checkFormat with
    | error e => exact finallyFiles_error
    | ok u =>
        cases hmkdir : run.normalize.mkdirFault with
        | some e => exact finallyFiles_error
        | none => exact absurd ⟨hwait, hformat, hmkdir⟩ hencodes

/-- A call leaves the upload directory as it was exactly when ffmpeg is not started, or
the file it makes is removed again, or it makes none. -/
theorem runPipelineIn_files_iff (S : Services δ φ) (settings : ModelSettings) (base : Path)
    (sha256 : Bytes → String) (exceeds : Json.Number φ → ℕ → Bool) (maxSeconds : ℕ)
    (t : FileTree Bytes) (call : OrchestrateCall φ) (run : WavRun φ) (files : UploadFiles) :
    (runPipelineIn S settings base sha256 exceeds maxSeconds t call run files).2 = files ↔
      KeepsName exceeds maxSeconds run files := by
  classical
  by_cases hencodes : Encodes run
  · rw [files_runPipelineIn hencodes, Function.update_eq_self_iff, KeepsName]
    by_cases hremoves : Removes exceeds maxSeconds run
    · rw [if_pos hremoves]
      simp [hencodes, hremoves, eq_comm]
    · rw [if_neg hremoves]
      simp [hencodes, hremoves]
  · rw [files_runPipelineIn_of_not_encodes hencodes]
    exact iff_of_true rfl (.inl hencodes)

/-- The rest of the call is the one of `runPipeline`. -/
theorem runPipelineIn_fst : ∃ normalize,
    (runPipelineIn S settings base sha256 exceeds maxSeconds t call run files).1 =
      runPipeline S settings base t { call with normalize } := by
  unfold runPipelineIn
  generalize normalizeAudio sha256 exceeds maxSeconds run.normalize files = normalized
  obtain ⟨result, left⟩ := normalized
  cases run.wait with
  | cancelledQueued => exact ⟨none, rfl⟩
  | cancelled => exact ⟨none, rfl⟩
  | returned =>
      cases result with
      | error e => exact ⟨none, rfl⟩
      | ok r => exact ⟨some (r.2.1, r.2.2), rfl⟩

/-- ffmpeg has made a WAV of it, and ffprobe cannot read it. -/
def unreadableWav : WavRun ℤ where
  normalize :=
    { ext := "flac"
      head := .ok [102, 76, 97, 67]
      mkdirFault := none
      token := "00"
      ffmpeg := .returned
      written := some []
      existsFault := none
      hashFault := none
      probe := .failed "could not convert string to float: 'N/A'"
      unlinkFault := false }
  wait := .returned
  unlinkFault := false

/-- Its WAV stays in a directory that was empty. -/
theorem not_forall_files_kept : ¬∀ (sha256 : Bytes → String)
    (exceeds : Json.Number ℤ → ℕ → Bool) (maxSeconds : ℕ) (t : FileTree Bytes)
    (call : OrchestrateCall ℤ) (run : WavRun ℤ) (files : UploadFiles),
    (runPipelineIn sampleServices {} ["data", "cache"] sha256 exceeds maxSeconds t call run
      files).2 = files := by
  intro h
  have hencodes : Encodes unreadableWav := ⟨by decide, by rfl, rfl⟩
  have hfiles := h (fun _ => "") (fun _ _ => false) 7200 .empty sampleCall unreadableWav
    fun _ => none
  rw [files_runPipelineIn hencodes, if_neg (fun ⟨_, _, hprobe, _⟩ => (by cases hprobe))] at hfiles
  have hname := congrFun hfiles unreadableWav.normalize.outName
  rw [Function.update_self] at hname
  cases hname

end Left

end TranscriptionApi.Pipeline
