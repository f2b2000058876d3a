import TranscriptionApi.Mcp.Session

/-!
`start_transcription`, as the decisions it takes between two awaits: the gate
on the models, the lookup of the upload, what it makes of a failed pipeline,
the row the pipeline persists, and the UPDATE that consumes the upload.
-/

namespace TranscriptionApi.Mcp

open Db Lib Python

/-- The snapshot of the models that the bearer middleware takes. -/
structure RuntimeStatus where
  whisperStatus : String
  whisperDetail : Option String
  pyannoteStatus : String
  pyannoteDetail : Option String
  deriving DecidableEq

def jsonOfDetail : Option String → Json
  | none => .null
  | some s => .str s

/-- The models gate; whisper takes precedence on a double fault. -/
def checkModels : Option RuntimeStatus → Except Failure Unit
  | none =>
      .error (raiseToolError "MODELS_NOT_LOADED"
        "runtime context not armed (middleware did not run)" 503)
  | some status =>
      if status.whisperStatus ≠ "ready" then
        .error (raiseToolError "MODELS_NOT_LOADED" "whisper model is not ready" 503
          [("detail", jsonOfDetail status.whisperDetail)])
      else if status.pyannoteStatus ≠ "ready" then
        .error (raiseToolError "MODELS_NOT_LOADED" "pyannote model is not ready" 503
          [("detail", jsonOfDetail status.pyannoteDetail)])
      else .ok ()

def uploadNotFound (reason : String) : Failure :=
  raiseToolError "UPLOAD_SESSION_NOT_FOUND" reason 404

/-- The SELECT of `_load_upload_row`. -/
def selectUpload (db : Database) (userId : Uuid) (uploadId : String) :
    Except Failure UploadSession :=
  match uuid uploadId with
  | none =>
      .error (raiseToolError "INVALID_PARAMETER"
        ("upload_id is not a valid UUID: " ++ pyRepr uploadId) 400)
  | some uid =>
      match scopedSelect db.uploadSessions UploadSession.userId userId
          fun r => r.id = uid && r.kind = .audio with
      | [] => .error (uploadNotFound "upload not found")
      | row :: _ => .ok row

theorem selectUpload_eq_ok {db : Database} {userId : Uuid} {uploadId : String}
    {row : UploadSession} (h : selectUpload db userId uploadId = .ok row) :
    uuid uploadId = some row.id ∧ row ∈ db.uploadSessions.rows ∧ row.kind = .audio ∧
      row.userId = userId := by
  unfold selectUpload at h
  cases huid : uuid uploadId with
  | none => simp [huid] at h
  | some uid =>
      simp only [huid] at h
      split at h
      · cases h
      · rename_i r rest hrows
        cases h
        have hmem := mem_scopedSelect.mp (hrows ▸ List.mem_cons_self)
        simp only [Bool.and_eq_true, decide_eq_true_eq] at hmem
        exact ⟨congrArg some hmem.2.1.1.symm, hmem.1, hmem.2.1.2, hmem.2.2⟩

theorem selectUpload_ok {db : Database} {userId : Uuid} {uploadId : String}
    {row : UploadSession} (h : selectUpload db userId uploadId = .ok row) :
    db.uploadSessions.find? row.id = some row ∧ row.kind = .audio ∧ row.userId = userId := by
  obtain ⟨-, hmem, hkind, howner⟩ := selectUpload_eq_ok h
  exact ⟨Table.find?_of_mem hmem, hkind, howner⟩

/-- The checks of `_load_upload_row` on the row its SELECT returned. -/
def checkUploadRow (settings : Settings) (now : ℤ) (row : UploadSession) : Except Failure Unit :=
  if row.status = .consumed then
    .error (raiseToolError "UPLOAD_SESSION_ALREADY_CONSUMED"
      "this upload has already been consumed by start_transcription" 409)
  else if row.status ≠ .uploaded then
    .error (uploadNotFound "upload not yet received or expired")
  else if now > row.expiresAt + settings.grace then
    .error (uploadNotFound "upload not yet received or expired")
  else .ok ()

theorem checkUploadRow_ok {settings : Settings} {now : ℤ} {row : UploadSession}
    (h : checkUploadRow settings now row = .ok ()) :
    row.status = .uploaded ∧ now ≤ row.expiresAt + settings.grace := by
  unfold checkUploadRow at h
  split at h
  · cases h
  · split at h
    · cases h
    · split at h
      · cases h
      · rename_i hstatus hnow
        exact ⟨by simpa using hstatus, by omega⟩

/-- How `orchestrate` fails. -/
inductive PipelineError where
  | gpuBusy (retryAfter : ℕ)
  | pipelineTimeout (timeoutSeconds : ℚ)
  | other
  deriving DecidableEq

/-- What `start_transcription` raises for it; `seconds` is the printed form of
the timeout. -/
def startFailure (seconds : ℚ → String) : PipelineError → Failure
  | .gpuBusy retryAfter =>
      raiseToolError "LOCK_BUSY" ("GPU busy; retry after " ++ toString retryAfter ++ "s") 503
        [("retry_after", .num retryAfter)]
  | .pipelineTimeout t =>
      raiseToolError "PIPELINE_TIMEOUT" ("pipeline exceeded " ++ seconds t ++ "s") 504
        [("timeout_seconds", .num t)]
  | .other => .raised

/-- The payload of a pipeline run. -/
structure TranscriptionResult where
  audioHash : String
  language : String
  durationSeconds : ℚ
  numSpeakers : ℕ
  textContent : String
  segments : List Json
  metadata : List (String × Json)

/-- A non-negative value in a `NUMERIC(10, 2)` column. -/
def numericTwo (q : ℚ) : ℚ := (q * 100 + 1 / 2).floor / 100

/-- The row `_run_pipeline` flushes. -/
def pipelineRow (userId : Uuid) (originalFilename : String) (originalSizeBytes : ℕ) (id : Uuid)
    (now : ℤ) (r : TranscriptionResult) : Transcription where
  id := id
  userId := userId
  audioHash := r.audioHash
  originalFilename := originalFilename
  originalSizeBytes := originalSizeBytes
  durationSeconds := numericTwo r.durationSeconds
  language := r.language
  numSpeakers := r.numSpeakers
  textContent := r.textContent
  segments := .obj [("segments", .arr r.segments)]
  extraMetadata := .obj r.metadata
  createdAt := now
  deletedAt := none

/-- The row of a call from `start_transcription`. -/
def transcriptionRow (upload : UploadSession) (id : Uuid) (now : ℤ) (r : TranscriptionResult) :
    Transcription :=
  pipelineRow upload.userId ("upload_" ++ uuidStr upload.id ++ ".bin") upload.expectedSizeBytes id
    now r

structure StartAnswer where
  transcriptionId : String
  status : String
  cacheHit : Json

def startAnswer (tx : Transcription) (r : TranscriptionResult) : StartAnswer where
  transcriptionId := uuidStr tx.id
  status := "completed"
  cacheHit := (r.metadata.lookup "cache_hit").getD (.bool false)

/-- `_consume_upload`: `UPDATE upload_sessions SET status = 'consumed',
consumed_at = at WHERE id = i`. -/
def consumeUpload (i : Uuid) (at_ : ℤ) (t : Table UploadSession UploadSession.id) :
    Table UploadSession UploadSession.id :=
  t.update (fun r => r.id = i)
    (fun r => { r with status := .consumed, consumedAt := some at_ }) fun _ => rfl

/-- The condition that the listener adds to the UPDATE changes nothing: the row
it consumes is one that the same session has selected. -/
theorem consumeUpload_eq_scopedUpdate {t : Table UploadSession UploadSession.id}
    {row : UploadSession} (hrow : row ∈ t.rows) (at_ : ℤ) :
    consumeUpload row.id at_ t =
      scopedUpdate t UploadSession.userId row.userId (fun r => r.id = row.id)
        (fun r => { r with status := .consumed, consumedAt := some at_ }) fun _ => rfl := by
  refine Table.update_congr fun r hr => ?_
  rw [Bool.eq_iff_iff, decide_eq_true_eq, scopedTo_eq_true, decide_eq_true_eq]
  constructor
  · intro hid
    exact ⟨hid, congrArg UploadSession.userId (Table.eq_of_key_eq hr hrow hid)⟩
  · rintro ⟨hid, -⟩
    exact hid

end TranscriptionApi.Mcp
