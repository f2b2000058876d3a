import TranscriptionApi.Mcp.Start
import TranscriptionApi.Mcp.Tools

/-!
`/api/transcriptions`. Both endpoints run on a session armed for the caller,
like the MCP tools. `GET` selects by id alone; of `POST` only the transaction is
here, for what it leaves in the database.
-/

namespace TranscriptionApi.Api

open Db Lib Mcp Python

/-- The body of `_row_to_response`. -/
structure TranscriptionBody where
  transcriptionId : String
  audioHash : String
  language : String
  durationSeconds : ℚ
  numSpeakers : ℕ
  textContent : String
  segments : Json
  metadata : Json

/-- `200` with a body, or the `404` with `TRANSCRIPTION_NOT_FOUND`. -/
inductive GetAnswer where
  | ok (body : TranscriptionBody)
  | notFound

/-- `(row.segments or {}).get("segments", [])`, and `[]` on anything that is
not an object. -/
def segmentsOf : Json → Json
  | .obj fields => (fields.lookup "segments").getD (.arr [])
  | _ => .arr []

def rowToResponse (row : Transcription) : TranscriptionBody where
  transcriptionId := uuidStr row.id
  audioHash := row.audioHash
  language := row.language
  durationSeconds := row.durationSeconds
  numSpeakers := row.numSpeakers
  textContent := row.textContent
  segments := segmentsOf row.segments
  metadata := row.extraMetadata

/-- `get_transcription` of `api/transcriptions.py`. -/
def getTranscription (userId tid : Uuid) (db : Database) : GetAnswer :=
  match scopedSelect db.transcriptions Transcription.userId userId fun r => r.id = tid with
  | [] => .notFound
  | row :: _ => .ok (rowToResponse row)

/-- `file.filename or "upload"`. -/
def uploadFilename : Option String → String
  | none => "upload"
  | some name => if name.isEmpty then "upload" else name

/-- The transaction of `post_transcription` once its pipeline has returned; `now` is
when it began. It fails on an id that is taken. -/
def postTranscription (userId : Uuid) (filename : Option String) (bytesWritten : ℕ) (txId : Uuid)
    (now : ℤ) (r : TranscriptionResult) (db : Database) : Option Database :=
  let row := pipelineRow userId (uploadFilename filename) bytesWritten txId now r
  (db.transcriptions.insert? row).map fun t => { db with transcriptions := t }

end TranscriptionApi.Api
