import TranscriptionApi.Config
import TranscriptionApi.Python
import TranscriptionApi.Lib.Table

/-!
The six ORM models and the database they are stored in. Every table has a
UUID primary key, which is what `Lib.Table` keeps unique; the columns are
those of the models.
-/

namespace TranscriptionApi.Db

open Lib Python

/-- The value of a JSONB column. -/
inductive Json where
  | null
  | bool (b : Bool)
  | num (q : ℚ)
  | str (s : String)
  | arr (items : List Json)
  | obj (fields : List (String × Json))

structure User where
  id : Uuid
  microsoftOid : Uuid
  email : String
  displayName : String
  createdAt : ℤ
  lastLoginAt : ℤ
  deriving DecidableEq

structure OAuthToken where
  id : Uuid
  userId : Uuid
  msAccessTokenEncrypted : Bytes
  msRefreshTokenEncrypted : Bytes
  msAccessExpiresAt : ℤ
  createdAt : ℤ
  updatedAt : ℤ
  deriving DecidableEq

structure McpBearer where
  id : Uuid
  userId : Uuid
  tokenHash : String
  name : Option String
  createdAt : ℤ
  lastUsedAt : Option ℤ
  revokedAt : Option ℤ
  deriving DecidableEq

structure Transcription where
  id : Uuid
  userId : Uuid
  audioHash : String
  originalFilename : String
  originalSizeBytes : ℕ
  durationSeconds : ℚ
  language : String
  numSpeakers : ℕ
  textContent : String
  segments : Json
  extraMetadata : Json
  createdAt : ℤ
  deletedAt : Option ℤ

structure Image where
  id : Uuid
  transcriptionId : Uuid
  userId : Uuid
  filename : String
  mimeType : String
  sizeBytes : ℕ
  filePath : String
  createdAt : ℤ
  deletedAt : Option ℤ
  deriving DecidableEq

/-- `upload_sessions.kind`. -/
inductive UploadKind where
  | audio
  | image
  deriving DecidableEq

/-- `upload_sessions.status`. -/
inductive UploadStatus where
  | requested
  | uploaded
  | consumed
  | expired
  deriving DecidableEq

structure UploadSession where
  id : Uuid
  userId : Uuid
  bearerId : Uuid
  nonce : String
  uploadBearerHash : String
  kind : UploadKind
  transcriptionId : Option Uuid
  expectedSizeBytes : ℕ
  expectedMimeType : Option String
  status : UploadStatus
  expiresAt : ℤ
  createdAt : ℤ
  uploadedAt : Option ℤ
  consumedAt : Option ℤ
  deriving DecidableEq

structure Database where
  users : Table User User.id
  oauthTokens : Table OAuthToken OAuthToken.id
  mcpBearers : Table McpBearer McpBearer.id
  transcriptions : Table Transcription Transcription.id
  images : Table Image Image.id
  uploadSessions : Table UploadSession UploadSession.id

instance : Inhabited Database := ⟨⟨default, default, default, default, default, default⟩⟩

/-- The text of `upload_sessions.kind`. -/
def UploadKind.text : UploadKind → String
  | .audio => "audio"
  | .image => "image"

namespace Database

/-- The status of an upload session, when there is one with this id. -/
def status? (db : Database) (i : Uuid) : Option UploadStatus :=
  (db.uploadSessions.find? i).map (·.status)

theorem status?_eq_some_iff {db : Database} {i : Uuid} {st : UploadStatus} :
    db.status? i = some st ↔ ∃ r, db.uploadSessions.find? i = some r ∧ r.status = st := by
  simp [status?]

end Database

end TranscriptionApi.Db
