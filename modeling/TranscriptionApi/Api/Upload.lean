import TranscriptionApi.Auth.Bearer
import TranscriptionApi.Db.Models

/-!
The two upload endpoints, `POST /api/upload` and `POST /api/upload-image`, as
the decisions they take between two awaits. Both run the same four checks on
the session row they look up by nonce; they part when the body arrives.
-/

namespace TranscriptionApi.Api

open Auth Db Lib Python

/-- `error_response(status, code, reason, **extra)`; `max_bytes` is the one
extra field the upload endpoints send. -/
structure ErrorResponse where
  status : ℕ
  errorCode : String
  reason : String
  maxBytes : Option ℕ := none
  deriving DecidableEq

/-- How an upload request ends: 200 with the id it reports, an error body, or
an exception that leaves the handler. -/
inductive UploadAnswer where
  | ok (id : Uuid)
  | error (e : ErrorResponse)
  | raised
  deriving DecidableEq

/-- The parts of the request the endpoints read besides the body. -/
structure UploadRequest where
  sessionNonce : String
  authorization : Option String
  deriving DecidableEq

def bearerMissing : ErrorResponse :=
  ⟨401, "MCP_BEARER_INVALID", "missing or malformed Authorization header", none⟩

def sessionNotFound : ErrorResponse :=
  ⟨404, "UPLOAD_SESSION_NOT_FOUND", "session not found or already consumed", none⟩

def sessionExpired : ErrorResponse :=
  ⟨404, "UPLOAD_SESSION_NOT_FOUND", "session expired", none⟩

def kindMismatch (expected actual : UploadKind) : ErrorResponse :=
  ⟨400, "INVALID_PARAMETER",
    "endpoint expects kind=" ++ pyRepr expected.text ++ ", session has kind=" ++
      pyRepr actual.text, none⟩

def bearerMismatch : ErrorResponse :=
  ⟨401, "MCP_BEARER_INVALID", "bearer hash mismatch", none⟩

def fileTooLarge (row : UploadSession) (maxBytes : ℕ) : ErrorResponse :=
  ⟨413, "FILE_TOO_LARGE",
    "file exceeds expected_size_bytes (" ++ toString row.expectedSizeBytes ++
      ") + 5% margin", some maxBytes⟩

/-- Step 2, the lookup: a session that is still `requested` under this nonce. -/
def selectRequested (db : Database) (nonce : String) : Option UploadSession :=
  db.uploadSessions.rows.find? fun r => r.nonce = nonce ∧ r.status = .requested

theorem selectRequested_spec {db : Database} {nonce : String} {row : UploadSession}
    (h : selectRequested db nonce = some row) :
    db.uploadSessions.find? row.id = some row ∧ row.nonce = nonce ∧
      row.status = .requested := by
  have hmem := List.mem_of_find?_eq_some h
  have hrow := List.find?_some h
  simp only [decide_eq_true_eq] at hrow
  exact ⟨Table.find?_of_mem hmem, hrow⟩

section Checks

variable (settings : Settings) (sha256Hex : Bytes → String)

/-- Steps 2 to 4 after the lookup found a row: the expiry with its grace, the
kind the endpoint serves, and the bearer. -/
def checkSession (kind : UploadKind) (now : ℤ) (plaintext : String) (row : UploadSession) :
    Except UploadAnswer Unit :=
  if now > row.expiresAt + settings.grace then .error (.error sessionExpired)
  else if row.kind ≠ kind then .error (.error (kindMismatch kind row.kind))
  else
    match hashBearer sha256Hex plaintext with
    | none => .error .raised
    | some receivedHash =>
        if receivedHash ≠ row.uploadBearerHash then .error (.error bearerMismatch)
        else .ok ()

theorem checkSession_ok {kind : UploadKind} {now : ℤ} {plaintext : String} {row : UploadSession}
    (h : checkSession settings sha256Hex kind now plaintext row = .ok ()) :
    now ≤ row.expiresAt + settings.grace ∧ row.kind = kind ∧
      hashBearer sha256Hex plaintext = some row.uploadBearerHash := by
  simp only [checkSession] at h
  split at h
  · cases h
  · rename_i hnow
    split at h
    · cases h
    · rename_i hkind
      cases hhash : hashBearer sha256Hex plaintext with
      | none => simp [hhash] at h
      | some receivedHash =>
          simp only [hhash] at h
          split at h
          · cases h
          · rename_i heq
            exact ⟨by omega, by simpa using hkind, by simpa using heq⟩

end Checks

/-! ### The image body -/

/-- `_IMAGE_EXT_BY_MIME`. -/
def imageExtByMime : String → Option String
  | "image/png" => some "png"
  | "image/jpeg" => some "jpg"
  | "image/webp" => some "webp"
  | "image/gif" => some "gif"
  | _ => none

def ascii (s : String) : Bytes := s.toList.map fun c => UInt8.ofNat c.toNat

/-- `imghdr.what(None, h)`, as Python 3.10 has it: the tests of the module in the
order it runs them. The one of 3.11 also takes a JPEG that starts with its raw
markers. -/
def imghdrWhat (h : Bytes) : Option String :=
  let at6 := (h.drop 6).take 4
  let third := h.getD 2 0
  let space := third = 32 ∨ third = 9 ∨ third = 10 ∨ third = 13
  let pnm (lo hi : UInt8) := 3 ≤ h.length ∧ h.getD 0 0 = 80 ∧
    (h.getD 1 0 = lo ∨ h.getD 1 0 = hi) ∧ space
  if at6 = ascii "JFIF" ∨ at6 = ascii "Exif" then some "jpeg"
  else if [0x89, 0x50, 0x4e, 0x47, 0x0d, 0x0a, 0x1a, 0x0a].isPrefixOf h then some "png"
  else if h.take 6 = ascii "GIF87a" ∨ h.take 6 = ascii "GIF89a" then some "gif"
  else if h.take 2 = ascii "MM" ∨ h.take 2 = ascii "II" then some "tiff"
  else if [0x01, 0xda].isPrefixOf h then some "rgb"
  else if pnm 49 52 then some "pbm"
  else if pnm 50 53 then some "pgm"
  else if pnm 51 54 then some "ppm"
  else if [0x59, 0xa6, 0x6a, 0x95].isPrefixOf h then some "rast"
  else if (ascii "#define ").isPrefixOf h then some "xbm"
  else if (ascii "BM").isPrefixOf h then some "bmp"
  else if (ascii "RIFF").isPrefixOf h ∧ (h.drop 8).take 4 = ascii "WEBP" then some "webp"
  else if [0x76, 0x2f, 0x31, 0x01].isPrefixOf h then some "exr"
  else none

def reprKind : Option String → String
  | none => "None"
  | some k => pyRepr k

def formatInvalid (detected : Option String) (row : UploadSession) : ErrorResponse :=
  ⟨400, "INVALID_FORMAT",
    "detected=" ++ reprKind detected ++ " expected=" ++ reprKind row.expectedMimeType, none⟩

def transcriptionMissing : ErrorResponse :=
  ⟨400, "INVALID_PARAMETER", "image upload session missing transcription_id binding", none⟩

/-- Steps 5 to 7 of `upload_image` before anything is written: the size cap,
the magic bytes against the declared MIME type, and the transcription the
image rides on. -/
def checkImage (settings : Settings) (row : UploadSession) (raw : Bytes) :
    Except ErrorResponse (String × Uuid) :=
  let maxBytes := settings.maxBytes row.expectedSizeBytes
  if raw.length > maxBytes then .error (fileTooLarge row maxBytes)
  else
    let expectedExt := imageExtByMime (row.expectedMimeType.getD "")
    let detectedKind := imghdrWhat (raw.take 32)
    let expectedKind := if expectedExt = some "jpg" then some "jpeg" else expectedExt
    match expectedExt with
    | none => .error (formatInvalid detectedKind row)
    | some ext =>
        if detectedKind ≠ expectedKind then .error (formatInvalid detectedKind row)
        else
          match row.transcriptionId with
          | none => .error transcriptionMissing
          | some tid => .ok (ext, tid)

theorem checkImage_ok {settings : Settings} {row : UploadSession} {raw : Bytes} {ext : String}
    {tid : Uuid} (h : checkImage settings row raw = .ok (ext, tid)) :
    row.transcriptionId = some tid := by
  simp only [checkImage] at h
  split at h
  · cases h
  · cases hext : imageExtByMime (row.expectedMimeType.getD "") with
    | none => simp [hext] at h
    | some e =>
        rw [hext] at h
        generalize (if some e = some "jpg" then some "jpeg" else some e) = kind at h
        dsimp only at h
        split at h
        · cases h
        · split at h
          · cases h
          · rename_i htid
            cases h
            exact htid

/-- Where the blob of an image is stored. -/
def blobPath (settings : Settings) (row : UploadSession) (tid imageId : Uuid) (ext : String) :
    String :=
  settings.blobsDir ++ "/" ++ uuidStr row.userId ++ "/" ++ uuidStr tid ++ "/" ++
    uuidStr imageId ++ "." ++ ext

/-- The `images` row that `upload_image` inserts. -/
def imageRow (settings : Settings) (row : UploadSession) (tid imageId : Uuid) (ext : String)
    (filename : Option String) (raw : Bytes) (now : ℤ) : Image where
  id := imageId
  transcriptionId := tid
  userId := row.userId
  filename :=
    match filename with
    | none => "image_" ++ uuidStr imageId ++ "." ++ ext
    | some name => if name.isEmpty then "image_" ++ uuidStr imageId ++ "." ++ ext else name
  mimeType := row.expectedMimeType.getD ""
  sizeBytes := raw.length
  filePath := blobPath settings row tid imageId ext
  createdAt := now
  deletedAt := none

/-- `UPDATE upload_sessions SET status = 'uploaded', uploaded_at = at WHERE
id = i`. The statement does not look at the status it overwrites. -/
def markUploaded (i : Uuid) (at_ : ℤ) (t : Table UploadSession UploadSession.id) :
    Table UploadSession UploadSession.id :=
  t.update (fun r => r.id = i)
    (fun r => { r with status := .uploaded, uploadedAt := some at_ }) fun _ => rfl

end TranscriptionApi.Api
