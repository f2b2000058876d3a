import TranscriptionApi.Auth.Bearer
import TranscriptionApi.Mcp.Session

/-!
The MCP tools and resources that read and change a user's rows, and the REST
endpoint that reads one. Each is a function of the database as its session
finds it; the caller's identity, the clock and fresh identifiers are arguments.
PostgreSQL's full-text search is a parameter, `Fts`.
-/

namespace TranscriptionApi.Mcp

open Auth Db Lib Python

/-! ### Serializers -/

structure Summary where
  id : String
  audioHash : String
  originalFilename : String
  durationSeconds : ℚ
  language : String
  numSpeakers : ℕ
  createdAt : String

structure ImageSummary where
  id : String
  filename : String
  mimeType : String
  sizeBytes : ℕ

structure Full extends Summary where
  textContent : String
  segments : List Json
  metadata : Json
  images : List ImageSummary

def serializeSummary (row : Transcription) : Summary where
  id := uuidStr row.id
  audioHash := row.audioHash
  originalFilename := row.originalFilename
  durationSeconds := row.durationSeconds
  language := row.language
  numSpeakers := row.numSpeakers
  createdAt := isoformat row.createdAt

def serializeImage (row : Image) : ImageSummary where
  id := uuidStr row.id
  filename := row.filename
  mimeType := row.mimeType
  sizeBytes := row.sizeBytes

def unwrapSegments : Json → List Json
  | .obj fields =>
      match fields.lookup "segments" with
      | some (.arr inner) => inner
      | _ => []
  | .arr items => items
  | _ => []

def serializeFull (row : Transcription) (images : List Image) : Full where
  toSummary := serializeSummary row
  textContent := row.textContent
  segments := unwrapSegments row.segments
  metadata := row.extraMetadata
  images := images.map serializeImage

/-! ### Reading -/

inductive ListSort where
  | createdAtDesc
  | createdAtAsc
  | durationDesc
  deriving DecidableEq

/-- `_LIST_SORTS.get`. -/
def listSorts : String → Option ListSort
  | "created_at_desc" => some .createdAtDesc
  | "created_at_asc" => some .createdAtAsc
  | "duration_desc" => some .durationDesc
  | _ => none

/-- The ORDER BY of a sort: whether `a` may come before `b`. -/
def ListSort.le : ListSort → Transcription → Transcription → Bool
  | .createdAtDesc, a, b => b.createdAt ≤ a.createdAt
  | .createdAtAsc, a, b => a.createdAt ≤ b.createdAt
  | .durationDesc, a, b => b.durationSeconds ≤ a.durationSeconds

structure ListPage where
  items : List Summary
  total : ℕ
  limit : ℤ
  offset : ℤ

/-- `list_my_transcriptions`. -/
def listMyTranscriptions (ord : RowOrder Transcription) (userId : Uuid) (limit offset : ℤ)
    (sort : String) (db : Database) : Except Failure ListPage × Database :=
  match listSorts sort with
  | none =>
      (.error (raiseToolError "INVALID_PARAMETER"
        ("sort " ++ pyRepr sort ++
          " not in ['created_at_asc', 'created_at_desc', 'duration_desc']") 400), db)
  | some sortClause =>
      match clampOrRaise limit 1 100 "limit" with
      | .error e => (.error e, db)
      | .ok limit =>
          if offset < 0 then
            (.error (raiseToolError "INVALID_PARAMETER" "offset must be >= 0" 400
              [("min", .num 0)]), db)
          else
            mcpRequestSession (fun db =>
              let rows := scopedSelect db.transcriptions Transcription.userId userId
                fun r => r.deletedAt.isNone
              let items := (((ord.order rows).mergeSort sortClause.le).drop offset.toNat).take
                limit.toNat
              .ok (⟨items.map serializeSummary, rows.length, limit, offset⟩, db)) db

/-- PostgreSQL's full-text search with the configured dictionary: `@@`,
`ts_rank` and `ts_headline` of a text and a plain query. -/
structure Fts where
  matches_ : String → String → Bool
  rank : String → String → ℚ
  headline : String → String → String

structure SearchHit where
  id : String
  originalFilename : String
  durationSeconds : ℚ
  rank : ℚ
  snippet : String

/-- `search_my_transcriptions`. -/
def searchMyTranscriptions (fts : Fts) (ord : RowOrder Transcription) (userId : Uuid)
    (query : String) (limit : ℤ) (db : Database) : Except Failure (List SearchHit) × Database :=
  let cleaned := strip query
  if cleaned.isEmpty then
    (.error (raiseToolError "INVALID_PARAMETER" "query must not be empty" 400), db)
  else if cleaned.length > 200 then
    (.error (raiseToolError "INVALID_PARAMETER" "query exceeds 200 chars" 400
      [("max_chars", .num 200)]), db)
  else
    match clampOrRaise limit 1 50 "limit" with
    | .error e => (.error e, db)
    | .ok limit =>
        mcpRequestSession (fun db =>
          let rows := scopedSelect db.transcriptions Transcription.userId userId
            fun r => r.deletedAt.isNone && fts.matches_ r.textContent cleaned
          let ranked := (ord.order rows).mergeSort fun a b =>
            fts.rank b.textContent cleaned ≤ fts.rank a.textContent cleaned
          .ok ((ranked.take limit.toNat).map fun r =>
            { id := uuidStr r.id
              originalFilename := r.originalFilename
              durationSeconds := r.durationSeconds
              rank := fts.rank r.textContent cleaned
              snippet := fts.headline r.textContent cleaned }, db)) db

def notAUuid (name text : String) : Failure :=
  raiseToolError "INVALID_PARAMETER" (name ++ " is not a valid UUID: " ++ pyRepr text) 400

/-- The images of a transcription that are not deleted. -/
def liveImageOf (tid : Uuid) (r : Image) : Bool :=
  r.transcriptionId = tid && r.deletedAt.isNone

/-- The lookup of a caller's transcription, as the tools make it. -/
def lookupTranscription (db : Database) (userId tid : Uuid) : Except Failure Transcription :=
  lookupOwnedOr404 db.transcriptions Transcription.userId Transcription.deletedAt userId tid
    "TRANSCRIPTION_NOT_FOUND" "transcription not found"

/-- `get_transcription`. -/
def getTranscription (ord : RowOrder Image) (userId : Uuid) (transcriptionId : String)
    (db : Database) : Except Failure Full × Database :=
  match uuid transcriptionId with
  | none => (.error (notAUuid "transcription_id" transcriptionId), db)
  | some tid =>
      mcpRequestSession (fun db =>
        match lookupTranscription db userId tid with
        | .error e => .error e
        | .ok row =>
            let images := scopedSelect db.images Image.userId userId (liveImageOf tid)
            .ok (serializeFull row (ord.order images), db)) db

/-- `transcription_resource`. -/
def transcriptionResource : RowOrder Image → Uuid → String → Database →
    Except Failure Full × Database :=
  getTranscription

/-- `image_resource`: `files` are the bytes on disk. -/
def imageResource (files : String → Option Bytes) (userId : Uuid)
    (transcriptionId imageId : String) (db : Database) : Except Failure Bytes × Database :=
  match uuid transcriptionId with
  | none => (.error (notAUuid "transcription_id" transcriptionId), db)
  | some tid =>
      match uuid imageId with
      | none => (.error (notAUuid "image_id" imageId), db)
      | some iid =>
          let img := mcpRequestSession (fun db =>
            match scopedSelect db.images Image.userId userId fun r =>
                r.id = iid && r.transcriptionId = tid && r.deletedAt.isNone with
            | [] => .error (raiseToolError "IMAGE_NOT_FOUND" "image not found" 404)
            | row :: _ => .ok (row.filePath, db)) db
          match img with
          | (.error e, db) => (.error e, db)
          | (.ok filePath, db) =>
              match files filePath with
              | some bytes => (.ok bytes, db)
              | none =>
                  (.error (raiseToolError "IMAGE_NOT_FOUND" "image file missing on disk" 404), db)

/-! ### Changing -/

def softDeleteTranscription (at_ : ℤ) (r : Transcription) : Transcription :=
  { r with deletedAt := some at_ }

def softDeleteImage (at_ : ℤ) (r : Image) : Image := { r with deletedAt := some at_ }

/-- The WHERE clause of the UPDATE of `transcriptions`. -/
def liveTranscription (tid : Uuid) (r : Transcription) : Bool :=
  r.id = tid && r.deletedAt.isNone

/-- Both UPDATEs of `delete_transcription`, on a session armed for `userId`. -/
def softDelete (at_ : ℤ) (userId tid : Uuid) (db : Database) : Database :=
  { db with
    transcriptions := scopedUpdate db.transcriptions Transcription.userId userId
      (liveTranscription tid) (softDeleteTranscription at_) fun _ => rfl
    images := scopedUpdate db.images Image.userId userId (liveImageOf tid)
      (softDeleteImage at_) fun _ => rfl }

/-- `delete_transcription`; `at_` is the transaction's `now()`. -/
def deleteTranscription (at_ : ℤ) (userId : Uuid) (transcriptionId : String) (db : Database) :
    Except Failure Unit × Database :=
  match uuid transcriptionId with
  | none => (.error (notAUuid "transcription_id" transcriptionId), db)
  | some tid =>
      mcpRequestSession (fun db =>
        let rowcount := (scopedSelect db.transcriptions Transcription.userId userId
          (liveTranscription tid)).length
        if rowcount = 0 then
          .error (raiseToolError "TRANSCRIPTION_NOT_FOUND" "transcription not found" 404)
        else .ok ((), softDelete at_ userId tid db)) db

/-- What a call with a well-formed id does, by the rowcount of its first
statement. -/
theorem deleteTranscription_eq {transcriptionId : String} {tid : Uuid}
    (h : uuid transcriptionId = some tid) (at_ : ℤ) (userId : Uuid) (db : Database) :
    deleteTranscription at_ userId transcriptionId db =
      if (scopedSelect db.transcriptions Transcription.userId userId
          (liveTranscription tid)).length = 0 then
        (.error (raiseToolError "TRANSCRIPTION_NOT_FOUND" "transcription not found" 404), db)
      else (.ok (), softDelete at_ userId tid db) := by
  simp only [deleteTranscription, h, mcpRequestSession]
  split
  · rename_i heq
    split at heq
    · cases heq
    · cases heq
      rw [if_neg ‹_›]
  · rename_i heq
    split at heq
    · cases heq
      rw [if_pos ‹_›]
    · cases heq

/-- A call that succeeds has found a live transcription of the caller. -/
theorem deleteTranscription_ok {transcriptionId : String} {tid userId : Uuid} {at_ : ℤ}
    {db : Database} (htid : uuid transcriptionId = some tid)
    (h : (deleteTranscription at_ userId transcriptionId db).1 = .ok ()) :
    (deleteTranscription at_ userId transcriptionId db).2 = softDelete at_ userId tid db ∧
      ∃ r, db.transcriptions.find? tid = some r ∧ r.userId = userId ∧ r.deletedAt = none := by
  rw [deleteTranscription_eq htid] at h ⊢
  split at h
  · cases h
  · rename_i hcount
    refine ⟨by rw [if_neg hcount], ?_⟩
    obtain ⟨r, hr⟩ := List.exists_mem_of_length_pos (Nat.pos_of_ne_zero hcount)
    obtain ⟨hmem, hlive, huser⟩ := mem_scopedSelect.mp hr
    simp only [liveTranscription, Bool.and_eq_true, decide_eq_true_eq,
      Option.isNone_iff_eq_none] at hlive
    exact ⟨r, Table.find?_eq_some_iff.mpr ⟨hmem, hlive.1⟩, huser, hlive.2⟩

/-- The identifiers `request_upload_url` draws. -/
structure UploadSecrets where
  uploadId : Uuid
  nonce : String
  bearerForUpload : String
  deriving DecidableEq

structure UploadUrl where
  uploadUrl : String
  uploadId : String
  bearer : String
  expiresAt : String

/-- `_IMAGE_MIMES_OK`, sorted. -/
def imageMimesOk : List String := ["image/gif", "image/jpeg", "image/png", "image/webp"]

/-- The checks of `request_upload_url` before it opens a session. -/
def checkUploadRequest (settings : Settings) (kind : String) (fileSizeBytes : ℤ)
    (mimeType transcriptionId : Option String) : Except Failure UploadKind :=
  let cap (uploadKind : UploadKind) (maxMb : ℕ) : Except Failure UploadKind :=
    if fileSizeBytes > maxMb * 1024 * 1024 then
      .error (raiseToolError "FILE_TOO_LARGE"
        ("size " ++ toString fileSizeBytes ++ " exceeds max " ++ toString maxMb ++
          " MB for kind=" ++ kind) 413 [("max_mb", .num maxMb)])
    else .ok uploadKind
  if kind ≠ "audio" ∧ kind ≠ "image" then
    .error (raiseToolError "INVALID_PARAMETER"
      ("kind must be 'audio' or 'image'; got " ++ pyRepr kind) 400)
  else if fileSizeBytes ≤ 0 then
    .error (raiseToolError "INVALID_PARAMETER"
      ("file_size_bytes must be > 0; got " ++ toString fileSizeBytes) 400)
  else if kind = "audio" then cap .audio settings.maxUploadMb
  else
    match mimeType with
    | none => .error (raiseToolError "INVALID_PARAMETER" "mime_type required for kind=image" 400)
    | some mime =>
        if mime ∉ imageMimesOk then
          .error (raiseToolError "INVALID_PARAMETER"
            ("mime_type " ++ pyRepr mime ++ " not supported; expected one of " ++
              "['image/gif', 'image/jpeg', 'image/png', 'image/webp']") 400)
        else
          match transcriptionId with
          | none =>
              .error (raiseToolError "INVALID_PARAMETER"
                "transcription_id required for kind=image" 400)
          | some _ => cap .image settings.maxImageUploadMb

/-- The binding of an image upload: a transcription the caller owns. -/
def bindTranscription (db : Database) (userId : Uuid) (kind : UploadKind)
    (transcriptionId : Option String) : Except Failure (Option Uuid) :=
  match kind with
  | .audio => .ok none
  | .image =>
      let text := transcriptionId.getD ""
      match uuid text with
      | none => .error (notAUuid "transcription_id" text)
      | some tid => (lookupTranscription db userId tid).map fun _ => some tid

/-- An image upload is bound to a transcription of the caller that is not
deleted. -/
theorem bindTranscription_ok {db : Database} {userId : Uuid} {kind : UploadKind}
    {transcriptionId : Option String} {tid : Uuid}
    (h : bindTranscription db userId kind transcriptionId = .ok (some tid)) :
    ∃ r, db.transcriptions.find? tid = some r ∧ r.userId = userId ∧ r.deletedAt = none := by
  cases kind with
  | audio => cases h
  | image =>
      simp only [bindTranscription] at h
      split at h
      · cases h
      · cases hlookup : lookupTranscription db userId _ with
        | error e =>
            rw [hlookup] at h
            cases h
        | ok r =>
            rw [hlookup] at h
            cases h
            exact ⟨r, lookupOwnedOr404_ok hlookup⟩

/-- The row `request_upload_url` inserts; `status` is the server's default. -/
def uploadSessionRow (settings : Settings) (now : ℤ) (userId bearerId : Uuid)
    (secrets : UploadSecrets) (uploadBearerHash : String) (kind : UploadKind)
    (tid : Option Uuid) (fileSizeBytes : ℤ) (mimeType : Option String) : UploadSession where
  id := secrets.uploadId
  userId := userId
  bearerId := bearerId
  nonce := secrets.nonce
  uploadBearerHash := uploadBearerHash
  kind := kind
  transcriptionId := tid
  expectedSizeBytes := fileSizeBytes.toNat
  expectedMimeType := mimeType
  status := .requested
  expiresAt := now + seconds settings.uploadSessionTtlSeconds
  createdAt := now
  uploadedAt := none
  consumedAt := none

/-- The INSERT of an upload session: `id` is the primary key, `nonce` is
unique. -/
def insertUploadSession (t : Table UploadSession UploadSession.id) (row : UploadSession) :
    Option (Table UploadSession UploadSession.id) :=
  if t.rows.any fun r => r.nonce = row.nonce then none else t.insert? row

theorem insertUploadSession_eq_some {t t' : Table UploadSession UploadSession.id}
    {row : UploadSession} (h : insertUploadSession t row = some t') :
    t'.rows = t.rows ++ [row] ∧ t.find? row.id = none := by
  unfold insertUploadSession at h
  split at h
  · cases h
  · exact Table.insert?_eq_some h

def uploadUrl (settings : Settings) (kind : String) (nonce : String) : String :=
  let path := if kind = "audio" then "api/upload" else "api/upload-image"
  let base := if settings.publicBaseUrl.endsWith "/" then settings.publicBaseUrl
    else settings.publicBaseUrl ++ "/"
  urljoin base path ++ "?" ++ urlencode "session" nonce

def uploadUrlAnswer (settings : Settings) (kind : String) (secrets : UploadSecrets)
    (row : UploadSession) : UploadUrl where
  uploadUrl := uploadUrl settings kind secrets.nonce
  uploadId := uuidStr secrets.uploadId
  bearer := secrets.bearerForUpload
  expiresAt := isoformat row.expiresAt

/-- `request_upload_url`. -/
def requestUploadUrl (settings : Settings) (sha256Hex : Bytes → String) (now : ℤ)
    (secrets : UploadSecrets) (userId bearerId : Uuid) (kind : String) (fileSizeBytes : ℤ)
    (mimeType transcriptionId : Option String) (db : Database) :
    Except Failure UploadUrl × Database :=
  match checkUploadRequest settings kind fileSizeBytes mimeType transcriptionId with
  | .error e => (.error e, db)
  | .ok uploadKind =>
      mcpRequestSession (fun db =>
        match bindTranscription db userId uploadKind transcriptionId with
        | .error e => .error e
        | .ok tid =>
            match hashBearer sha256Hex secrets.bearerForUpload with
            | none => .error .raised
            | some hash =>
                let row := uploadSessionRow settings now userId bearerId secrets hash uploadKind
                  tid fileSizeBytes mimeType
                match insertUploadSession db.uploadSessions row with
                | none => .error .raised
                | some sessions =>
                    .ok (uploadUrlAnswer settings kind secrets row,
                      { db with uploadSessions := sessions })) db

/-- A call leaves the database alone, or inserts one row of the caller. -/
theorem requestUploadUrl_effect (settings : Settings) (sha256Hex : Bytes → String) (now : ℤ)
    (secrets : UploadSecrets) (userId bearerId : Uuid) (kind : String) (size : ℤ)
    (mime transcriptionId : Option String) (db : Database) :
    (requestUploadUrl settings sha256Hex now secrets userId bearerId kind size mime
        transcriptionId db).2 = db ∨
      ∃ uploadKind hash tid t,
        bindTranscription db userId uploadKind transcriptionId = .ok tid ∧
        insertUploadSession db.uploadSessions (uploadSessionRow settings now userId bearerId
          secrets hash uploadKind tid size mime) = some t ∧
        (requestUploadUrl settings sha256Hex now secrets userId bearerId kind size mime
          transcriptionId db).2 = { db with uploadSessions := t } := by
  unfold requestUploadUrl
  cases hkind : checkUploadRequest settings kind size mime transcriptionId with
  | error e => exact .inl rfl
  | ok uploadKind =>
      simp only [mcpRequestSession]
      cases hbind : bindTranscription db userId uploadKind transcriptionId with
      | error e => exact .inl rfl
      | ok tid =>
          cases hhash : hashBearer sha256Hex secrets.bearerForUpload with
          | none => exact .inl rfl
          | some hash =>
              cases hinsert : insertUploadSession db.uploadSessions (uploadSessionRow settings now
                  userId bearerId secrets hash uploadKind tid size mime) with
              | none =>
                  left
                  simp only [hinsert]
              | some t =>
                  refine .inr ⟨uploadKind, hash, tid, t, hbind, hinsert, ?_⟩
                  simp only [hinsert]

end TranscriptionApi.Mcp
