import TranscriptionApi.Api.Transcriptions
import TranscriptionApi.Api.Upload
import TranscriptionApi.Lib.Transition
import TranscriptionApi.Mcp.Start
import TranscriptionApi.Mcp.Tools
import TranscriptionApi.Pipeline.Cleanup

/-!
The service as the handlers of upload sessions see it: the committed database,
the upload directories, and every handler in flight at the await it is waiting
in. One event is one step of one handler, from the return of an await to the
next await, or a whole MCP call that has no await worth separating.

A SELECT sees the committed database. An UPDATE of `upload_sessions` or of
`transcriptions` takes the locks of the rows it rewrites and a COMMIT makes it
visible; until then another UPDATE of those rows waits. A handler that ends by an
exception rolls back, unless the exception is the connection that is lost when the
server has already committed. `now()` is the time at which the transaction began,
so a handler remembers when it sent its first statement. What an await returns or
raises, and how the removal of a directory ends, is up to the environment and part
of the event.

`accepted` and `log` are history: the bytes of the last upload that committed,
and the answers and inserted rows, in order.
-/

namespace TranscriptionApi.Uploads

open Api Auth Db Lib Mcp Pipeline Python

structure Service where
  settings : Settings
  sha256Hex : Bytes → String
  showSeconds : ℚ → String

/-- A transaction on its way to the database: what it writes. -/
inductive Write where
  | uploaded (row : UploadSession) (at_ : ℤ) (bytes : Bytes)
  | imageUploaded (row : UploadSession) (at_ : ℤ) (img : Image)
  | consumed (row : UploadSession) (at_ : ℤ) (tx : Transcription) (result : TranscriptionResult)
  | expired (rows : List UploadSession)

/-- A call of `delete_transcription` that has parsed its id; `since` is when its
transaction began. -/
structure Deletion where
  userId : Uuid
  tid : Uuid
  since : ℤ

/-- A handler in flight, by the await it is in and the data it holds there; `since`
is when its transaction began. -/
inductive Handler where
  /-- an upload, its SELECT executed -/
  | selected (kind : UploadKind) (plaintext : String) (filename : Option String)
      (row : UploadSession) (since : ℤ)
  /-- `upload_audio`, in `file.read` -/
  | streaming (row : UploadSession) (fh : Handle) (received : Bytes)
  /-- `upload_image`, in `file.read` -/
  | reading (filename : Option String) (row : UploadSession) (since : ℤ)
  /-- `start_transcription`, the SELECT of `_load_upload_row` executed -/
  | loading (row : UploadSession) (since : ℤ)
  | orchestrating (row : UploadSession) (since : ℤ)
  /-- a purge pass, before its SELECT -/
  | purging (cutoff : ℤ)
  /-- a purge pass, its SELECT executed -/
  | purgeSelected (rows : List UploadSession)
  /-- before the UPDATE -/
  | writing (wr : Write)
  /-- the UPDATE executed, before the COMMIT -/
  | committing (wr : Write)
  /-- `delete_transcription`, in the UPDATE of `transcriptions` -/
  | deleting (del : Deletion)
  /-- in the UPDATE of `images` -/
  | cascading (del : Deletion)
  /-- both executed, the second one on the images `found`; before the COMMIT -/
  | deleted (del : Deletion) (found : List Uuid)

inductive Entry where
  /-- an upload has been committed -/
  | uploadAccepted (session : Uuid)
  | uploadAnswered (session : Option Uuid) (answer : UploadAnswer)
  | imageInserted (session imageId : Uuid)
  | startAnswered (session : Option Uuid) (result : Except Failure StartAnswer)
  | transcriptionInserted (session txId : Uuid)
  | transcriptionDeleted (userId tid : Uuid)
  | deleteAnswered (userId : Uuid) (tid : Option Uuid) (result : Except Failure Unit)
  | purged (count : ℕ)
  | purgeFailed

structure World where
  now : ℤ
  db : Database
  dirs : Uuid → Option UploadDir
  blobs : String → Option Bytes
  nextInode : ℕ
  locks : Uuid → Option ℕ
  /-- the locks on rows of `transcriptions` -/
  deleteLocks : Uuid → Option ℕ
  handlers : ℕ → Option Handler
  accepted : Uuid → Option Bytes
  log : List Entry

/-- What an await returns or raises. -/
inductive Await where
  | ok
  /-- `file.read(n)`; no bytes are the end of the body -/
  | chunk (bytes : Bytes)
  /-- the one `file.read` of an image, and the id drawn for it -/
  | body (raw : Bytes) (imageId : Uuid)
  /-- `orchestrate` returns; `txId` is the id of the row it flushed -/
  | result (r : TranscriptionResult) (txId : Uuid)
  | failed (e : PipelineError)
  /-- `target.open` raises, after `mkdir` -/
  | openFailed
  /-- the server has committed, and the await of the COMMIT raises -/
  | lost
  | raised
  | cancelled

namespace Await

/-- The await ends by an exception, and has done nothing. -/
def raises : Await → Bool
  | .failed _ | .openFailed | .raised | .cancelled => true
  | _ => false

/-- What a COMMIT comes to when it takes effect. -/
def commits : Await → Bool
  | .ok | .lost => true
  | _ => false

end Await

inductive Event where
  | tick (d : ℕ)
  | requestUploadUrl (secrets : UploadSecrets) (userId bearerId : Uuid) (kind : String)
      (fileSizeBytes : ℤ) (mimeType transcriptionId : Option String)
  | deleteTranscription (p : ℕ) (userId : Uuid) (transcriptionId : String)
  /-- the COMMIT of a `POST /api/transcriptions` whose transaction began at `since` -/
  | postTranscription (userId : Uuid) (filename : Option String) (bytesWritten : ℕ) (txId : Uuid)
      (since : ℤ) (r : TranscriptionResult)
  | uploadAudio (p : ℕ) (req : UploadRequest)
  | uploadImage (p : ℕ) (req : UploadRequest) (filename : Option String)
  | startTranscription (p : ℕ) (status : Option RuntimeStatus) (userId : Uuid)
      (uploadId : String)
  | purge (p : ℕ)
  | resume (p : ℕ) (a : Await) (rm : Uuid → RmOutcome)

/-- The handler that takes the step, if any. -/
def Event.actor : Event → Option ℕ
  | .deleteTranscription p _ _ => some p
  | .uploadAudio p _ => some p
  | .uploadImage p _ _ => some p
  | .startTranscription p _ _ _ => some p
  | .purge p => some p
  | .resume p _ _ => some p
  | _ => none

namespace Write

/-- The sessions whose rows the UPDATE rewrites. -/
def ids : Write → List Uuid
  | .uploaded row _ _ => [row.id]
  | .imageUploaded row _ _ => [row.id]
  | .consumed row _ _ _ => [row.id]
  | .expired rows => rows.map UploadSession.id

/-- The status the UPDATE writes. -/
def target : Write → UploadStatus
  | .uploaded .. => .uploaded
  | .imageUploaded .. => .uploaded
  | .consumed .. => .consumed
  | .expired _ => .expired

def sessions (t : Table UploadSession UploadSession.id) :
    Write → Table UploadSession UploadSession.id
  | .uploaded row at_ _ => markUploaded row.id at_ t
  | .imageUploaded row at_ _ => markUploaded row.id at_ t
  | .consumed row at_ _ _ => consumeUpload row.id at_ t
  | .expired rows => markExpired rows t

/-- The database after the COMMIT. -/
def apply (db : Database) (wr : Write) : Option Database :=
  let db' := { db with uploadSessions := wr.sessions db.uploadSessions }
  match wr with
  | .uploaded .. => some db'
  | .imageUploaded _ _ img => (db.images.insert? img).map fun t => { db' with images := t }
  | .consumed _ _ tx _ =>
      (db.transcriptions.insert? tx).map fun t => { db' with transcriptions := t }
  | .expired _ => some db'

/-- What the COMMIT has done once it takes effect. -/
def effects : Write → List Entry
  | .uploaded row _ _ => [.uploadAccepted row.id]
  | .imageUploaded row _ img => [.uploadAccepted row.id, .imageInserted row.id img.id]
  | .consumed row _ tx _ => [.transcriptionInserted row.id tx.id]
  | .expired _ => []

/-- The answer when the COMMIT returns. -/
def success : Write → Entry
  | .uploaded row _ _ => .uploadAnswered (some row.id) (.ok row.id)
  | .imageUploaded row _ img => .uploadAnswered (some row.id) (.ok img.id)
  | .consumed row _ tx result => .startAnswered (some row.id) (.ok (startAnswer tx result))
  | .expired rows => .purged rows.length

/-- The answer when the UPDATE or the COMMIT raises. -/
def failure : Write → Entry
  | .uploaded row _ _ => .uploadAnswered (some row.id) .raised
  | .imageUploaded row _ _ => .uploadAnswered (some row.id) .raised
  | .consumed row _ _ _ => .startAnswered (some row.id) (.error .raised)
  | .expired _ => .purgeFailed

/-- The answer to what the COMMIT comes to. -/
def answer (wr : Write) : Await → Entry
  | .ok => wr.success
  | _ => wr.failure

/-- What is logged of a COMMIT that takes effect. -/
def entries (wr : Write) (a : Await) : List Entry := wr.effects ++ [wr.answer a]

end Write

namespace Deletion

variable (del : Deletion)

/-- The rows that the UPDATE of `transcriptions` finds. -/
def hits (db : Database) : List Transcription :=
  scopedSelect db.transcriptions Transcription.userId del.userId (liveTranscription del.tid)

/-- The images that the UPDATE of `images` finds. -/
def cascade (db : Database) : List Uuid :=
  (scopedSelect db.images Image.userId del.userId (liveImageOf del.tid)).map Image.id

/-- The database after the COMMIT. -/
def apply (found : List Uuid) (db : Database) : Database :=
  { db with
    transcriptions := db.transcriptions.update (fun r => r.id = del.tid)
      (softDeleteTranscription del.since) fun _ => rfl
    images := db.images.update (fun r => found.contains r.id) (softDeleteImage del.since)
      fun _ => rfl }

def failure : Entry := .deleteAnswered del.userId (some del.tid) (.error .raised)

/-- The answer to what the COMMIT comes to. -/
def answer : Await → Entry
  | .ok => .deleteAnswered del.userId (some del.tid) (.ok ())
  | _ => del.failure

/-- What is logged of a COMMIT that takes effect. -/
def entries (a : Await) : List Entry := [.transcriptionDeleted del.userId del.tid, del.answer a]

end Deletion

namespace World

def goto (w : World) (p : ℕ) (h : Handler) : World :=
  { w with handlers := Function.update w.handlers p (some h) }

/-- The handler ends; its transaction is closed. -/
def finish (w : World) (p : ℕ) (es : List Entry) : World :=
  { w with
    handlers := Function.update w.handlers p none
    locks := fun i => if w.locks i = some p then none else w.locks i
    deleteLocks := fun i => if w.deleteLocks i = some p then none else w.deleteLocks i
    log := w.log ++ es }

def setDir (w : World) (i : Uuid) (dir : Option UploadDir) : World :=
  { w with dirs := Function.update w.dirs i dir }

/-- `_cleanup_upload_dir`. -/
def cleanupUploadDir (w : World) (rm : Uuid → RmOutcome) (i : Uuid) : World :=
  w.setDir i (rmtree (w.dirs i) (rm i))

/-- The `finally` block of `start_transcription`, where there is one. -/
def leaveTry (w : World) (rm : Uuid → RmOutcome) : Write → World
  | .consumed row _ _ _ => w.cleanupUploadDir rm row.id
  | _ => w

/-- The body that a committed upload accepted. -/
def accept (w : World) : Write → World
  | .uploaded row _ bytes =>
      { w with accepted := Function.update w.accepted row.id (some bytes) }
  | _ => w

end World

section Step

variable (sv : Service) (w : World) (p : ℕ) (rm : Uuid → RmOutcome)

/-- Steps 1 and 2 of an upload. -/
def beginUpload (kind : UploadKind) (req : UploadRequest) (filename : Option String) : World :=
  match parseBearer req.authorization with
  | none => w.finish p [.uploadAnswered none (.error bearerMissing)]
  | some plaintext =>
      match selectRequested w.db req.sessionNonce with
      | none => w.finish p [.uploadAnswered none (.error sessionNotFound)]
      | some row => w.goto p (.selected kind plaintext filename row w.now)

/-- `start_transcription` up to the SELECT of `_load_upload_row`. -/
def beginStart (status : Option RuntimeStatus) (userId : Uuid) (uploadId : String) : World :=
  match checkModels status with
  | .error e => w.finish p [.startAnswered none (.error e)]
  | .ok () =>
      match selectUpload w.db userId uploadId with
      | .error e => w.finish p [.startAnswered none (.error e)]
      | .ok row => w.goto p (.loading row w.now)

/-- `delete_transcription` up to its first UPDATE. -/
def beginDelete (userId : Uuid) (transcriptionId : String) : World :=
  match uuid transcriptionId with
  | none =>
      w.finish p [.deleteAnswered userId none
        (.error (notAUuid "transcription_id" transcriptionId))]
  | some tid => w.goto p (.deleting ⟨userId, tid, w.now⟩)

/-- `mkdir` and `open("wb")`. -/
def openOriginal (row : UploadSession) : World :=
  let opened := openWb (w.dirs row.id) w.nextInode
  { (w.setDir row.id (some opened.1)).goto p (.streaming row opened.2 []) with
    nextInode := w.nextInode + 1 }

def resumeSelected (kind : UploadKind) (plaintext : String) (filename : Option String)
    (row : UploadSession) (since : ℤ) : Await → Option World
  | .ok =>
      match checkSession sv.settings sv.sha256Hex kind w.now plaintext row, kind with
      | .error answer, _ => some (w.finish p [.uploadAnswered (some row.id) answer])
      | .ok (), .audio => some (openOriginal w p row)
      | .ok (), .image => some (w.goto p (.reading filename row since))
  | .openFailed =>
      match checkSession sv.settings sv.sha256Hex kind w.now plaintext row, kind with
      | .ok (), .audio =>
          some ((w.setDir row.id (some ⟨none⟩)).finish p [.uploadAnswered (some row.id) .raised])
      | _, _ => none
  | .raised | .cancelled => some (w.finish p [.uploadAnswered (some row.id) .raised])
  | _ => none

def unlinkAndFinish (row : UploadSession) (answer : UploadAnswer) : World :=
  (w.setDir row.id (unlinkOriginal (w.dirs row.id))).finish p
    [.uploadAnswered (some row.id) answer]

def resumeStreaming (row : UploadSession) (fh : Handle) (received : Bytes) :
    Await → Option World
  | .chunk [] => some (w.goto p (.writing (.uploaded row w.now received)))
  | .chunk bytes =>
      let maxBytes := sv.settings.maxBytes row.expectedSizeBytes
      if (received ++ bytes).length > maxBytes then
        some (unlinkAndFinish w p row (.error (fileTooLarge row maxBytes)))
      else
        some ((w.setDir row.id (writeTo (w.dirs row.id) fh bytes)).goto p
          (.streaming row { fh with pos := fh.pos + bytes.length } (received ++ bytes)))
  | .raised => some (unlinkAndFinish w p row .raised)
  | .cancelled => some (w.finish p [.uploadAnswered (some row.id) .raised])
  | _ => none

def resumeReading (filename : Option String) (row : UploadSession) (since : ℤ) :
    Await → Option World
  | .body raw imageId =>
      match checkImage sv.settings row raw with
      | .error e => some (w.finish p [.uploadAnswered (some row.id) (.error e)])
      | .ok (ext, tid) =>
          let img := imageRow sv.settings row tid imageId ext filename raw since
          some { w.goto p (.writing (.imageUploaded row w.now img)) with
            blobs := Function.update w.blobs img.filePath (some raw) }
  | .raised | .cancelled => some (w.finish p [.uploadAnswered (some row.id) .raised])
  | _ => none

def resumeLoading (row : UploadSession) (since : ℤ) : Await → Option World
  | .ok =>
      match checkUploadRow sv.settings w.now row with
      | .error e => some (w.finish p [.startAnswered (some row.id) (.error e)])
      | .ok () => some (w.goto p (.orchestrating row since))
  | .raised | .cancelled => some (w.finish p [.startAnswered (some row.id) (.error .raised)])
  | _ => none

def resumeOrchestrating (row : UploadSession) (since : ℤ) : Await → Option World
  | .result r txId =>
      some (w.goto p (.writing (.consumed row w.now (transcriptionRow row txId since r) r)))
  | .failed e =>
      some ((w.cleanupUploadDir rm row.id).finish p
        [.startAnswered (some row.id) (.error (startFailure sv.showSeconds e))])
  | .cancelled =>
      some ((w.cleanupUploadDir rm row.id).finish p
        [.startAnswered (some row.id) (.error .raised)])
  | _ => none

def resumePurging (cutoff : ℤ) : Await → Option World
  | .ok => some (w.goto p (.purgeSelected (expiredCandidates w.db cutoff)))
  | .raised | .cancelled => some (w.finish p [.purgeFailed])
  | _ => none

def resumePurgeSelected (rows : List UploadSession) : Await → Option World
  | .ok =>
      let removed := purgeDirs rm rows w.dirs
      let w' := { w with dirs := removed.1 }
      if removed.2 = false then some (w'.finish p [.purgeFailed])
      else if rows.isEmpty then some (w'.finish p [.purged 0])
      else some (w'.goto p (.writing (.expired rows)))
  | .raised | .cancelled => some (w.finish p [.purgeFailed])
  | _ => none

def resumeWriting (wr : Write) : Await → Option World
  | .ok =>
      if wr.ids.all fun i => (w.locks i).isNone then
        some { (w.leaveTry rm wr).goto p (.committing wr) with
          locks := fun i => if i ∈ wr.ids then some p else w.locks i }
      else none
  | .raised | .cancelled => some ((w.leaveTry rm wr).finish p [wr.failure])
  | _ => none

def resumeCommitting (wr : Write) (a : Await) : Option World :=
  match a with
  | .ok | .lost =>
      (wr.apply w.db).map fun db => { (w.accept wr).finish p (wr.entries a) with db := db }
  | .raised | .cancelled => some (w.finish p [wr.failure])
  | _ => none

/-- The UPDATE of `transcriptions`, which waits as long as another delete has the
row. -/
def resumeDeleting (del : Deletion) : Await → Option World
  | .ok =>
      if (del.hits w.db).isEmpty then
        some (w.finish p [.deleteAnswered del.userId (some del.tid)
          (.error (raiseToolError "TRANSCRIPTION_NOT_FOUND" "transcription not found" 404))])
      else if (w.deleteLocks del.tid).isSome then none
      else
        some { w.goto p (.cascading del) with
          deleteLocks := Function.update w.deleteLocks del.tid (some p) }
  | .raised | .cancelled => some (w.finish p [del.failure])
  | _ => none

def resumeCascading (del : Deletion) : Await → Option World
  | .ok => some (w.goto p (.deleted del (del.cascade w.db)))
  | .raised | .cancelled => some (w.finish p [del.failure])
  | _ => none

def resumeDeleted (del : Deletion) (found : List Uuid) (a : Await) : Option World :=
  match a with
  | .ok | .lost => some { w.finish p (del.entries a) with db := del.apply found w.db }
  | .raised | .cancelled => some (w.finish p [del.failure])
  | _ => none

def resume (h : Handler) (a : Await) : Option World :=
  match h with
  | .selected kind plaintext filename row since =>
      resumeSelected sv w p kind plaintext filename row since a
  | .streaming row fh received => resumeStreaming sv w p row fh received a
  | .reading filename row since => resumeReading sv w p filename row since a
  | .loading row since => resumeLoading sv w p row since a
  | .orchestrating row since => resumeOrchestrating sv w p rm row since a
  | .purging cutoff => resumePurging w p cutoff a
  | .purgeSelected rows => resumePurgeSelected w p rm rows a
  | .writing wr => resumeWriting w p rm wr a
  | .committing wr => resumeCommitting w p wr a
  | .deleting del => resumeDeleting w p del a
  | .cascading del => resumeCascading w p del a
  | .deleted del found => resumeDeleted w p del found a

end Step

/-- A new handler starts under a number no other handler has. -/
def World.spawn (w : World) (p : ℕ) (w' : World) : Option World :=
  if (w.handlers p).isSome then none else some w'

def step (sv : Service) (w : World) : Event → Option World
  | .tick d => some { w with now := w.now + d }
  | .requestUploadUrl secrets userId bearerId kind size mime tid =>
      some { w with
        db := (requestUploadUrl sv.settings sv.sha256Hex w.now secrets userId bearerId kind size
          mime tid w.db).2 }
  | .deleteTranscription p userId tid => w.spawn p (beginDelete w p userId tid)
  | .postTranscription userId filename bytesWritten txId since r =>
      (postTranscription userId filename bytesWritten txId since r w.db).map
        fun db => { w with db := db }
  | .uploadAudio p req => w.spawn p (beginUpload w p .audio req none)
  | .uploadImage p req filename => w.spawn p (beginUpload w p .image req filename)
  | .startTranscription p status userId uploadId =>
      w.spawn p (beginStart w p status userId uploadId)
  | .purge p => w.spawn p (w.goto p (.purging (w.now - sv.settings.grace)))
  | .resume p a rm => (w.handlers p).bind fun h => resume sv w p rm h a

/-- The service. -/
def service (sv : Service) : System World Event := ⟨step sv⟩

/-- A service that just started: no upload sessions yet, nothing in flight. -/
structure Initial (w : World) : Prop where
  sessions : w.db.uploadSessions.rows = []
  handlers : ∀ p, w.handlers p = none
  log : w.log = []
  accepted : ∀ i, w.accepted i = none

/-! ### Schedules

The pieces from which concrete schedules are put together: one audio session of
user 1, uploaded and transcribed. -/

/-- A service whose SHA-256 is replaced by the identity on the text. -/
def plainService : Service where
  settings := default
  sha256Hex := fun bytes => String.ofList (bytes.map fun b => Char.ofNat b.toNat)
  showSeconds := fun _ => ""

def emptyWorld : World where
  now := 0
  db := default
  dirs := fun _ => none
  blobs := fun _ => none
  nextInode := 0
  locks := fun _ => none
  deleteLocks := fun _ => none
  handlers := fun _ => none
  accepted := fun _ => none
  log := []

theorem initial_emptyWorld : Initial emptyWorld :=
  ⟨rfl, fun _ => rfl, rfl, fun _ => rfl⟩

def requestAudio : Event :=
  .requestUploadUrl ⟨7, "nonce", "token"⟩ 1 3 "audio" 4 none none

def uploadRequest : UploadRequest := ⟨"nonce", some "Bearer token"⟩

/-- Resume handler `p`, with removals that succeed. -/
def go (p : ℕ) (a : Await) : Event := .resume p a fun _ => .ok

/-- The body of an upload, to the COMMIT. -/
def finishUpload (p : ℕ) (bytes : Bytes) : List Event :=
  [go p .ok, go p (.chunk bytes), go p (.chunk []), go p .ok, go p .ok]

def start (p : ℕ) : Event :=
  .startTranscription p (some ⟨"ready", none, "ready", none⟩) 1
    "00000000-0000-0000-0000-000000000007"

def pipelineResult : TranscriptionResult where
  audioHash := "hash"
  language := "es"
  durationSeconds := 1
  numSpeakers := 0
  textContent := ""
  segments := []
  metadata := [("cache_hit", .bool false)]

/-- A start from its check to the COMMIT. -/
def finishStart (p : ℕ) (txId : Uuid) : List Event :=
  [go p .ok, go p (.result pipelineResult txId), go p .ok, go p .ok]

end TranscriptionApi.Uploads
