import TranscriptionApi.Uploads.World

/-!
One run of `upload_audio`, with everything that can go wrong in its loop.

The body arrives in chunks, and every one is counted before it is written. A read or
a write may raise, and so may the `close` that flushes what the file object still
holds. The handler for these unlinks the file, but it asks for `Exception`, and a
request that is cancelled in a read raises `CancelledError`, which is none.

A handler of the service that no other one gets in the way of takes exactly these
steps, as far as the service has them: a read or a write that raises.
-/

namespace TranscriptionApi.Uploads

open Api Auth Db Lib Python

/-- One turn of the loop. An empty read is the end of the body, so a chunk has a
first byte. -/
inductive BodyRead where
  | chunk (b : UInt8) (bs : Bytes)
  /-- `fh.write` raises -/
  | unwritable (b : UInt8) (bs : Bytes)
  /-- `file.read` raises -/
  | raised
  /-- the request is cancelled in `file.read` -/
  | cancelled

/-- How the reads of a body end. -/
inductive BodyEnd where
  | finished
  | raised
  | cancelled
  deriving DecidableEq

/-- What a run of `upload_audio` meets. -/
structure AudioRun where
  now : ℤ
  mkdirFails : Bool
  openFails : Bool
  inode : ℕ
  reads : List BodyRead
  closeFails : Bool
  /-- the `unlink` of a file that is too large -/
  tooLargeUnlinkFails : Bool
  /-- the `unlink` of the handler -/
  unlinkFails : Bool
  uploadedAt : ℤ
  databaseFails : Bool

/-- The bytes of the chunks that are read. -/
def received : List BodyRead → Bytes
  | [] => []
  | .chunk b bs :: reads => b :: bs ++ received reads
  | .unwritable b bs :: _ => b :: bs
  | .raised :: _ => []
  | .cancelled :: _ => []

def bodyEnd : List BodyRead → BodyEnd
  | [] => .finished
  | .chunk _ _ :: reads => bodyEnd reads
  | .unwritable _ _ :: _ => .raised
  | .raised :: _ => .raised
  | .cancelled :: _ => .cancelled

/-- The loop: the directory it leaves, and how it ended; `none` when the cap was
exceeded. -/
def streamBody (maxBytes : ℕ) (dir : Option UploadDir) (fh : Handle) (bytesWritten : ℕ) :
    List BodyRead → Option UploadDir × Option BodyEnd
  | [] => (dir, some .finished)
  | .chunk b bs :: reads =>
      if bytesWritten + (b :: bs).length > maxBytes then (dir, none)
      else
        streamBody maxBytes (writeTo dir fh (b :: bs))
          { fh with pos := fh.pos + (b :: bs).length } (bytesWritten + (b :: bs).length) reads
  | .unwritable b bs :: _ =>
      if bytesWritten + (b :: bs).length > maxBytes then (dir, none) else (dir, some .raised)
  | .raised :: _ => (dir, some .raised)
  | .cancelled :: _ => (dir, some .cancelled)

namespace AudioRun

variable (run : AudioRun)

/-- The `except Exception` block. -/
def discard (dir : Option UploadDir) : Option UploadDir × Option UploadAnswer :=
  (if run.unlinkFails then dir else unlinkOriginal dir, some .raised)

/-- The directory is made, or is there already. -/
def mkdirRaises (dir : Option UploadDir) : Bool := dir.isNone && run.mkdirFails

/-- Step 5: the directory, and the answer unless the run goes on to step 6. -/
def store (maxBytes : ℕ) (row : UploadSession) (dir : Option UploadDir) :
    Option UploadDir × Option UploadAnswer :=
  if run.mkdirRaises dir then (dir, some .raised)
  else if run.openFails then run.discard (some (dir.getD ⟨none⟩))
  else
    let opened := openWb dir run.inode
    let streamed := streamBody maxBytes (some opened.1) opened.2 0 run.reads
    if run.closeFails then
      -- whatever ended the loop, the `OSError` of the `close` takes its place
      run.discard streamed.1
    else
      match streamed.2 with
      | none =>
          -- an `unlink` that raises here is made again by the handler
          if run.tooLargeUnlinkFails then run.discard streamed.1
          else (unlinkOriginal streamed.1, some (.error (fileTooLarge row maxBytes)))
      | some .finished => (streamed.1, none)
      | some .raised => run.discard streamed.1
      | some .cancelled => (streamed.1, some .raised)

end AudioRun

/-- `upload_audio`. -/
def uploadAudio (settings : Settings) (sha256Hex : Bytes → String) (req : UploadRequest)
    (run : AudioRun) (db : Database) (dirs : Uuid → Option UploadDir) :
    UploadAnswer × Database × (Uuid → Option UploadDir) :=
  match parseBearer req.authorization with
  | none => (.error bearerMissing, db, dirs)
  | some plaintext =>
      match selectRequested db req.sessionNonce with
      | none => (.error sessionNotFound, db, dirs)
      | some row =>
          match checkSession settings sha256Hex .audio run.now plaintext row with
          | .error answer => (answer, db, dirs)
          | .ok () =>
              let stored := run.store (settings.maxBytes row.expectedSizeBytes) row (dirs row.id)
              let dirs := Function.update dirs row.id stored.1
              match stored.2 with
              | some answer => (answer, db, dirs)
              | none =>
                  if run.databaseFails then (.raised, db, dirs)
                  else
                    (.ok row.id,
                      { db with
                        uploadSessions := markUploaded row.id run.uploadedAt db.uploadSessions },
                      dirs)

/-! ### The loop -/

section Loop

variable {maxBytes : ℕ} {reads : List BodyRead}

/-- The file is open, and what was read so far is in it. -/
def openFile (inode : ℕ) (bytes : Bytes) : Option UploadDir := some ⟨some ⟨inode, bytes⟩⟩

theorem writeTo_openFile (inode : ℕ) (bytes chunk : Bytes) :
    writeTo (openFile inode bytes) ⟨inode, bytes.length⟩ chunk =
      openFile inode (bytes ++ chunk) := by
  simp [writeTo, openFile]

theorem openWb_openFile (dir : Option UploadDir) (fresh : ℕ) :
    ∃ inode, openWb dir fresh = ((⟨some ⟨inode, []⟩⟩ : UploadDir), (⟨inode, 0⟩ : Handle)) :=
  ⟨_, rfl⟩

/-- The loop stops at the first chunk that goes past the cap; otherwise it ends as the
body does, and after the last chunk everything read is in the file. -/
theorem streamBody_openFile (inode : ℕ) (bytes : Bytes) :
    (∃ left, (streamBody maxBytes (openFile inode bytes) ⟨inode, bytes.length⟩ bytes.length
        reads).1 = openFile inode left ∧
      (bodyEnd reads = .finished → bytes.length + (received reads).length ≤ maxBytes →
        left = bytes ++ received reads)) ∧
    (bytes.length ≤ maxBytes →
      (streamBody maxBytes (openFile inode bytes) ⟨inode, bytes.length⟩ bytes.length reads).2 =
        if bytes.length + (received reads).length > maxBytes then none
        else some (bodyEnd reads)) := by
  induction reads generalizing bytes with
  | nil =>
      refine ⟨⟨bytes, rfl, fun _ _ => (List.append_nil _).symm⟩, fun hle => ?_⟩
      rw [if_neg (by simpa [received] using hle)]
      rfl
  | cons r reads ih =>
      cases r with
      | chunk b bs =>
          have hlength : bytes.length + (received (.chunk b bs :: reads)).length =
              (bytes ++ b :: bs).length + (received reads).length := by
            simp only [received, List.length_append]
            omega
          simp only [streamBody, writeTo_openFile, hlength]
          rw [← List.length_append]
          split
          · refine ⟨⟨bytes, rfl, fun _ hle => ?_⟩, fun _ => ?_⟩
            · omega
            · rw [if_pos (by omega)]
          · obtain ⟨⟨left, hleft, hall⟩, hend⟩ := ih (bytes ++ b :: bs)
            refine ⟨⟨left, hleft, fun hfinished hle => ?_⟩, fun _ => hend (by omega)⟩
            rw [hall hfinished hle, received, List.append_assoc]
      | unwritable b bs =>
          simp only [streamBody, received, bodyEnd]
          split
          · rename_i hover
            exact ⟨⟨bytes, rfl, fun h => by cases h⟩, fun _ => (if_pos hover).symm⟩
          · rename_i hunder
            exact ⟨⟨bytes, rfl, fun h => by cases h⟩, fun _ => (if_neg hunder).symm⟩
      | raised =>
          refine ⟨⟨bytes, rfl, fun h => by cases h⟩, fun hle => ?_⟩
          rw [if_neg (by simpa [received] using hle)]
          rfl
      | cancelled =>
          refine ⟨⟨bytes, rfl, fun h => by cases h⟩, fun hle => ?_⟩
          rw [if_neg (by simpa [received] using hle)]
          rfl

end Loop

/-! ### The outcomes -/

section Outcomes

variable (run : AudioRun) (maxBytes : ℕ) (row : UploadSession) (dir : Option UploadDir)

/-- The file could be opened. -/
def AudioRun.Opens : Prop := run.mkdirRaises dir = false ∧ run.openFails = false

/-- All the bytes that the run reads. -/
def AudioRun.body : Bytes :=
  if run.mkdirRaises dir || run.openFails then [] else received run.reads

/-- Opening, reading, writing or closing raises. -/
def AudioRun.Fails : Prop :=
  run.mkdirRaises dir = true ∨ run.openFails = true ∨ run.closeFails = true ∨
    bodyEnd run.reads ≠ .finished

instance : Decidable (run.Fails dir) := by
  unfold AudioRun.Fails
  infer_instance

/-- The bytes of `original.bin`. -/
def UploadDir.content (dir : Option UploadDir) : Option Bytes :=
  (dir.bind UploadDir.original).map StoredFile.bytes

/-- What an upload promises: the whole body under the cap with the row marked, or neither
a file nor a change to the database, and a 413 for a body past the cap and no other. -/
def AudioContract (db : Database)
    (result : UploadAnswer × Database × (Uuid → Option UploadDir)) : Prop :=
  (if maxBytes < (run.body dir).length ∨ run.Fails dir then
      UploadDir.content (result.2.2 row.id) = none ∧ result.2.1 = db
    else
      result.1 = .ok row.id ∧ UploadDir.content (result.2.2 row.id) = some (run.body dir) ∧
        (run.body dir).length ≤ maxBytes ∧ result.2.1.status? row.id = some .uploaded) ∧
  (result.1 = .error (fileTooLarge row maxBytes) ↔ maxBytes < (run.body dir).length)

/-- The file of a run that does not succeed is unlinked: the `unlink` it comes to does not
raise, the request is not cancelled in a read, and a file that is too large can be closed. -/
def AudioRun.Tidies : Prop :=
  if run.mkdirRaises dir then True
  else if run.openFails then UploadDir.content dir = none ∨ run.unlinkFails = false
  else if maxBytes < (received run.reads).length then
    run.closeFails = false ∧ run.tooLargeUnlinkFails = false
  else
    match bodyEnd run.reads with
    | .finished => run.closeFails = true → run.unlinkFails = false
    | .raised => run.unlinkFails = false
    | .cancelled => run.closeFails = true ∧ run.unlinkFails = false

/-- The same for step 5 alone. -/
def StoreContract (stored : Option UploadDir × Option UploadAnswer) : Prop :=
  (if maxBytes < (run.body dir).length ∨ run.Fails dir then
      UploadDir.content stored.1 = none ∧ stored.2.isSome = true
    else
      stored.2 = none ∧ UploadDir.content stored.1 = some (run.body dir)) ∧
  (stored.2 = some (.error (fileTooLarge row maxBytes)) ↔ maxBytes < (run.body dir).length)

variable {run maxBytes row dir}

@[simp] theorem content_openFile (inode : ℕ) (bytes : Bytes) :
    UploadDir.content (openFile inode bytes) = some bytes := rfl

@[simp] theorem content_unlinkOriginal (dir : Option UploadDir) :
    UploadDir.content (unlinkOriginal dir) = none := by
  cases dir <;> rfl

theorem content_discard : UploadDir.content (run.discard dir).1 = none ↔
    UploadDir.content dir = none ∨ run.unlinkFails = false := by
  cases hunlink : run.unlinkFails with
  | true => simp [AudioRun.discard, hunlink]
  | false => simp [AudioRun.discard, hunlink]

/-- Before anything is read, only what is left of an earlier run can stay. -/
theorem storeContract_unopened (h : ¬run.Opens dir) :
    StoreContract run maxBytes row dir (run.store maxBytes row dir) ↔
      run.Tidies maxBytes dir := by
  have hbody : run.body dir = [] := by
    rw [AudioRun.body, if_pos]
    by_contra hneither
    rw [Bool.not_eq_true, Bool.or_eq_false_iff] at hneither
    exact h hneither
  have hnotOver : ¬maxBytes < ([] : Bytes).length := by simp
  unfold StoreContract
  rw [hbody]
  cases hmkdir : run.mkdirRaises dir with
  | true =>
      have hdir : UploadDir.content dir = none := by
        cases dir with
        | none => rfl
        | some d => cases hmkdir
      simp [AudioRun.store, AudioRun.Tidies, AudioRun.Fails, hmkdir, hdir]
  | false =>
      have hopen : run.openFails = true := by
        cases hopen : run.openFails with
        | true => rfl
        | false => exact absurd ⟨hmkdir, hopen⟩ h
      have hcontent : UploadDir.content (some (dir.getD ⟨none⟩)) = UploadDir.content dir := by
        cases dir <;> rfl
      have hsome : (run.discard (some (dir.getD ⟨none⟩))).2 = some .raised := rfl
      simp [AudioRun.store, AudioRun.Tidies, AudioRun.Fails, hmkdir, hopen, content_discard,
        hcontent, hsome]

/-- With the file open. -/
theorem storeContract_opened (h : run.Opens dir) :
    StoreContract run maxBytes row dir (run.store maxBytes row dir) ↔
      run.Tidies maxBytes dir := by
  obtain ⟨hmkdir, hopen⟩ := h
  have hbody : run.body dir = received run.reads := by
    simp [AudioRun.body, hmkdir, hopen]
  obtain ⟨inode, hfile⟩ := openWb_openFile dir run.inode
  obtain ⟨⟨left, hleft, hall⟩, hend⟩ :=
    @streamBody_openFile maxBytes run.reads inode []
  have hend := hend (Nat.zero_le _)
  simp only [List.length_nil, Nat.zero_add, List.nil_append] at hleft hall hend
  have hstore : run.store maxBytes row dir =
      if run.closeFails then run.discard (openFile inode left)
      else
        match if maxBytes < (received run.reads).length then none
          else some (bodyEnd run.reads) with
        | none =>
            if run.tooLargeUnlinkFails then run.discard (openFile inode left)
            else (unlinkOriginal (openFile inode left),
              some (.error (fileTooLarge row maxBytes)))
        | some .finished => (openFile inode left, none)
        | some .raised => run.discard (openFile inode left)
        | some .cancelled => (openFile inode left, some .raised) := by
    have hstreamed : streamBody maxBytes (some ⟨some ⟨inode, []⟩⟩) ⟨inode, 0⟩ 0 run.reads =
        (openFile inode left, if maxBytes < (received run.reads).length then none
          else some (bodyEnd run.reads)) := Prod.ext hleft hend
    simp only [AudioRun.store, hmkdir, hopen, hfile, hstreamed]
    rfl
  have hdiscard : (run.discard (openFile inode left)).2 = some .raised := rfl
  rw [hstore]
  unfold StoreContract
  rw [hbody]
  by_cases hover : maxBytes < (received run.reads).length
  · -- the cap: the file is closed and unlinked, or an exception comes first
    cases hclose : run.closeFails with
    | true => simp [AudioRun.Tidies, hmkdir, hopen, hover, hclose, hdiscard]
    | false =>
        cases hunlink : run.tooLargeUnlinkFails with
        | true => simp [AudioRun.Tidies, hmkdir, hopen, hover, hclose, hunlink, hdiscard]
        | false => simp [AudioRun.Tidies, hmkdir, hopen, hover, hclose, hunlink]
  · cases hclose : run.closeFails with
    | true =>
        cases hbodyEnd : bodyEnd run.reads <;>
          simp [AudioRun.Tidies, AudioRun.Fails, hmkdir, hopen, hover, hclose, hdiscard,
            hbodyEnd, content_discard]
    | false =>
        cases hbodyEnd : bodyEnd run.reads with
        | finished =>
            have hleft := hall hbodyEnd (by omega)
            simp [AudioRun.Tidies, AudioRun.Fails, hmkdir, hopen, hover, hclose, hbodyEnd, hleft]
        | raised =>
            simp [AudioRun.Tidies, AudioRun.Fails, hmkdir, hopen, hover, hclose, hdiscard,
              hbodyEnd, content_discard]
        | cancelled =>
            simp [AudioRun.Tidies, AudioRun.Fails, hmkdir, hopen, hover, hclose, hbodyEnd]

theorem storeContract_iff :
    StoreContract run maxBytes row dir (run.store maxBytes row dir) ↔
      run.Tidies maxBytes dir := by
  by_cases h : run.Opens dir
  · exact storeContract_opened h
  · exact storeContract_unopened h

variable {settings : Settings} {sha256Hex : Bytes → String} {req : UploadRequest}
  {db : Database} {plaintext : String}

theorem status?_markUploaded {i : Uuid} {at_ : ℤ} (h : db.status? i = some .requested) :
    Database.status?
      { db with uploadSessions := markUploaded i at_ db.uploadSessions } i = some .uploaded := by
  obtain ⟨r, hr, -⟩ := Database.status?_eq_some_iff.mp h
  have hkey : r.id = i := Table.key_of_find? hr
  rw [Database.status?, markUploaded, Table.find?_update, hr]
  simp [hkey]

/-- A run passes the checks: what it answers and leaves is up to step 5. -/
theorem audioContract_iff_store (dirs : Uuid → Option UploadDir)
    (hparse : parseBearer req.authorization = some plaintext)
    (hrow : selectRequested db req.sessionNonce = some row)
    (hcheck : checkSession settings sha256Hex .audio run.now plaintext row = .ok ())
    (hdb : run.databaseFails = false) :
    AudioContract run (settings.maxBytes row.expectedSizeBytes) row (dirs row.id) db
        (uploadAudio settings sha256Hex req run db dirs) ↔
      StoreContract run (settings.maxBytes row.expectedSizeBytes) row (dirs row.id)
        (run.store (settings.maxBytes row.expectedSizeBytes) row (dirs row.id)) := by
  obtain ⟨hfind, -, hstatus⟩ := selectRequested_spec hrow
  have hrequested : db.status? row.id = some .requested :=
    Database.status?_eq_some_iff.mpr ⟨row, hfind, hstatus⟩
  simp only [uploadAudio, hparse, hrow, hcheck, hdb]
  generalize run.store (settings.maxBytes row.expectedSizeBytes) row (dirs row.id) = stored
  obtain ⟨left, answer⟩ := stored
  unfold AudioContract StoreContract
  cases answer with
  | some answer =>
      have hnotUploaded : db.status? row.id ≠ some .uploaded := by simp [hrequested]
      simp [hnotUploaded]
  | none =>
      have huploaded : Database.status? { db with
          uploadSessions := markUploaded row.id run.uploadedAt db.uploadSessions } row.id =
            some .uploaded := status?_markUploaded hrequested
      have hchanged : { db with
          uploadSessions := markUploaded row.id run.uploadedAt db.uploadSessions } ≠ db := by
        intro heq
        rw [heq, hrequested] at huploaded
        cases huploaded
      split
      · simp [hchanged]
      · rename_i hstored
        have hle := Nat.not_lt.mp (not_or.mp hstored).1
        simp [huploaded, hle]

/-- A run of an upload that passed the checks keeps the promise exactly when it tidies up. -/
theorem audioContract_iff (settings : Settings) (sha256Hex : Bytes → String)
    (req : UploadRequest) (run : AudioRun) (db : Database) (dirs : Uuid → Option UploadDir)
    {plaintext : String} {row : UploadSession}
    (hparse : parseBearer req.authorization = some plaintext)
    (hrow : selectRequested db req.sessionNonce = some row)
    (hcheck : checkSession settings sha256Hex .audio run.now plaintext row = .ok ())
    (hdb : run.databaseFails = false) :
    AudioContract run (settings.maxBytes row.expectedSizeBytes) row (dirs row.id) db
        (uploadAudio settings sha256Hex req run db dirs) ↔
      run.Tidies (settings.maxBytes row.expectedSizeBytes) (dirs row.id) := by
  rw [audioContract_iff_store dirs hparse hrow hcheck hdb, storeContract_iff]

def audioSession : UploadSession where
  id := 7
  userId := 1
  bearerId := 3
  nonce := "nonce"
  uploadBearerHash := "token"
  kind := .audio
  transcriptionId := none
  expectedSizeBytes := 4
  expectedMimeType := none
  status := .requested
  expiresAt := 600000000
  createdAt := 0
  uploadedAt := none
  consumedAt := none

def audioDatabase : Database :=
  { (default : Database) with uploadSessions := ⟨[audioSession], List.nodup_singleton _⟩ }

/-- An upload of two chunks. -/
def twoChunks (second : BodyRead) : AudioRun where
  now := 0
  mkdirFails := false
  openFails := false
  inode := 0
  reads := [.chunk 1 [2], second]
  closeFails := false
  tooLargeUnlinkFails := false
  unlinkFails := false
  uploadedAt := 0
  databaseFails := false

theorem audioContract_iff_twoChunks :
    AudioContract (twoChunks (.chunk 3 [4])) (plainService.settings.maxBytes 4) audioSession none
      audioDatabase (uploadAudio plainService.settings plainService.sha256Hex uploadRequest
        (twoChunks (.chunk 3 [4])) audioDatabase fun _ => none) :=
  (audioContract_iff plainService.settings plainService.sha256Hex uploadRequest
    (twoChunks (.chunk 3 [4])) audioDatabase (fun _ => none)
    (show parseBearer uploadRequest.authorization = some "token" by decide +kernel)
    (show selectRequested audioDatabase "nonce" = some audioSession by rfl)
    (by rfl) rfl).mpr (by simp [AudioRun.Tidies, AudioRun.mkdirRaises, twoChunks, bodyEnd])

/-- The request is cancelled in the second read. -/
theorem not_forall_audioContract :
    ¬∀ (settings : Settings) (sha256Hex : Bytes → String) (req : UploadRequest) (run : AudioRun)
      (db : Database) (dirs : Uuid → Option UploadDir) (plaintext : String) (row : UploadSession),
      parseBearer req.authorization = some plaintext →
      selectRequested db req.sessionNonce = some row →
      checkSession settings sha256Hex .audio run.now plaintext row = .ok () →
      run.databaseFails = false →
        AudioContract run (settings.maxBytes row.expectedSizeBytes) row (dirs row.id) db
          (uploadAudio settings sha256Hex req run db dirs) := by
  intro h
  have hparse : parseBearer uploadRequest.authorization = some "token" := by decide +kernel
  have hrow : selectRequested audioDatabase uploadRequest.sessionNonce = some audioSession := by rfl
  have hcheck : checkSession plainService.settings plainService.sha256Hex .audio
      (twoChunks .cancelled).now "token" audioSession = .ok () := by rfl
  have htidies := storeContract_iff.mp ((audioContract_iff_store (fun _ => none) hparse hrow hcheck
    rfl).mp (h plainService.settings plainService.sha256Hex uploadRequest (twoChunks .cancelled)
      audioDatabase (fun _ => none) "token" audioSession hparse hrow hcheck rfl))
  have hunder : ¬plainService.settings.maxBytes audioSession.expectedSizeBytes <
      (received (twoChunks .cancelled).reads).length := by decide +kernel
  simp only [AudioRun.Tidies, AudioRun.mkdirRaises, if_neg hunder] at htidies
  simp [twoChunks, bodyEnd] at htidies

end Outcomes

/-! ### The handler of the service -/

section Handler

variable (sv : Service) {w : World} {p : ℕ} {row : UploadSession}

/-- What the awaits of the loop return. -/
def loopAwaits (maxBytes bytesWritten : ℕ) : List BodyRead → List Await
  | [] => [.chunk []]
  | .chunk b bs :: reads =>
      .chunk (b :: bs) ::
        if bytesWritten + (b :: bs).length > maxBytes then []
        else loopAwaits maxBytes (bytesWritten + (b :: bs).length) reads
  | .unwritable b bs :: _ =>
      if bytesWritten + (b :: bs).length > maxBytes then [.chunk (b :: bs)] else [.raised]
  | .raised :: _ => [.raised]
  | .cancelled :: _ => [.cancelled]

/-- The world in which the loop has ended. -/
def afterLoop (w : World) (p : ℕ) (row : UploadSession) (body : Bytes)
    (streamed : Option UploadDir × Option BodyEnd) : World :=
  let w := w.setDir row.id streamed.1
  match streamed.2 with
  | none =>
      unlinkAndFinish w p row
        (.error (fileTooLarge row (sv.settings.maxBytes row.expectedSizeBytes)))
  | some .finished => w.goto p (.writing (.uploaded row w.now body))
  | some .raised => unlinkAndFinish w p row .raised
  | some .cancelled => w.finish p [.uploadAnswered (some row.id) .raised]

theorem goto_goto (w : World) (p : ℕ) (h h' : Handler) : (w.goto p h).goto p h' = w.goto p h' := by
  simp [World.goto]

theorem setDir_self (w : World) (i : Uuid) : w.setDir i (w.dirs i) = w := by
  simp [World.setDir]

theorem setDir_goto (w : World) (p : ℕ) (h : Handler) (i : Uuid) (dir : Option UploadDir) :
    (w.goto p h).setDir i dir = (w.setDir i dir).goto p h := rfl

theorem finish_goto (w : World) (p : ℕ) (h : Handler) (es : List Entry) :
    (w.goto p h).finish p es = w.finish p es := by
  show ({ w with
    handlers := Function.update (Function.update w.handlers p (some h)) p none
    locks := _, deleteLocks := _, log := _ } : World) = _
  rw [Function.update_idem]
  rfl

theorem setDir_setDir (w : World) (i : Uuid) (dir dir' : Option UploadDir) :
    (w.setDir i dir).setDir i dir' = w.setDir i dir' := by
  simp [World.setDir]

theorem dirs_setDir (w : World) (i : Uuid) (dir : Option UploadDir) :
    (w.setDir i dir).dirs i = dir := Function.update_self ..

theorem afterLoop_setDir (w : World) (p : ℕ) (body : Bytes) (dir : Option UploadDir)
    (streamed : Option UploadDir × Option BodyEnd) :
    afterLoop sv (w.setDir row.id dir) p row body streamed =
      afterLoop sv w p row body streamed := by
  unfold afterLoop
  rw [setDir_setDir]

/-- The loop ends where the directory is left as it is. -/
theorem unlinkAndFinish_goto (w : World) (p : ℕ) (h : Handler) (answer : UploadAnswer) :
    unlinkAndFinish (w.goto p h) p row answer =
      unlinkAndFinish (w.setDir row.id (w.dirs row.id)) p row answer := by
  rw [setDir_self, unlinkAndFinish, setDir_goto, finish_goto]
  rfl

theorem step_go {h : Handler} {a : Await} :
    (service sv).step (w.goto p h) (go p a) = resume sv (w.goto p h) p (fun _ => .ok) h a := by
  have hp : (w.goto p h).handlers p = some h := Function.update_self ..
  show ((w.goto p h).handlers p).bind _ = _
  rw [hp, Option.bind_some]

/-- The handler reads the body as `streamBody` does. -/
theorem run_loopAwaits (reads : List BodyRead) (fh : Handle) (body : Bytes) :
    (service sv).run (w.goto p (.streaming row fh body))
        ((loopAwaits (sv.settings.maxBytes row.expectedSizeBytes) body.length reads).map (go p)) =
      some (afterLoop sv w p row (body ++ received reads)
        (streamBody (sv.settings.maxBytes row.expectedSizeBytes) (w.dirs row.id) fh body.length
          reads)) := by
  induction reads generalizing w fh body with
  | nil =>
      rw [loopAwaits, List.map_singleton, System.run_cons, step_go]
      show some ((w.goto p _).goto p (.writing (.uploaded row w.now body))) = _
      rw [goto_goto, afterLoop, received, List.append_nil]
      show _ = some ((w.setDir row.id (w.dirs row.id)).goto p (.writing (.uploaded row w.now body)))
      rw [setDir_self]
  | cons r reads ih =>
      cases r with
      | chunk b bs =>
          have hlength : (body ++ b :: bs).length = body.length + (b :: bs).length :=
            List.length_append
          rw [loopAwaits, streamBody, List.map_cons, System.run_cons, step_go]
          simp only [resume, resumeStreaming, hlength]
          split
          · rw [Option.bind_some, List.map_nil, System.run_nil, unlinkAndFinish_goto]
            rfl
          · rw [Option.bind_some, setDir_goto, goto_goto, ← hlength, ih, received,
              List.append_assoc, dirs_setDir, afterLoop_setDir]
            rfl
      | unwritable b bs =>
          have hlength : (body ++ b :: bs).length = body.length + (b :: bs).length :=
            List.length_append
          rw [loopAwaits, streamBody]
          split
          · rename_i hover
            rw [List.map_singleton, System.run_cons, step_go]
            simp only [resume, resumeStreaming, hlength, if_pos hover]
            rw [Option.bind_some, System.run_nil, unlinkAndFinish_goto]
            rfl
          · rw [List.map_singleton, System.run_cons, step_go]
            simp only [resume, resumeStreaming]
            rw [Option.bind_some, System.run_nil, unlinkAndFinish_goto]
            rfl
      | raised =>
          rw [loopAwaits, streamBody, List.map_singleton, System.run_cons, step_go]
          simp only [resume, resumeStreaming]
          rw [Option.bind_some, System.run_nil, unlinkAndFinish_goto]
          rfl
      | cancelled =>
          rw [loopAwaits, streamBody, List.map_singleton, System.run_cons, step_go]
          simp only [resume, resumeStreaming]
          rw [Option.bind_some, System.run_nil, finish_goto, afterLoop]
          simp only [setDir_self]

/-- The events of a handler for an upload that passes the checks. -/
def uploadEvents (p : ℕ) (req : UploadRequest) (maxBytes : ℕ) (reads : List BodyRead) :
    List Event :=
  .uploadAudio p req :: go p .ok :: (loopAwaits maxBytes 0 reads).map (go p) ++
    if maxBytes < (received reads).length ∨ bodyEnd reads ≠ .finished then []
    else [go p .ok, go p .ok]

/-- A run in which only reads and writes raise. -/
def plainRun (w : World) (reads : List BodyRead) : AudioRun where
  now := w.now
  mkdirFails := false
  openFails := false
  inode := w.nextInode
  reads
  closeFails := false
  tooLargeUnlinkFails := false
  unlinkFails := false
  uploadedAt := w.now
  databaseFails := false

theorem store_plainRun (maxBytes : ℕ) (reads : List BodyRead) (dir : Option UploadDir)
    {left : Option UploadDir} {end_ : Option BodyEnd}
    (h : streamBody maxBytes (some (openWb dir w.nextInode).1) (openWb dir w.nextInode).2 0 reads =
      (left, end_)) :
    (plainRun w reads).store maxBytes row dir =
      match end_ with
      | none => (unlinkOriginal left, some (.error (fileTooLarge row maxBytes)))
      | some .finished => (left, none)
      | some .raised => (unlinkOriginal left, some .raised)
      | some .cancelled => (left, some .raised) := by
  simp only [AudioRun.store, AudioRun.mkdirRaises, plainRun, Bool.and_false, h]
  cases end_ with
  | none => rfl
  | some e => cases e <;> rfl

/-- What a run answers and leaves when its loop has ended. -/
def plainResult (w : World) (row : UploadSession) (maxBytes : ℕ) (left : Option UploadDir) :
    Option BodyEnd → UploadAnswer × Database × (Uuid → Option UploadDir)
  | none =>
      (.error (fileTooLarge row maxBytes), w.db,
        Function.update w.dirs row.id (unlinkOriginal left))
  | some .finished =>
      (.ok row.id, { w.db with uploadSessions := markUploaded row.id w.now w.db.uploadSessions },
        Function.update w.dirs row.id left)
  | some .raised => (.raised, w.db, Function.update w.dirs row.id (unlinkOriginal left))
  | some .cancelled => (.raised, w.db, Function.update w.dirs row.id left)

theorem uploadAudio_plainRun {req : UploadRequest} {plaintext : String} {reads : List BodyRead}
    {left : Option UploadDir} {end_ : Option BodyEnd}
    (hparse : parseBearer req.authorization = some plaintext)
    (hrow : selectRequested w.db req.sessionNonce = some row)
    (hcheck : checkSession sv.settings sv.sha256Hex .audio w.now plaintext row = .ok ())
    (hstreamed : streamBody (sv.settings.maxBytes row.expectedSizeBytes)
      (some (openWb (w.dirs row.id) w.nextInode).1) (openWb (w.dirs row.id) w.nextInode).2 0
        reads = (left, end_)) :
    uploadAudio sv.settings sv.sha256Hex req (plainRun w reads) w.db w.dirs =
      plainResult w row (sv.settings.maxBytes row.expectedSizeBytes) left end_ := by
  have hnow : (plainRun w reads).now = w.now := rfl
  simp only [uploadAudio, hparse, hrow, hnow, hcheck, store_plainRun _ _ _ hstreamed]
  cases end_ with
  | none => rfl
  | some e => cases e <;> rfl

/-- The first two events open the file. -/
theorem run_open {req : UploadRequest} {plaintext : String} (hfree : w.handlers p = none)
    (hparse : parseBearer req.authorization = some plaintext)
    (hrow : selectRequested w.db req.sessionNonce = some row)
    (hcheck : checkSession sv.settings sv.sha256Hex .audio w.now plaintext row = .ok ())
    (es : List Event) :
    (service sv).run w (.uploadAudio p req :: go p .ok :: es) =
      (service sv).run ((({ w with nextInode := w.nextInode + 1 } : World).setDir row.id
        (some (openWb (w.dirs row.id) w.nextInode).1)).goto p
          (.streaming row (openWb (w.dirs row.id) w.nextInode).2 [])) es := by
  have hspawn : (service sv).step w (.uploadAudio p req) =
      some (w.goto p (.selected .audio plaintext none row w.now)) := by
    show w.spawn p (beginUpload w p .audio req none) = _
    simp [World.spawn, hfree, beginUpload, hparse, hrow]
  have hopen : (service sv).step (w.goto p (.selected .audio plaintext none row w.now)) (go p .ok) =
      some (openOriginal (w.goto p (.selected .audio plaintext none row w.now)) p row) := by
    have hnow : (w.goto p (.selected .audio plaintext none row w.now)).now = w.now := rfl
    rw [step_go]
    simp only [resume, resumeSelected, hnow, hcheck]
  rw [System.run_cons, hspawn, Option.bind_some, System.run_cons, hopen, Option.bind_some]
  show (service sv).run (World.goto (World.goto { w.setDir row.id _ with nextInode := _ } p _)
    p _) es = _
  rw [goto_goto]
  rfl

/-- The UPDATE and the COMMIT. -/
theorem run_commit (hlock : w.locks row.id = none) (body : Bytes) :
    ∃ t, (service sv).run (w.goto p (.writing (.uploaded row w.now body)))
        [go p .ok, go p .ok] = some t ∧
      t.log.getLast? = some (.uploadAnswered (some row.id) (.ok row.id)) ∧
      t.db = { w.db with uploadSessions := markUploaded row.id w.now w.db.uploadSessions } ∧
      t.dirs = w.dirs := by
  have hfree : (Write.uploaded row w.now body).ids.all (fun i => (w.locks i).isNone) = true := by
    simp [Write.ids, hlock]
  have hwrite : (service sv).step (w.goto p (.writing (.uploaded row w.now body))) (go p .ok) =
      some (World.goto { w with locks := fun i => if i ∈ [row.id] then some p else w.locks i } p
        (.committing (.uploaded row w.now body))) := by
    rw [step_go]
    show (if (Write.uploaded row w.now body).ids.all (fun i => (w.locks i).isNone) = true then
      some _ else none) = _
    rw [if_pos hfree]
    show some (World.goto (World.goto { w with locks := _ } p _) p _) = _
    rw [goto_goto]
    rfl
  rw [System.run_cons, hwrite, Option.bind_some, System.run_cons, step_go]
  exact ⟨_, rfl, List.getLast?_append_of_ne_nil w.log (by simp [Write.entries]), rfl, rfl⟩

/-- A handler that runs alone does what `uploadAudio` says: the same answer, the same
database and the same directories. -/
theorem run_uploadEvents {req : UploadRequest} {plaintext : String} (reads : List BodyRead)
    (hfree : w.handlers p = none) (hlock : w.locks row.id = none)
    (hparse : parseBearer req.authorization = some plaintext)
    (hrow : selectRequested w.db req.sessionNonce = some row)
    (hcheck : checkSession sv.settings sv.sha256Hex .audio w.now plaintext row = .ok ()) :
    ∃ t answer, (service sv).run w
        (uploadEvents p req (sv.settings.maxBytes row.expectedSizeBytes) reads) = some t ∧
      t.log.getLast? = some (.uploadAnswered (some row.id) answer) ∧
      uploadAudio sv.settings sv.sha256Hex req (plainRun w reads) w.db w.dirs =
        (answer, t.db, t.dirs) := by
  obtain ⟨inode, hfile⟩ := openWb_openFile (w.dirs row.id) w.nextInode
  obtain ⟨⟨left, hleft, -⟩, hend⟩ :=
    @streamBody_openFile (sv.settings.maxBytes row.expectedSizeBytes) reads inode []
  have hstreamed : streamBody (sv.settings.maxBytes row.expectedSizeBytes) (openFile inode [])
      ⟨inode, 0⟩ 0 reads = (openFile inode left,
        if sv.settings.maxBytes row.expectedSizeBytes < (received reads).length then none
        else some (bodyEnd reads)) := by
    have hend := hend (Nat.zero_le _)
    simp only [List.length_nil, Nat.zero_add] at hleft hend
    exact Prod.ext hleft hend
  have hopened : (some (openWb (w.dirs row.id) w.nextInode).1, (openWb (w.dirs row.id)
      w.nextInode).2) = (openFile inode [], (⟨inode, 0⟩ : Handle)) := by
    rw [hfile]
    rfl
  obtain ⟨hdir, hhandle⟩ := Prod.mk.inj hopened
  have hloop := @run_loopAwaits sv (({ w with nextInode := w.nextInode + 1 } : World).setDir
    row.id (openFile inode [])) p row reads ⟨inode, 0⟩ []
  rw [dirs_setDir, afterLoop_setDir, List.length_nil, hstreamed, List.nil_append] at hloop
  rw [← hdir, ← hhandle] at hstreamed
  rw [uploadAudio_plainRun sv hparse hrow hcheck hstreamed, uploadEvents, List.cons_append,
    List.cons_append, run_open sv hfree hparse hrow hcheck, System.run_append, hdir, hhandle,
    hloop, Option.bind_some]
  -- the directory is written twice, or once more by the `unlink`
  have hunlinked : Function.update (Function.update w.dirs row.id (openFile inode left)) row.id
      (unlinkOriginal (Function.update w.dirs row.id (openFile inode left) row.id)) =
        Function.update w.dirs row.id (unlinkOriginal (openFile inode left)) := by
    rw [Function.update_self, Function.update_idem]
  by_cases hover : sv.settings.maxBytes row.expectedSizeBytes < (received reads).length
  · rw [if_pos hover, if_pos (Or.inl hover)]
    exact ⟨_, _, rfl, List.getLast?_concat, congrArg _ (congrArg _ hunlinked.symm)⟩
  · rw [if_neg hover]
    cases hbody : bodyEnd reads with
    | finished =>
        rw [if_neg (by simp [hover])]
        obtain ⟨t, hrun, hlog, hdb, hdirs⟩ := @run_commit sv
          (({ w with nextInode := w.nextInode + 1 } : World).setDir row.id (openFile inode left))
          p row hlock (received reads)
        exact ⟨t, _, hrun, hlog, congrArg _ (Prod.ext hdb.symm hdirs.symm)⟩
    | raised =>
        rw [if_pos (.inr (by decide))]
        exact ⟨_, _, rfl, List.getLast?_concat, congrArg _ (congrArg _ hunlinked.symm)⟩
    | cancelled =>
        rw [if_pos (.inr (by decide))]
        exact ⟨_, _, rfl, List.getLast?_concat, rfl⟩

end Handler

end TranscriptionApi.Uploads
