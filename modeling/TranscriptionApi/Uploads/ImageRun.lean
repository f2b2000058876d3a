import TranscriptionApi.Uploads.AudioRun

/-!
One run of `upload_image`: a file outside the database, and two rows in it.

The blob is written before the transaction begins. A statement or a commit that
raises takes the rows back and leaves the blob, and a write that raises half way
leaves a part of it. Nothing removes either: no pass ever looks at the directory of
the blobs.
-/

namespace TranscriptionApi.Uploads

open Api Auth Db Lib Python

/-- How `blob_path.write_bytes(raw)` ends. -/
inductive BlobWrite where
  | written
  /-- it raises, with this much under the path -/
  | failed (left : Option Bytes)

/-- How the COMMIT ends. -/
inductive CommitEnd where
  | committed
  | rolledBack
  /-- the connection is lost after the server has committed -/
  | answerLost
  deriving DecidableEq

/-- What a run of `upload_image` meets. -/
structure ImageRun where
  now : ℤ
  /-- the body, unless `file.read` raises -/
  body : Option Bytes
  filename : Option String
  imageId : Uuid
  mkdirFails : Bool
  write : BlobWrite
  insertFails : Bool
  updateFails : Bool
  commit : CommitEnd
  createdAt : ℤ
  uploadedAt : ℤ

section UploadImage

variable (settings : Settings) (sha256Hex : Bytes → String) (req : UploadRequest)
  (run : ImageRun) (row : UploadSession) (db : Database) (blobs : String → Option Bytes)

/-- `file.read(max_bytes + 1)`. -/
def ImageRun.raw : Option Bytes :=
  run.body.map (·.take (settings.maxBytes row.expectedSizeBytes + 1))

/-- Everything before the image gets its id, on the session that was found: the body, its
extension and the transcription it goes to. -/
def acceptImage : Except UploadAnswer (Bytes × String × Uuid) :=
  match parseBearer req.authorization with
  | none => .error (.error bearerMissing)
  | some plaintext =>
      match checkSession settings sha256Hex .image run.now plaintext row with
      | .error answer => .error answer
      | .ok () =>
          match run.raw settings row with
          | none => .error .raised
          | some raw =>
              match checkImage settings row raw with
              | .error e => .error (.error e)
              | .ok (ext, tid) => .ok (raw, ext, tid)

/-- The transaction. -/
def commitImage (img : Image) : UploadAnswer × Database :=
  if run.insertFails then (.raised, db)
  else
    match db.images.insert? img with
    | none => (.raised, db)
    | some images =>
        if run.updateFails then (.raised, db)
        else
          let committed := { db with
            images
            uploadSessions := markUploaded row.id run.uploadedAt db.uploadSessions }
          match run.commit with
          | .committed => (.ok img.id, committed)
          | .rolledBack => (.raised, db)
          | .answerLost => (.raised, committed)

/-- Step 7. -/
def storeImage (raw : Bytes) (ext : String) (tid : Uuid) :
    UploadAnswer × Database × (String → Option Bytes) :=
  let img := imageRow settings row tid run.imageId ext run.filename raw run.createdAt
  if run.mkdirFails then (.raised, db, blobs)
  else
    match run.write with
    | .failed left => (.raised, db, Function.update blobs img.filePath left)
    | .written =>
        let result := commitImage run row db img
        (result.1, result.2, Function.update blobs img.filePath (some raw))

/-- `upload_image`. -/
def uploadImage : UploadAnswer × Database × (String → Option Bytes) :=
  match parseBearer req.authorization with
  | none => (.error bearerMissing, db, blobs)
  | some _ =>
      match selectRequested db req.sessionNonce with
      | none => (.error sessionNotFound, db, blobs)
      | some row =>
          match acceptImage settings sha256Hex req run row with
          | .error answer => (answer, db, blobs)
          | .ok (raw, ext, tid) => storeImage settings run row db blobs raw ext tid

/-! ### What is left -/

/-- There is a blob for the id that the run draws. -/
def BlobStored (blobs : String → Option Bytes) : Prop :=
  ∃ tid ext, (blobs (blobPath settings row tid run.imageId ext)).isSome = true

/-- The id is new: no blob and no row has it. -/
def FreshImage : Prop :=
  ¬BlobStored settings run row blobs ∧ db.images.find? run.imageId = none

/-- The blob is there exactly when the row is committed, with the bytes of the body; and
so is the mark on the session. -/
structure ImageContract (result : UploadAnswer × Database × (String → Option Bytes)) :
    Prop where
  blob : BlobStored settings run row result.2.2 ↔
    (result.2.1.images.find? run.imageId).isSome = true
  session : result.2.1.status? row.id = some .uploaded ↔
    (result.2.1.images.find? run.imageId).isSome = true
  bytes : ∀ img, result.2.1.images.find? run.imageId = some img →
    result.2.2 img.filePath = run.raw settings row

/-- A run that has the directory for its blob writes nothing of it, or writes it and commits
the rows. -/
def ImageRun.Completes : Prop :=
  ∀ stored, acceptImage settings sha256Hex req run row = .ok stored → run.mkdirFails = false →
    match run.write with
    | .failed left => left = none
    | .written => run.insertFails = false ∧ run.updateFails = false ∧ run.commit ≠ .rolledBack

variable {settings sha256Hex req run row db blobs}

theorem acceptImage_ok {raw : Bytes} {ext : String} {tid : Uuid}
    (h : acceptImage settings sha256Hex req run row = .ok (raw, ext, tid)) :
    (∃ plaintext, parseBearer req.authorization = some plaintext) ∧
      run.raw settings row = some raw := by
  unfold acceptImage at h
  split at h
  · cases h
  · rename_i plaintext hparse
    refine ⟨⟨plaintext, hparse⟩, ?_⟩
    split at h
    · cases h
    · split at h
      · cases h
      · rename_i hraw
        split at h
        · cases h
        · cases h
          exact hraw

theorem uploadImage_eq (hrow : selectRequested db req.sessionNonce = some row) :
    uploadImage settings sha256Hex req run db blobs =
      match acceptImage settings sha256Hex req run row with
      | .error answer => (answer, db, blobs)
      | .ok (raw, ext, tid) => storeImage settings run row db blobs raw ext tid := by
  unfold uploadImage
  cases hparse : parseBearer req.authorization with
  | none => simp only [acceptImage, hparse]
  | some plaintext => simp only [hrow]

/-- A run that changes nothing keeps the contract. -/
theorem imageContract_unchanged (hfresh : FreshImage settings run row db blobs)
    (hrequested : db.status? row.id = some .requested) (answer : UploadAnswer) :
    ImageContract settings run row (answer, db, blobs) where
  blob := by simp [hfresh.1, hfresh.2]
  session := by simp [hrequested, hfresh.2]
  bytes := fun img himg => by
    rw [hfresh.2] at himg
    cases himg

/-- Nothing but the path of the image has changed. -/
theorem blobStored_update (hfresh : ¬BlobStored settings run row blobs) {tid : Uuid}
    {ext : String} (left : Option Bytes) :
    BlobStored settings run row
        (Function.update blobs (blobPath settings row tid run.imageId ext) left) ↔
      left.isSome = true := by
  constructor
  · rintro ⟨tid', ext', hstored⟩
    rw [Function.update_apply] at hstored
    split at hstored
    · exact hstored
    · exact absurd ⟨tid', ext', hstored⟩ hfresh
  · intro hleft
    exact ⟨tid, ext, by rwa [Function.update_self]⟩

/-- A blob without its row breaks the contract. -/
theorem not_imageContract_orphan (hfresh : FreshImage settings run row db blobs) {tid : Uuid}
    {ext : String} (answer : UploadAnswer) (left : Bytes) :
    ¬ImageContract settings run row (answer, db,
      Function.update blobs (blobPath settings row tid run.imageId ext) (some left)) := by
  intro h
  have hrow := h.blob.mp ((blobStored_update hfresh.1 _).mpr rfl)
  rw [hfresh.2] at hrow
  cases hrow

/-- The blob with its row. -/
theorem imageContract_committed (hfresh : FreshImage settings run row db blobs)
    (hrequested : db.status? row.id = some .requested) {raw : Bytes}
    (hraw : run.raw settings row = some raw) (ext : String) (tid : Uuid)
    (answer : UploadAnswer) :
    ∃ images, db.images.insert?
        (imageRow settings row tid run.imageId ext run.filename raw run.createdAt) =
          some images ∧
      ImageContract settings run row (answer,
        { db with
          images
          uploadSessions := markUploaded row.id run.uploadedAt db.uploadSessions },
        Function.update blobs (blobPath settings row tid run.imageId ext) (some raw)) := by
  obtain ⟨images, hinsert⟩ := Option.isSome_iff_exists.mp (Table.insert?_isSome_iff.mpr
    (show db.images.find? (imageRow settings row tid run.imageId ext run.filename raw
      run.createdAt).id = none from hfresh.2))
  have hfind : images.find? run.imageId =
      some (imageRow settings row tid run.imageId ext run.filename raw run.createdAt) := by
    rw [Table.find?_insert? hinsert]
    exact if_pos rfl
  refine ⟨images, hinsert, ?_, ?_, fun img himg => ?_⟩
  · rw [blobStored_update hfresh.1]
    simp [hfind]
  · simp only [hfind, Option.isSome_some, iff_true]
    exact status?_markUploaded hrequested
  · cases hfind.symm.trans himg
    exact (Function.update_self ..).trans hraw.symm

theorem imageContract_storeImage (hfresh : FreshImage settings run row db blobs)
    (hrequested : db.status? row.id = some .requested) {raw : Bytes} {ext : String} {tid : Uuid}
    (hraw : run.raw settings row = some raw) (hmkdir : run.mkdirFails = false) :
    ImageContract settings run row (storeImage settings run row db blobs raw ext tid) ↔
      match run.write with
      | .failed left => left = none
      | .written =>
          run.insertFails = false ∧ run.updateFails = false ∧ run.commit ≠ .rolledBack := by
  cases hwrite : run.write with
  | failed left =>
      simp only [storeImage, hmkdir, hwrite]
      cases left with
      | none =>
          have hnone : blobs (blobPath settings row tid run.imageId ext) = none := by
            rw [← Option.not_isSome_iff_eq_none]
            exact fun hstored => hfresh.1 ⟨tid, ext, hstored⟩
          refine iff_of_true ?_ rfl
          show ImageContract settings run row (_, db,
            Function.update blobs (blobPath settings row tid run.imageId ext) none)
          rw [← hnone, Function.update_eq_self]
          exact imageContract_unchanged hfresh hrequested .raised
      | some left => exact iff_of_false (not_imageContract_orphan hfresh _ left) (by simp)
  | written =>
      obtain ⟨images, hinsert, hcommitted⟩ :=
        imageContract_committed hfresh hrequested hraw ext tid (.ok run.imageId)
      simp only [storeImage, hmkdir, hwrite, commitImage]
      cases hins : run.insertFails with
      | true => exact iff_of_false (not_imageContract_orphan hfresh _ raw) (by simp)
      | false =>
          simp only [hinsert]
          cases hupd : run.updateFails with
          | true => exact iff_of_false (not_imageContract_orphan hfresh _ raw) (by simp)
          | false =>
              cases hcommit : run.commit with
              | committed => exact iff_of_true hcommitted (by simp)
              | rolledBack =>
                  exact iff_of_false (not_imageContract_orphan hfresh _ raw) (by simp)
              | answerLost =>
                  -- the rows are there all the same
                  refine iff_of_true ?_ (by simp)
                  exact ⟨hcommitted.blob, hcommitted.session, hcommitted.bytes⟩

/-- Whatever becomes of a run on a requested session: there is a blob for its id exactly
when the row is committed and the session marked, if and only if it writes the blob and then
commits, or does not get so far as to write one. -/
theorem imageContract_iff (settings : Settings) (sha256Hex : Bytes → String)
    (req : UploadRequest) (run : ImageRun) (row : UploadSession) (db : Database)
    (blobs : String → Option Bytes) (hrow : selectRequested db req.sessionNonce = some row)
    (hfresh : FreshImage settings run row db blobs) :
    ImageContract settings run row (uploadImage settings sha256Hex req run db blobs) ↔
      run.Completes settings sha256Hex req row := by
  obtain ⟨hfind, -, hstatus⟩ := selectRequested_spec hrow
  have hrequested : db.status? row.id = some .requested :=
    Database.status?_eq_some_iff.mpr ⟨row, hfind, hstatus⟩
  rw [uploadImage_eq hrow]
  unfold ImageRun.Completes
  cases haccept : acceptImage settings sha256Hex req run row with
  | error answer =>
      refine iff_of_true (imageContract_unchanged hfresh hrequested answer) ?_
      intro stored hstored
      cases hstored
  | ok stored =>
      obtain ⟨raw, ext, tid⟩ := stored
      have hraw := (acceptImage_ok haccept).2
      cases hmkdir : run.mkdirFails with
      | true =>
          refine iff_of_true ?_ fun _ _ h => by cases h
          simp only [storeImage, hmkdir]
          exact imageContract_unchanged hfresh hrequested .raised
      | false =>
          show ImageContract settings run row (storeImage settings run row db blobs raw ext tid) ↔ _
          rw [imageContract_storeImage hfresh hrequested hraw hmkdir]
          exact ⟨fun h _ _ _ => h, fun h => h _ rfl rfl⟩

end UploadImage

def imageSession : UploadSession :=
  { audioSession with
    kind := .image
    transcriptionId := some 9
    expectedSizeBytes := 8
    expectedMimeType := some "image/png" }

def imageDatabase : Database :=
  { (default : Database) with uploadSessions := ⟨[imageSession], List.nodup_singleton _⟩ }

/-- The eight bytes that make a PNG. -/
def pngRun (insertFails : Bool) : ImageRun where
  now := 0
  body := some [0x89, 0x50, 0x4e, 0x47, 0x0d, 0x0a, 0x1a, 0x0a]
  filename := none
  imageId := 20
  mkdirFails := false
  write := .written
  insertFails
  updateFails := false
  commit := .committed
  createdAt := 0
  uploadedAt := 0

theorem freshImage_pngRun (insertFails : Bool) :
    FreshImage plainService.settings (pngRun insertFails) imageSession imageDatabase
      fun _ => none := by
  refine ⟨?_, rfl⟩
  rintro ⟨tid, ext, hstored⟩
  cases hstored

theorem imageContract_iff_pngRun :
    ImageContract plainService.settings (pngRun false) imageSession
      (uploadImage plainService.settings plainService.sha256Hex uploadRequest (pngRun false)
        imageDatabase fun _ => none) :=
  (imageContract_iff plainService.settings plainService.sha256Hex uploadRequest (pngRun false)
    imageSession imageDatabase (fun _ => none) (by rfl) (freshImage_pngRun false)).mpr
    fun _ _ _ => ⟨rfl, rfl, by decide⟩

/-- The INSERT raises, and the blob stays. -/
theorem not_forall_imageContract :
    ¬∀ (settings : Settings) (sha256Hex : Bytes → String) (req : UploadRequest) (run : ImageRun)
      (row : UploadSession) (db : Database) (blobs : String → Option Bytes),
      selectRequested db req.sessionNonce = some row → FreshImage settings run row db blobs →
        ImageContract settings run row (uploadImage settings sha256Hex req run db blobs) := by
  intro h
  have hrow : selectRequested imageDatabase uploadRequest.sessionNonce = some imageSession := by rfl
  have hparse : parseBearer uploadRequest.authorization = some "token" := by decide +kernel
  have hcheck : checkSession plainService.settings plainService.sha256Hex .image
      (pngRun true).now "token" imageSession = .ok () := by rfl
  have hraw : (pngRun true).raw plainService.settings imageSession =
      some [0x89, 0x50, 0x4e, 0x47, 0x0d, 0x0a, 0x1a, 0x0a] := by decide +kernel
  have himage : checkImage plainService.settings imageSession
      [0x89, 0x50, 0x4e, 0x47, 0x0d, 0x0a, 0x1a, 0x0a] = .ok ("png", 9) := by decide +kernel
  have haccept : acceptImage plainService.settings plainService.sha256Hex uploadRequest
      (pngRun true) imageSession =
        .ok ([0x89, 0x50, 0x4e, 0x47, 0x0d, 0x0a, 0x1a, 0x0a], "png", 9) := by
    simp only [acceptImage, hparse, hcheck, hraw, himage]
  have hcontract := h plainService.settings plainService.sha256Hex uploadRequest (pngRun true)
    imageSession imageDatabase (fun _ => none) hrow (freshImage_pngRun true)
  rw [uploadImage_eq hrow, haccept] at hcontract
  exact not_imageContract_orphan (freshImage_pngRun true) _ _ hcontract

/-! ### The handler of the service -/

section Handler

variable (sv : Service) {w : World} {p : ℕ} {row : UploadSession}

/-- A run that writes its blob, with what becomes of the transaction. -/
def storedRun (w : World) (raw : Bytes) (filename : Option String) (imageId : Uuid)
    (updateFails : Bool) (commit : CommitEnd) : ImageRun where
  now := w.now
  body := some raw
  filename
  imageId
  mkdirFails := false
  write := .written
  insertFails := false
  updateFails
  commit
  createdAt := w.now
  uploadedAt := w.now

def CommitEnd.await : CommitEnd → Await
  | .committed => .ok
  | .rolledBack => .raised
  | .answerLost => .lost

/-- What the handler awaits in its transaction. -/
def transactionAwaits (updateFails : Bool) (commit : CommitEnd) : List Await :=
  if updateFails then [.raised] else [.ok, commit.await]

/-- The events of a handler for an image that passes the checks. -/
def imageEvents (p : ℕ) (req : UploadRequest) (filename : Option String) (raw : Bytes)
    (imageId : Uuid) (updateFails : Bool) (commit : CommitEnd) : List Event :=
  .uploadImage p req filename :: go p .ok :: go p (.body raw imageId) ::
    (transactionAwaits updateFails commit).map (go p)

theorem length_of_checkImage {settings : Settings} {raw : Bytes} {ext : String} {tid : Uuid}
    (h : checkImage settings row raw = .ok (ext, tid)) :
    raw.length ≤ settings.maxBytes row.expectedSizeBytes := by
  simp only [checkImage] at h
  split at h
  · cases h
  · rename_i hunder
    exact Nat.not_lt.mp hunder

/-- The first three events write the blob. -/
theorem run_body {req : UploadRequest} {plaintext ext : String} {tid : Uuid} {raw : Bytes}
    (filename : Option String) (imageId : Uuid) (hfree : w.handlers p = none)
    (hparse : parseBearer req.authorization = some plaintext)
    (hrow : selectRequested w.db req.sessionNonce = some row)
    (hcheck : checkSession sv.settings sv.sha256Hex .image w.now plaintext row = .ok ())
    (himage : checkImage sv.settings row raw = .ok (ext, tid)) (es : List Event) :
    (service sv).run w
        (.uploadImage p req filename :: go p .ok :: go p (.body raw imageId) :: es) =
      (service sv).run (World.goto { w with
          blobs := Function.update w.blobs (blobPath sv.settings row tid imageId ext) (some raw) }
        p (.writing (.imageUploaded row w.now
          (imageRow sv.settings row tid imageId ext filename raw w.now)))) es := by
  have hspawn : (service sv).step w (.uploadImage p req filename) =
      some (w.goto p (.selected .image plaintext filename row w.now)) := by
    show w.spawn p (beginUpload w p .image req filename) = _
    simp [World.spawn, hfree, beginUpload, hparse, hrow]
  have hselected : (service sv).step (w.goto p (.selected .image plaintext filename row w.now))
      (go p .ok) = some (w.goto p (.reading filename row w.now)) := by
    have hnow : (w.goto p (.selected .image plaintext filename row w.now)).now = w.now := rfl
    rw [step_go]
    simp only [resume, resumeSelected, hnow, hcheck]
    rw [goto_goto]
  have hread : (service sv).step (w.goto p (.reading filename row w.now))
      (go p (.body raw imageId)) = some (World.goto { w with
          blobs := Function.update w.blobs (blobPath sv.settings row tid imageId ext) (some raw) }
        p (.writing (.imageUploaded row w.now
          (imageRow sv.settings row tid imageId ext filename raw w.now)))) := by
    rw [step_go]
    simp only [resume, resumeReading, himage]
    rw [goto_goto]
    rfl
  rw [System.run_cons, hspawn, Option.bind_some, System.run_cons, hselected, Option.bind_some,
    System.run_cons, hread, Option.bind_some]

/-- The rest of them are the transaction. -/
theorem run_transaction (hlock : w.locks row.id = none) (img : Image) {images}
    (hinsert : w.db.images.insert? img = some images) (updateFails : Bool) (commit : CommitEnd) :
    ∃ t, (service sv).run (w.goto p (.writing (.imageUploaded row w.now img)))
        ((transactionAwaits updateFails commit).map (go p)) = some t ∧
      t.log.getLast? = some (.uploadAnswered (some row.id)
        (if updateFails = false ∧ commit = .committed then .ok img.id else .raised)) ∧
      t.db = (if updateFails = false ∧ commit ≠ .rolledBack then { w.db with
          images
          uploadSessions := markUploaded row.id w.now w.db.uploadSessions }
        else w.db) ∧
      t.blobs = w.blobs := by
  have hfree : (Write.imageUploaded row w.now img).ids.all (fun i => (w.locks i).isNone) =
      true := by
    simp [Write.ids, hlock]
  have hwrite : (service sv).step (w.goto p (.writing (.imageUploaded row w.now img)))
      (go p .ok) =
        some (World.goto { w with locks := fun i => if i ∈ [row.id] then some p else w.locks i }
          p (.committing (.imageUploaded row w.now img))) := by
    rw [step_go]
    show (if (Write.imageUploaded row w.now img).ids.all (fun i => (w.locks i).isNone) = true
      then some _ else none) = _
    rw [if_pos hfree]
    show some (World.goto (World.goto { w with locks := _ } p _) p _) = _
    rw [goto_goto]
    rfl
  cases updateFails with
  | true =>
      rw [transactionAwaits, if_pos rfl, List.map_singleton, System.run_cons, step_go]
      refine ⟨_, rfl, List.getLast?_concat, rfl, rfl⟩
  | false =>
      rw [transactionAwaits, if_neg (by decide), List.map_cons, List.map_singleton,
        System.run_cons, hwrite, Option.bind_some, System.run_cons, step_go]
      have happly : (Write.imageUploaded row w.now img).apply w.db = some { w.db with
          images
          uploadSessions := markUploaded row.id w.now w.db.uploadSessions } := by
        simp only [Write.apply, hinsert]
        rfl
      have hlast (a : Await) : (w.log ++ (Write.imageUploaded row w.now img).entries a).getLast? =
          some ((Write.imageUploaded row w.now img).answer a) := by
        simp [Write.entries, ← List.append_assoc]
      cases commit with
      | rolledBack => exact ⟨_, rfl, List.getLast?_concat, rfl, rfl⟩
      | committed =>
          show ∃ t, (Option.bind (((Write.imageUploaded row w.now img).apply w.db).map _)
            fun s' => (service sv).run s' []) = some t ∧ _
          rw [happly]
          exact ⟨_, rfl, hlast .ok, rfl, rfl⟩
      | answerLost =>
          show ∃ t, (Option.bind (((Write.imageUploaded row w.now img).apply w.db).map _)
            fun s' => (service sv).run s' []) = some t ∧ _
          rw [happly]
          exact ⟨_, rfl, hlast .lost, rfl, rfl⟩

/-- A handler that runs alone does what `uploadImage` says: the same answer, the same
database and the same blobs. -/
theorem run_imageEvents {req : UploadRequest} {plaintext ext : String} {tid : Uuid} {raw : Bytes}
    (filename : Option String) (imageId : Uuid) (updateFails : Bool) (commit : CommitEnd)
    (hfree : w.handlers p = none) (hlock : w.locks row.id = none)
    (hparse : parseBearer req.authorization = some plaintext)
    (hrow : selectRequested w.db req.sessionNonce = some row)
    (hcheck : checkSession sv.settings sv.sha256Hex .image w.now plaintext row = .ok ())
    (himage : checkImage sv.settings row raw = .ok (ext, tid))
    (hfresh : w.db.images.find? imageId = none) :
    ∃ t answer, (service sv).run w
        (imageEvents p req filename raw imageId updateFails commit) = some t ∧
      t.log.getLast? = some (.uploadAnswered (some row.id) answer) ∧
      uploadImage sv.settings sv.sha256Hex req
        (storedRun w raw filename imageId updateFails commit) w.db w.blobs =
          (answer, t.db, t.blobs) := by
  obtain ⟨images, hinsert⟩ := Option.isSome_iff_exists.mp (Table.insert?_isSome_iff.mpr
    (show w.db.images.find? (imageRow sv.settings row tid imageId ext filename raw w.now).id =
      none from hfresh))
  have hraw : (storedRun w raw filename imageId updateFails commit).raw sv.settings row =
      some raw := by
    have hlength := length_of_checkImage himage
    simp only [ImageRun.raw, storedRun, Option.map_some]
    rw [List.take_of_length_le (by omega)]
  have haccept : acceptImage sv.settings sv.sha256Hex req
      (storedRun w raw filename imageId updateFails commit) row = .ok (raw, ext, tid) := by
    have hnow : (storedRun w raw filename imageId updateFails commit).now = w.now := rfl
    simp only [acceptImage, hparse, hnow, hcheck, hraw, himage]
  obtain ⟨t, hrun, hlog, hdb, hblobs⟩ := @run_transaction sv
    { w with
      blobs := Function.update w.blobs (blobPath sv.settings row tid imageId ext) (some raw) }
    p row hlock (imageRow sv.settings row tid imageId ext filename raw w.now) images hinsert
    updateFails commit
  refine ⟨t, _, ?_, hlog, ?_⟩
  · rw [imageEvents, run_body sv filename imageId hfree hparse hrow hcheck himage]
    exact hrun
  · rw [uploadImage_eq hrow, haccept, hdb, hblobs]
    simp only [storeImage, storedRun, commitImage, hinsert]
    cases updateFails with
    | true => rfl
    | false => cases commit <;> rfl

end Handler

end TranscriptionApi.Uploads
