import TranscriptionApi.Config

/-!
The directory `uploads/<id>/` of an upload session.

An upload keeps its file open while the body arrives, and nothing stops
another handler from truncating, unlinking or removing what it writes to. So a
stored file has an inode and an open handle names one: a write through a
handle whose inode is no longer in the directory is lost, as it is on disk.
-/

namespace TranscriptionApi.Uploads

/-- `original.bin`: an inode number and the bytes in it. -/
structure StoredFile where
  inode : ℕ
  bytes : Bytes
  deriving DecidableEq

/-- A per-upload directory. The normalized WAV the pipeline writes beside
`original.bin` belongs to the pipeline's own run and is not listed here. -/
structure UploadDir where
  original : Option StoredFile
  deriving DecidableEq

/-- A file object opened for writing. -/
structure Handle where
  inode : ℕ
  pos : ℕ
  deriving DecidableEq

/-- The bytes of a file after `chunk` is written at `pos`; a gap past the end
reads as zeros. -/
def writeAt (bytes : Bytes) (pos : ℕ) (chunk : Bytes) : Bytes :=
  bytes.take pos ++ List.replicate (pos - bytes.length) 0 ++ chunk ++
    bytes.drop (pos + chunk.length)

@[simp] theorem writeAt_end (bytes chunk : Bytes) :
    writeAt bytes bytes.length chunk = bytes ++ chunk := by
  simp [writeAt]

/-- `target_dir.mkdir(parents=True, exist_ok=True)` followed by
`target.open("wb")`: an existing file keeps its inode and loses its bytes. -/
def openWb (dir : Option UploadDir) (fresh : ℕ) : UploadDir × Handle :=
  let inode := match dir.bind (·.original) with
    | some f => f.inode
    | none => fresh
  (⟨some ⟨inode, []⟩⟩, ⟨inode, 0⟩)

/-- `fh.write(chunk)`. -/
def writeTo (dir : Option UploadDir) (fh : Handle) (chunk : Bytes) : Option UploadDir :=
  dir.map fun d => ⟨d.original.map fun f =>
    if f.inode = fh.inode then { f with bytes := writeAt f.bytes fh.pos chunk } else f⟩

/-- `target.unlink(missing_ok=True)`. -/
def unlinkOriginal (dir : Option UploadDir) : Option UploadDir :=
  dir.map fun _ => ⟨none⟩

/-- The exceptions a directory removal can raise, as far as the callers tell
them apart. -/
inductive OsError where
  | fileNotFound
  | permission
  | other
  deriving DecidableEq

/-- How `shutil.rmtree` ends on a directory that exists. A failed removal may
have unlinked some files already; `left` is what it leaves: nothing, or the
directory with or without `original.bin`. -/
inductive RmOutcome where
  | ok
  | failed (err : OsError) (left : Option Bool)
  deriving DecidableEq

/-- The directory after `shutil.rmtree`. -/
def rmtree (dir : Option UploadDir) : RmOutcome → Option UploadDir
  | .ok => none
  | .failed _ none => none
  | .failed _ (some keepOriginal) =>
      dir.map fun d => if keepOriginal then d else ⟨none⟩

@[simp] theorem rmtree_none (o : RmOutcome) : rmtree none o = none := by
  rcases o with _ | ⟨_, _ | _⟩ <;> rfl

end TranscriptionApi.Uploads
