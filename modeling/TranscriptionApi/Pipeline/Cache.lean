import TranscriptionApi.Config
import TranscriptionApi.Lib.FileTree
import TranscriptionApi.Lib.Json.RoundTrip
import TranscriptionApi.Python

/-!
`CacheStore`: one `result.json` for each user and audio hash, in
`<base_dir>/<user_id>/<audio_hash>/`. The store keeps no state of its own, so
that an instance is its base directory, and what it does is what it does to the
file system.
-/

namespace TranscriptionApi.Pipeline

open Lib Python

variable {φ : Type} (P : Json.Interpreter φ) (base : Path)

inductive CacheError where
  /-- the `ValueError` of `_validate_audio_hash` -/
  | invalidHash
  /-- `UnicodeDecodeError` -/
  | unicode
  | loads (e : Json.LoadsError)
  | dumps (e : Json.DumpsError)
  | os (e : Errno)
  deriving DecidableEq

/-- `_AUDIO_HASH_RE.fullmatch`. -/
def validAudioHash (audioHash : String) : Bool :=
  audioHash.length = 64 && audioHash.toList.all fun c =>
    (48 ≤ c.toNat && c.toNat ≤ 57) || (97 ≤ c.toNat && c.toNat ≤ 102)

/-- The digest of sixty-four times `a`, for examples. -/
def sampleHash : String := String.ofList (List.replicate 64 'a')

def resultFilename : String := "result.json"

/-- `path.with_suffix(path.suffix + ".tmp")`. -/
def tmpFilename : String := "result.json.tmp"

def userDir (userId : Uuid) : Path := base ++ [uuidStr userId]

def entryDir (userId : Uuid) (audioHash : String) : Path := base ++ [uuidStr userId, audioHash]

def entryPath (userId : Uuid) (audioHash : String) : Path :=
  entryDir base userId audioHash ++ [resultFilename]

/-- `json.loads(path.read_text(encoding="utf-8"))` and its `except` clause. The
value `null` reads as `None`, as a miss does. -/
def readEntry (bytes : Bytes) : Except CacheError (Option (Json.Value φ)) :=
  match decodeUtf8 bytes with
  | none => .error .unicode
  | some text =>
      match Json.loads P.floats P.limits (universalNewlines text) with
      | .ok .null => .ok none
      | .ok v => .ok (some v)
      -- only `JSONDecodeError` is caught
      | .error .decode => .ok none
      | .error e => .error (.loads e)

namespace CacheStore

def get (t : FileTree Bytes) (userId : Uuid) (audioHash : String) :
    Except CacheError (Option (Json.Value φ)) :=
  if validAudioHash audioHash then
    match t.file? (entryPath base userId audioHash) with
    | none => .ok none
    | some (bytes, _) => readEntry P bytes
  else .error .invalidHash

/-- The write to the temporary file and the rename. -/
def writeEntry (t : FileTree Bytes) (dir : Path) (text : List Char) (now : ℤ) :
    Except CacheError Unit × FileTree Bytes :=
  match t.writeFile dir tmpFilename (encodeUtf8 text) now with
  | .error e => (.error (.os e), t)
  | .ok t₁ =>
      match t₁.replace dir tmpFilename resultFilename with
      | .error e => (.error (.os e), t₁)
      | .ok t₂ => (.ok (), t₂)

def put (t : FileTree Bytes) (userId : Uuid) (audioHash : String) (payload : Json.Value φ)
    (now : ℤ) : Except CacheError Unit × FileTree Bytes :=
  if validAudioHash audioHash then
    let dir := entryDir base userId audioHash
    match t.mkdirs [] dir with
    | (some e, t₁) => (.error (.os e), t₁)
    | (none, t₁) =>
        -- the directories stay when the payload cannot be printed
        match Json.dumps P.floats P.limits payload with
        | .error e => (.error (.dumps e), t₁)
        | .ok text => writeEntry t₁ dir text now
  else (.error .invalidHash, t)

def delete (t : FileTree Bytes) (userId : Uuid) (audioHash : String) :
    Except CacheError Unit × FileTree Bytes :=
  if validAudioHash audioHash then
    match t.unlink (entryDir base userId audioHash) resultFilename with
    | .error .noEntry => (.ok (), t)
    | .error e => (.error (.os e), t)
    | .ok t₁ =>
        -- best effort: the directory may not be empty
        match t₁.rmdir (userDir base userId) audioHash with
        | .error _ => (.ok (), t₁)
        | .ok t₂ => (.ok (), t₂)
  else (.error .invalidHash, t)

end CacheStore

/-! ### Where the entries are -/

def tmpPath (userId : Uuid) (audioHash : String) : Path :=
  entryDir base userId audioHash ++ [tmpFilename]

variable {base} {u u' : Uuid} {h h' : String}

theorem length_of_validAudioHash (hh : validAudioHash h = true) : h.length = 64 := by
  simp only [validAudioHash, Bool.and_eq_true, decide_eq_true_eq] at hh
  exact hh.1

/-- Different keys have different files. -/
theorem entryPath_injective (heq : entryPath base u h = entryPath base u' h') :
    u = u' ∧ h = h' := by
  simp only [entryPath, entryDir, List.append_assoc, List.cons_append, List.nil_append,
    List.append_cancel_left_eq, List.cons.injEq, and_true] at heq
  exact ⟨uuidStr_injective heq.1, heq.2⟩

theorem entryPath_ne_tmpPath : entryPath base u h ≠ tmpPath base u' h' := by
  intro heq
  have hlast := congrArg List.getLast? heq
  simp [entryPath, tmpPath, resultFilename, tmpFilename] at hlast

theorem length_entryPath : (entryPath base u h).length = base.length + 3 := by
  simp [entryPath, entryDir]

theorem length_tmpPath : (tmpPath base u h).length = base.length + 3 := by
  simp [tmpPath, entryDir]

theorem length_above {q : Path} (hq : q <+: entryDir base u h) : q.length ≤ base.length + 2 := by
  simpa [entryDir] using hq.length_le

theorem entryPath_not_above : ¬entryPath base u h <+: entryDir base u' h' := by
  intro habove
  have := length_above habove
  rw [length_entryPath] at this
  omega

theorem tmpPath_not_above : ¬tmpPath base u h <+: entryDir base u' h' := by
  intro habove
  have := length_above habove
  rw [length_tmpPath] at this
  omega

/-! ### What the calls do -/

variable {P} {t t' : FileTree Bytes} {dir q : Path} {text : List Char} {now : ℤ}

theorem file?_writeEntry_of_ne (hresult : q ≠ dir ++ [resultFilename])
    (htmp : q ≠ dir ++ [tmpFilename]) :
    (CacheStore.writeEntry t dir text now).2.file? q = t.file? q := by
  unfold CacheStore.writeEntry
  split
  · rfl
  · rename_i t₁ hwrite
    have hfile : t₁.file? q = t.file? q := by
      rw [FileTree.file?_writeFile hwrite, if_neg htmp]
    split
    · exact hfile
    · rename_i t₂ hreplace
      obtain ⟨content, mtime, -, hsrc, -, -⟩ := FileTree.replace_ok hreplace
      rw [FileTree.file?_replace hreplace hsrc, if_neg hresult, if_neg htmp, hfile]

theorem isDir_writeEntry : (CacheStore.writeEntry t dir text now).2.isDir q = t.isDir q := by
  unfold CacheStore.writeEntry
  split
  · rfl
  · rename_i t₁ hwrite
    split
    · exact FileTree.isDir_writeFile hwrite
    · rename_i t₂ hreplace
      exact (FileTree.isDir_replace hreplace).trans (FileTree.isDir_writeFile hwrite)

theorem file?_writeEntry_ok (hok : (CacheStore.writeEntry t dir text now).1 = .ok ()) (q : Path) :
    (CacheStore.writeEntry t dir text now).2.file? q =
      if q = dir ++ [resultFilename] then some (encodeUtf8 text, now)
      else if q = dir ++ [tmpFilename] then none else t.file? q := by
  unfold CacheStore.writeEntry at hok ⊢
  split at hok
  · cases hok
  · rename_i t₁ hwrite
    have hsrc : t₁.file? (dir ++ [tmpFilename]) = some (encodeUtf8 text, now) := by
      rw [FileTree.file?_writeFile hwrite, if_pos rfl]
    split at hok
    · cases hok
    · rename_i t₂ hreplace
      rw [FileTree.file?_replace hreplace hsrc]
      split
      · rfl
      · split
        · rfl
        · rename_i htmp
          rw [FileTree.file?_writeFile hwrite, if_neg htmp]

/-- A failed write leaves the entry alone. -/
theorem file?_writeEntry_error {e : CacheError}
    (herror : (CacheStore.writeEntry t dir text now).1 = .error e) :
    (CacheStore.writeEntry t dir text now).2.file? (dir ++ [resultFilename]) =
      t.file? (dir ++ [resultFilename]) := by
  unfold CacheStore.writeEntry at herror ⊢
  split at herror
  · rfl
  · rename_i t₁ hwrite
    split at herror
    · rw [FileTree.file?_writeFile hwrite, if_neg]
      simp [resultFilename, tmpFilename]
    · cases herror

/-- In a directory, with no directory for a result, only the place of the
temporary file decides. -/
theorem writeEntry_fst (hdir : t.isDir dir = true)
    (hresult : t.isDir (dir ++ [resultFilename]) = false) :
    (CacheStore.writeEntry t dir text now).1 =
      if t.isDir (dir ++ [tmpFilename]) then .error (.os .isDirectory) else .ok () := by
  by_cases htmp : t.isDir (dir ++ [tmpFilename]) = true
  · have hwrite : t.writeFile dir tmpFilename (encodeUtf8 text) now = .error .isDirectory :=
      FileTree.writeFile_isDirectory hdir htmp
    simp [CacheStore.writeEntry, hwrite, htmp]
  · obtain ⟨t₁, hwrite⟩ : ∃ t₁, t.writeFile dir tmpFilename (encodeUtf8 text) now = .ok t₁ :=
      FileTree.writeFile_isOk hdir (Bool.eq_false_iff.mpr htmp)
    obtain ⟨t₂, hreplace⟩ := FileTree.replace_isOk
      ((FileTree.isDir_writeFile hwrite).trans hdir)
      ((FileTree.file?_writeFile hwrite _).trans (if_pos rfl))
      ((FileTree.isDir_writeFile hwrite).trans hresult)
    simp [CacheStore.writeEntry, hwrite, hreplace, htmp]

variable {payload : Json.Value φ}

/-- `put` past its directories. -/
theorem put_of_mkdirs (hh : validAudioHash h = true)
    (hmade : (t.mkdirs [] (entryDir base u h)).1 = none) :
    CacheStore.put P base t u h payload now =
      match Json.dumps P.floats P.limits payload with
      | .error e => (.error (.dumps e), (t.mkdirs [] (entryDir base u h)).2)
      | .ok text =>
          CacheStore.writeEntry (t.mkdirs [] (entryDir base u h)).2 (entryDir base u h) text
            now := by
  rcases hm : t.mkdirs [] (entryDir base u h) with ⟨e, t₁⟩
  rw [hm] at hmade
  cases hmade
  simp only [CacheStore.put, if_pos hh, hm]

/-- What a `put` can come to: it stops before it writes, or it writes. -/
theorem put_cases (t : FileTree Bytes) (u : Uuid) (h : String) (payload : Json.Value φ) (now : ℤ) :
    (∃ e, CacheStore.put P base t u h payload now = (.error e, t) ∨
      CacheStore.put P base t u h payload now = (.error e, (t.mkdirs [] (entryDir base u h)).2)) ∨
    ∃ text, validAudioHash h = true ∧ Json.dumps P.floats P.limits payload = .ok text ∧
      CacheStore.put P base t u h payload now =
        CacheStore.writeEntry (t.mkdirs [] (entryDir base u h)).2 (entryDir base u h) text now := by
  by_cases hh : validAudioHash h = true
  · cases hmade : (t.mkdirs [] (entryDir base u h)).1 with
    | some e =>
        rcases hm : t.mkdirs [] (entryDir base u h) with ⟨e', t₁⟩
        rw [hm] at hmade
        cases hmade
        refine .inl ⟨.os e, .inr ?_⟩
        simp only [CacheStore.put, if_pos hh, hm]
    | none =>
        rw [put_of_mkdirs hh hmade]
        cases htext : Json.dumps P.floats P.limits payload with
        | error e => exact .inl ⟨.dumps e, .inr rfl⟩
        | ok text => exact .inr ⟨text, hh, rfl, rfl⟩
  · refine .inl ⟨.invalidHash, .inl ?_⟩
    rw [CacheStore.put, if_neg hh]

/-- Where no file is above the entry and no directory in its place, the text and
the place of the temporary file decide how a `put` ends. -/
theorem put_fst (hh : validAudioHash h = true)
    (habove : ∀ q, q <+: entryDir base u h → t.file? q = none)
    (hresult : t.isDir (entryPath base u h) = false) :
    (CacheStore.put P base t u h payload now).1 =
      match Json.dumps P.floats P.limits payload with
      | .error e => .error (.dumps e)
      | .ok _ => if t.isDir (tmpPath base u h) then .error (.os .isDirectory) else .ok () := by
  obtain ⟨hmade, hdir⟩ := FileTree.mkdirs_ok (entryDir base u h) ((t.isDir_iff).mpr t.root) habove
  rw [put_of_mkdirs hh hmade]
  cases Json.dumps P.floats P.limits payload with
  | error e => rfl
  | ok text =>
      have hstays (q : Path) (hq : ¬q <+: entryDir base u h) :
          (t.mkdirs [] (entryDir base u h)).2.isDir q = t.isDir q :=
        FileTree.isDir_mkdirs_of_not_above hq
      have htmp : (t.mkdirs [] (entryDir base u h)).2.isDir (tmpPath base u h) =
          t.isDir (tmpPath base u h) := hstays _ tmpPath_not_above
      rw [← htmp]
      exact writeEntry_fst hdir ((hstays _ entryPath_not_above).trans hresult)

/-- `put` touches the file of its entry and the temporary file beside it. -/
theorem file?_put_of_ne (hresult : q ≠ entryPath base u h) (htmp : q ≠ tmpPath base u h) :
    (CacheStore.put P base t u h payload now).2.file? q = t.file? q := by
  rcases put_cases t u h payload now with ⟨e, heq | heq⟩ | ⟨text, -, -, heq⟩
  · rw [heq]
  · rw [heq, FileTree.file?_mkdirs]
  · rw [heq, file?_writeEntry_of_ne hresult htmp, FileTree.file?_mkdirs]

theorem isDir_put (hq : (CacheStore.put P base t u h payload now).2.isDir q = true) :
    t.isDir q = true ∨ q <+: entryDir base u h := by
  rw [← List.nil_append (entryDir base u h)]
  rcases put_cases t u h payload now with ⟨e, heq | heq⟩ | ⟨text, -, -, heq⟩
  · rw [heq] at hq
    exact .inl hq
  · rw [heq] at hq
    exact FileTree.isDir_mkdirs hq
  · rw [heq, isDir_writeEntry] at hq
    exact FileTree.isDir_mkdirs hq

/-- A `put` that returns has stored the text of its payload. -/
theorem put_ok (hok : (CacheStore.put P base t u h payload now).1 = .ok ()) :
    validAudioHash h = true ∧ ∃ text, Json.dumps P.floats P.limits payload = .ok text ∧
      ∀ q, (CacheStore.put P base t u h payload now).2.file? q =
        if q = entryPath base u h then some (encodeUtf8 text, now)
        else if q = tmpPath base u h then none else t.file? q := by
  rcases put_cases t u h payload now with ⟨e, heq | heq⟩ | ⟨text, hh, htext, heq⟩
  · rw [heq] at hok
    cases hok
  · rw [heq] at hok
    cases hok
  · rw [heq] at hok ⊢
    refine ⟨hh, text, htext, fun q => ?_⟩
    rw [file?_writeEntry_ok hok, FileTree.file?_mkdirs]
    rfl

/-- A `put` that raises has not changed the entry. -/
theorem file?_put_error {e : CacheError}
    (herror : (CacheStore.put P base t u h payload now).1 = .error e) :
    (CacheStore.put P base t u h payload now).2.file? (entryPath base u h) =
      t.file? (entryPath base u h) := by
  rcases put_cases t u h payload now with ⟨e, heq | heq⟩ | ⟨text, -, -, heq⟩
  · rw [heq]
  · rw [heq, FileTree.file?_mkdirs]
  · rw [heq] at herror ⊢
    exact (file?_writeEntry_error herror).trans (FileTree.file?_mkdirs _ _)

/-- `delete` touches the file of its entry. -/
theorem file?_delete_of_ne (hresult : q ≠ entryPath base u h) :
    (CacheStore.delete base t u h).2.file? q = t.file? q := by
  unfold CacheStore.delete
  split
  · split
    · rfl
    · rfl
    · rename_i t₁ hunlink
      have hfile : t₁.file? q = t.file? q :=
        (FileTree.file?_unlink hunlink q).trans (if_neg hresult)
      split
      · exact hfile
      · rename_i t₂ hrmdir
        exact (FileTree.file?_rmdir hrmdir q).trans hfile
  · rfl

theorem isDir_delete (hq : (CacheStore.delete base t u h).2.isDir q = true) :
    t.isDir q = true := by
  unfold CacheStore.delete at hq
  split at hq
  · split at hq
    · exact hq
    · exact hq
    · rename_i t₁ hunlink
      rw [← FileTree.isDir_unlink hunlink]
      split at hq
      · exact hq
      · rename_i t₂ hrmdir
        exact FileTree.isDir_rmdir hrmdir hq
  · exact hq

theorem file?_delete_self (hh : validAudioHash h = true) :
    (CacheStore.delete base t u h).2.file? (entryPath base u h) = none := by
  rw [CacheStore.delete, if_pos hh]
  cases hunlink : t.unlink (entryDir base u h) resultFilename with
  | error e =>
      have hnone : t.file? (entryPath base u h) = none := by
        cases hfile : t.file? (entryPath base u h) with
        | none => rfl
        | some f =>
            obtain ⟨t', hok⟩ := FileTree.unlink_isOk hfile
            rw [hunlink] at hok
            cases hok
      cases e with
      | _ => exact hnone
  | ok t₁ =>
      have hfile : t₁.file? (entryPath base u h) = none :=
        (FileTree.file?_unlink hunlink _).trans (if_pos rfl)
      show (match t₁.rmdir (userDir base u) h with
        | .error _ => ((.ok (), t₁) : Except CacheError Unit × FileTree Bytes)
        | .ok t₂ => (.ok (), t₂)).2.file? _ = none
      split
      · exact hfile
      · rename_i t₂ hrmdir
        exact (FileTree.file?_rmdir hrmdir _).trans hfile

/-- What `json.dumps` prints is read back. -/
theorem readEntry_dumps {fields : Json.Fields φ}
    (htext : Json.dumps P.floats P.limits (.obj fields) = .ok text)
    (hfields : (Json.Value.obj fields).Distinct) :
    readEntry P (encodeUtf8 text) = .ok (some (.obj fields)) := by
  have hcr : '\r' ∉ text := fun hmem =>
    absurd (Json.printable_valueText _ htext _ hmem).1 (by decide)
  simp only [readEntry, decodeUtf8_encodeUtf8, universalNewlines_of_notMem hcr,
    Json.loads_dumps htext hfields]

end TranscriptionApi.Pipeline
