import TranscriptionApi.Pipeline.NormalizedWav

/-!
The two ways through the format gate of `normalize_audio`.

A file that comes with a suffix of the whitelist has to match the signature of that
suffix; one under any other name has to match some signature. The two tables of
signatures are written twice in the source. That they are one table makes the gate
the same for both: what gets through under a suffix gets through without it, and the
rest of the call does not look at the suffix.
-/

namespace TranscriptionApi.Pipeline

open Lib

def magicHeadBytes : ℕ := 64

/-- `_read_magic_head`. -/
def readMagicHead (content : Bytes) : Bytes := content.take magicHeadBytes

/-- The call on a file with this content and this suffix. -/
def NormalizeCall.onFile {φ : Type} (c : NormalizeCall φ) (content : Bytes) (ext : String) :
    NormalizeCall φ :=
  { c with ext, head := .ok (readMagicHead content) }

/-! ### The two tables -/

section Tables

variable {blob : Bytes} {ext : String}

theorem magicMatches_detected (h : detectExtByMagic blob = some ext) :
    ext ∈ allowedExtensions ∧ magicMatches blob ext = true := by
  unfold detectExtByMagic at h
  split at h
  · rename_i hwav
    obtain rfl := Option.some.inj h
    exact ⟨by decide, hwav⟩
  · split at h
    · rename_i hflac
      obtain rfl := Option.some.inj h
      exact ⟨by decide, hflac⟩
    · split at h
      · rename_i hmp3
        obtain rfl := Option.some.inj h
        exact ⟨by decide, hmp3⟩
      · split at h
        · rename_i hmp4
          obtain rfl := Option.some.inj h
          exact ⟨by decide, hmp4⟩
        · cases h

/-- A signature that none of the four tests knows is not asked for under any suffix. -/
theorem magicMatches_undetected (h : detectExtByMagic blob = none) :
    magicMatches blob ext = false := by
  have hnone : isWavMagic blob = false ∧ isFlacMagic blob = false ∧ isMp3Magic blob = false ∧
      isMp4Magic blob = false := by
    unfold detectExtByMagic at h
    split at h
    · cases h
    · split at h
      · cases h
      · split at h
        · cases h
        · split at h
          · cases h
          · rename_i hwav hflac hmp3 hmp4
            simp only [Bool.not_eq_true] at hwav hflac hmp3 hmp4
            exact ⟨hwav, hflac, hmp3, hmp4⟩
  obtain ⟨hwav, hflac, hmp3, hmp4⟩ := hnone
  simp only [magicMatches, hwav, hflac, hmp3, hmp4, ite_self]

theorem detectExtByMagic_isSome_iff : (detectExtByMagic blob).isSome = true ↔
    ∃ ext ∈ allowedExtensions, magicMatches blob ext = true := by
  cases hdetected : detectExtByMagic blob with
  | none => simp [magicMatches_undetected hdetected]
  | some ext =>
      obtain ⟨hallowed, hmatches⟩ := magicMatches_detected hdetected
      exact iff_of_true rfl ⟨ext, hallowed, hmatches⟩

end Tables

/-! ### The gate -/

section Gate

variable {φ : Type} {c : NormalizeCall φ} {content : Bytes} {ext : String}

theorem checkFormat_allowed {head : Bytes} (hhead : c.head = .ok head)
    (h : c.ext ∈ allowedExtensions) :
    c.checkFormat = .ok () ↔ magicMatches head c.ext = true := by
  rw [NormalizeCall.checkFormat, hhead]
  show (if c.ext ∉ allowedExtensions then _ else _) = _ ↔ _
  rw [if_neg (not_not.mpr h)]
  split
  · rename_i hmatches
    exact iff_of_true rfl hmatches
  · rename_i hmatches
    exact iff_of_false (fun h => by cases h) hmatches

theorem checkFormat_unknown {head : Bytes} (hhead : c.head = .ok head)
    (h : c.ext ∉ allowedExtensions) :
    c.checkFormat = .ok () ↔ (detectExtByMagic head).isSome = true := by
  rw [NormalizeCall.checkFormat, hhead]
  show (if c.ext ∉ allowedExtensions then _ else _) = _ ↔ _
  rw [if_pos h]
  cases detectExtByMagic head with
  | none => exact iff_of_false (fun h => by cases h) (by decide)
  | some inferred => exact iff_of_true rfl rfl

theorem checkFormat_onFile_allowed (h : ext ∈ allowedExtensions) :
    (c.onFile content ext).checkFormat = .ok () ↔
      magicMatches (readMagicHead content) ext = true :=
  checkFormat_allowed (c := c.onFile content ext) rfl h

theorem checkFormat_onFile_unknown (h : ext ∉ allowedExtensions) :
    (c.onFile content ext).checkFormat = .ok () ↔
      (detectExtByMagic (readMagicHead content)).isSome = true :=
  checkFormat_unknown (c := c.onFile content ext) rfl h

/-- Past the gate the suffix is not looked at again. -/
theorem normalizeAudio_onFile_eq {sha256 : Bytes → String} {exceeds : Json.Number φ → ℕ → Bool}
    {maxSeconds : ℕ} {files : UploadFiles} {ext' : String}
    (h : (c.onFile content ext).checkFormat = .ok ())
    (h' : (c.onFile content ext').checkFormat = .ok ()) :
    normalizeAudio sha256 exceeds maxSeconds (c.onFile content ext) files =
      normalizeAudio sha256 exceeds maxSeconds (c.onFile content ext') files := by
  rw [normalizeAudio, normalizeAudio, h, h']
  rfl

end Gate

/-- Both tables accept the same contents, detection answers with a suffix the content
has, and the gate lets the same files through with a suffix of the whitelist and
without one. -/
theorem formatGate_agrees :
    (∀ blob, (detectExtByMagic blob).isSome = true ↔
      ∃ ext ∈ allowedExtensions, magicMatches blob ext = true) ∧
    (∀ blob ext, detectExtByMagic blob = some ext →
      ext ∈ allowedExtensions ∧ magicMatches blob ext = true) ∧
    (∀ (φ : Type) (c : NormalizeCall φ) content ext unknown,
      ext ∈ allowedExtensions → unknown ∉ allowedExtensions →
        (c.onFile content ext).checkFormat = .ok () →
          (c.onFile content unknown).checkFormat = .ok ()) ∧
    ∀ (φ : Type) (c : NormalizeCall φ) content unknown, unknown ∉ allowedExtensions →
      (c.onFile content unknown).checkFormat = .ok () →
        ∃ inferred, detectExtByMagic (readMagicHead content) = some inferred ∧
          (c.onFile content inferred).checkFormat = .ok () := by
  refine ⟨fun blob => detectExtByMagic_isSome_iff, fun blob ext h => magicMatches_detected h,
    fun φ c content ext unknown hallowed hunknown hok => ?_,
    fun φ c content unknown hunknown hok => ?_⟩
  · rw [checkFormat_onFile_unknown hunknown, detectExtByMagic_isSome_iff]
    exact ⟨ext, hallowed, (checkFormat_onFile_allowed hallowed).mp hok⟩
  · obtain ⟨inferred, hinferred⟩ :=
      Option.isSome_iff_exists.mp ((checkFormat_onFile_unknown hunknown).mp hok)
    obtain ⟨hallowed, hmatches⟩ := magicMatches_detected hinferred
    exact ⟨inferred, hinferred, (checkFormat_onFile_allowed hallowed).mpr hmatches⟩

/-- A FLAC file, uploaded under its name and as `original.bin`. -/
theorem formatGate_agrees_flac :
    (unreadableWav.normalize.onFile [102, 76, 97, 67, 0] "bin").checkFormat = .ok () :=
  formatGate_agrees.2.2.1 ℤ unreadableWav.normalize [102, 76, 97, 67, 0] "flac" "bin"
    (by decide) (by decide) (by rfl)

end TranscriptionApi.Pipeline
