import TranscriptionApi.Lib.Binary64

/-!
Instants, durations and the settings the modelled handlers read. An instant,
a timezone-aware `datetime`, is an integer: microseconds since the epoch. The
bounds that the settings class validates at startup are fields of the
structure. A margin so large that a product with it overflows is left out.
-/

namespace TranscriptionApi

open Lib

abbrev Bytes := List UInt8

/-- `timedelta(seconds=n)`. -/
def seconds (n : ℤ) : ℤ := n * 1000000

structure Settings where
  maxUploadMb : ℕ := 500
  maxImageUploadMb : ℕ := 25
  uploadSessionGraceSeconds : ℕ := 30
  uploadSessionTtlSeconds : ℕ := 600
  uploadSizeMargin : Binary64 := .ofRat (21 / 20) (by decide +kernel)
  sessionTtlSeconds : ℕ := 86400
  publicBaseUrl : String := "http://localhost:8000"
  uploadsDir : String := "/data/uploads"
  blobsDir : String := "/data/blobs"
  maxUploadMb_pos : 0 < maxUploadMb := by decide
  maxImageUploadMb_pos : 0 < maxImageUploadMb := by decide
  uploadSessionTtlSeconds_pos : 0 < uploadSessionTtlSeconds := by decide
  one_lt_uploadSizeMargin : 1 < uploadSizeMargin.value := by decide +kernel
  uploadSizeMargin_lt : uploadSizeMargin.value < 2 ^ 960 := by decide +kernel
  sessionTtlSeconds_pos : 0 < sessionTtlSeconds := by decide

instance : Inhabited Settings := ⟨{}⟩

namespace Settings

def grace (s : Settings) : ℤ := seconds s.uploadSessionGraceSeconds

/-- `int(expected_size_bytes * upload_size_margin)`: both upload endpoints cap
the body at this many bytes. -/
def maxBytes (s : Settings) (expectedSizeBytes : ℕ) : ℕ :=
  (s.uploadSizeMargin.natMul expectedSizeBytes).floor.toNat

/-- Under the default margin, of which `1.05` is only the nearest binary64
number, no announced size below a tebibyte feels the rounding. -/
theorem maxBytes_default_margin {s : Settings} {n : ℕ}
    (hmargin : s.uploadSizeMargin = (default : Settings).uploadSizeMargin) (hn : n < 2 ^ 40) :
    s.maxBytes n = n * 21 / 20 := by
  have hvalue : s.uploadSizeMargin.value = 4728779608739021 / 2 ^ 52 := by
    rw [hmargin]
    decide +kernel
  have hexact : Binary64.round n = n := Binary64.round_natCast (by omega)
  have hreal : (n : ℚ) < 2 ^ 40 := by exact_mod_cast hn
  have hnonneg : (0 : ℚ) ≤ n := Nat.cast_nonneg n
  have hdiv : ((n * 21 / 20 : ℕ) : ℚ) * 20 ≤ n * 21 := by
    exact_mod_cast Nat.div_mul_le_self (n * 21) 20
  have hmod : (n : ℚ) * 21 ≤ (n * 21 / 20 : ℕ) * 20 + 19 := by
    have hnat : n * 21 ≤ n * 21 / 20 * 20 + 19 := by omega
    exact_mod_cast hnat
  rw [maxBytes, Binary64.natMul, hexact, hvalue]
  generalize hx : (n : ℚ) * (4728779608739021 / 2 ^ 52) = x
  rcases Nat.eq_zero_or_pos n with rfl | hpos
  · rw [← hx]
    decide +kernel
  · have hone : (1 : ℚ) ≤ n := by exact_mod_cast hpos
    have hlow : ((n * 21 / 20 : ℕ) : ℚ) ≤ Binary64.round x := by
      refine Binary64.natCast_le_round (by linarith) ?_
      have hfloor : x.floor < 2 ^ 53 := Rat.floor_lt_iff.mpr (by push_cast; linarith)
      omega
    have hhigh : Binary64.round x < (n * 21 / 20 : ℕ) + 1 := by
      have hround := Binary64.round_le (x := x) (by linarith)
      linarith
    have hfloor : (Binary64.round x).floor = (n * 21 / 20 : ℕ) :=
      le_antisymm (Int.lt_add_one_iff.mp (Rat.floor_lt_iff.mpr (by exact_mod_cast hhigh)))
        (Rat.le_floor_iff.mpr (by exact_mod_cast hlow))
    rw [hfloor, Int.toNat_natCast]

/-- With a margin of `1.15` the cap on an upload of a hundred bytes is 114. -/
example : ({ (default : Settings) with
    uploadSizeMargin := .ofRat (23 / 20) (by decide +kernel)
    one_lt_uploadSizeMargin := by decide +kernel
    uploadSizeMargin_lt := by decide +kernel } : Settings).maxBytes 100 = 114 := by
  decide +kernel

end Settings

end TranscriptionApi
