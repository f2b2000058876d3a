import Mathlib.Algebra.Group.Nat.Defs
import Mathlib.Logic.Function.Basic
import TranscriptionApi.Config
import TranscriptionApi.Lib.ByteFile
import TranscriptionApi.Lib.Loop

/-!
`_sha256_wav_pcm`: the hash of the samples of a WAV file.

The three loops of the function, over the chunks of the file, over the blocks of
the data chunk and over the blocks of a file that is no WAV, are the phases of one
loop. A turn reads from the file and may feed the digest; the digest of what was
fed is a function of the caller. Every turn but the last takes bytes off the file,
so the loop comes to its end on every file, whatever its sizes say.
-/

namespace TranscriptionApi.Pipeline

open Lib

inductive HashPhase where
  | header
  /-- before the header of a chunk -/
  | walk
  /-- in the data chunk -/
  | data (remaining : ℕ)
  /-- the hash of the full file -/
  | whole
  | done
  deriving DecidableEq

structure Hashing where
  phase : HashPhase
  fp : ByteFile
  fed : Bytes

def sha256ChunkBytes : ℕ := 64 * 1024

def riffId : Bytes := [82, 73, 70, 70]

def waveId : Bytes := [87, 65, 86, 69]

def dataId : Bytes := [100, 97, 116, 97]

/-- `int.from_bytes(b, "little")`. -/
def fromLittle (b : Bytes) : ℕ := b.foldr (fun d n => d.toNat + 256 * n) 0

/-- One turn of the loop that is running. -/
def hashTurn (s : Hashing) : Option Hashing :=
  match s.phase with
  | .header =>
      let riff := (s.fp.read 12).1
      let fp := (s.fp.read 12).2
      if riff.length < 12 ∨ riff.take 4 ≠ riffId ∨ (riff.take 12).drop 8 ≠ waveId then
        some { s with phase := .whole, fp := fp.rewind }
      else some { s with phase := .walk, fp := fp }
  | .whole =>
      let chunk := (s.fp.read sha256ChunkBytes).1
      let fp := (s.fp.read sha256ChunkBytes).2
      if chunk = [] then some { s with phase := .done, fp := fp }
      else some { s with fp := fp, fed := s.fed ++ chunk }
  | .walk =>
      let header := (s.fp.read 8).1
      let fp := (s.fp.read 8).2
      if header.length < 8 then some { s with phase := .done, fp := fp }
      else
        let chunkSize := fromLittle ((header.take 8).drop 4)
        if header.take 4 = dataId then some { s with phase := .data chunkSize, fp := fp }
        -- the body of any other chunk, and the byte that makes its size even
        else some { s with fp := fp.skip (chunkSize + chunkSize % 2) }
  | .data remaining =>
      if remaining = 0 then some { s with phase := .done }
      else
        let block := (s.fp.read (min sha256ChunkBytes remaining)).1
        let fp := (s.fp.read (min sha256ChunkBytes remaining)).2
        if block = [] then some { s with phase := .done, fp := fp }
        else some { phase := .data (remaining - block.length), fp := fp, fed := s.fed ++ block }
  | .done => none

def startHash (file : Bytes) : Hashing := ⟨.header, ⟨file, 0⟩, []⟩

/-- More turns than the loop takes. -/
def hashWeight (s : Hashing) : ℕ :=
  match s.phase with
  | .header => s.fp.bytes.length + s.fp.left.length + 4
  | .walk => s.fp.left.length + 3
  | .data _ => s.fp.left.length + 2
  | .whole => s.fp.left.length + 2
  | .done => 0

/-- `_sha256_wav_pcm`. -/
def sha256WavPcm {δ : Type} (sha256 : Bytes → δ) (file : Bytes) : δ :=
  sha256 (Loop.turns hashTurn (hashWeight (startHash file)) (startHash file)).fed

/-! ### The end of the loop -/

theorem length_drop_lt {l : Bytes} {n : ℕ} (h : l.take n ≠ []) :
    (l.drop n).length < l.length := by
  have hn : n ≠ 0 := fun h0 => h (by rw [h0, List.take_zero])
  have hl : l ≠ [] := fun h0 => h (by rw [h0, List.take_nil])
  have hpos := List.length_pos_iff.mpr hl
  rw [List.length_drop]
  omega

/-- Every turn makes the weight smaller. -/
theorem hashWeight_lt (s s' : Hashing) (h : hashTurn s = some s') :
    hashWeight s' < hashWeight s := by
  obtain ⟨phase, fp, fed⟩ := s
  unfold hashTurn at h
  cases phase with
  | header =>
      simp only at h
      split at h
      · obtain rfl := Option.some.inj h
        simp only [hashWeight, ByteFile.left_rewind, ByteFile.bytes_read]
        omega
      · obtain rfl := Option.some.inj h
        simp only [hashWeight, ByteFile.left_read, List.length_drop]
        omega
  | whole =>
      simp only at h
      split at h
      · obtain rfl := Option.some.inj h
        simp [hashWeight]
      · rename_i hchunk
        obtain rfl := Option.some.inj h
        have := length_drop_lt hchunk
        simp only [hashWeight, ByteFile.left_read]
        omega
  | walk =>
      simp only at h
      split at h
      · obtain rfl := Option.some.inj h
        simp [hashWeight]
      · rename_i hheader
        rw [ByteFile.read_fst, List.length_take] at hheader
        split at h
        · obtain rfl := Option.some.inj h
          simp only [hashWeight, ByteFile.left_read, List.length_drop]
          omega
        · obtain rfl := Option.some.inj h
          simp only [hashWeight, ByteFile.left_skip, ByteFile.left_read, List.length_drop]
          omega
  | data remaining =>
      simp only at h
      split at h
      · obtain rfl := Option.some.inj h
        simp [hashWeight]
      · split at h
        · obtain rfl := Option.some.inj h
          simp [hashWeight]
        · rename_i hblock
          obtain rfl := Option.some.inj h
          have := length_drop_lt hblock
          simp only [hashWeight, ByteFile.left_read]
          omega
  | done => cases h

theorem ends_done {fp : ByteFile} {fed : Bytes} :
    Loop.Ends hashTurn ⟨.done, fp, fed⟩ ⟨.done, fp, fed⟩ := .stop rfl

/-- What the loop is shown to end in decides the hash. -/
theorem sha256WavPcm_of_ends {δ : Type} (sha256 : Bytes → δ) {file : Bytes} {t : Hashing}
    (h : Loop.Ends hashTurn (startHash file) t) : sha256WavPcm sha256 file = sha256 t.fed := by
  rw [sha256WavPcm, Loop.turns_eq_of_ends hashWeight_lt le_rfl h]

/-! ### Files that are no WAV -/

theorem read_block {f : ByteFile} {n : ℕ} :
    f.left = (f.read n).1 ++ (f.read n).2.left := by
  rw [ByteFile.read_fst, ByteFile.left_read, List.take_append_drop]

/-- From here on the whole rest is fed. -/
theorem ends_whole (fp : ByteFile) (fed : Bytes) :
    ∃ t, Loop.Ends hashTurn ⟨.whole, fp, fed⟩ t ∧ t.fed = fed ++ fp.left := by
  induction h : fp.left.length using Nat.strong_induction_on generalizing fp fed with
  | _ n ih =>
      by_cases hchunk : (fp.read sha256ChunkBytes).1 = []
      · have hleft : fp.left = [] := by
          rw [ByteFile.read_fst, List.take_eq_nil_iff] at hchunk
          exact hchunk.resolve_left (by decide)
        refine ⟨⟨.done, (fp.read sha256ChunkBytes).2, fed⟩, .next ?_ ends_done, ?_⟩
        · simp only [hashTurn, hchunk, if_true]
        · rw [hleft, List.append_nil]
      · have hlt : (fp.read sha256ChunkBytes).2.left.length < n := by
          rw [← h, ByteFile.left_read]
          exact length_drop_lt hchunk
        obtain ⟨t, hends, hfed⟩ := ih _ hlt (fp.read sha256ChunkBytes).2
          (fed ++ (fp.read sha256ChunkBytes).1) rfl
        refine ⟨t, .next ?_ hends, ?_⟩
        · simp only [hashTurn, hchunk, if_false]
        · rw [hfed, List.append_assoc, ← read_block]

/-- The header of a RIFF/WAVE file. -/
def IsRiffWave (file : Bytes) : Prop :=
  12 ≤ file.length ∧ file.take 4 = riffId ∧ (file.drop 8).take 4 = waveId

theorem header_turn_iff {file : Bytes} :
    (((startHash file).fp.read 12).1.length < 12 ∨
      ((startHash file).fp.read 12).1.take 4 ≠ riffId ∨
      (((startHash file).fp.read 12).1.take 12).drop 8 ≠ waveId) ↔ ¬IsRiffWave file := by
  have hread : ((startHash file).fp.read 12).1 = file.take 12 := rfl
  rw [hread, List.length_take, List.take_take, List.take_take, List.drop_take, IsRiffWave]
  have hlen : min 12 file.length < 12 ↔ ¬12 ≤ file.length := by omega
  rw [hlen, not_and_or, not_and_or]
  rfl

theorem ends_of_not_riff {file : Bytes} (h : ¬IsRiffWave file) :
    ∃ t, Loop.Ends hashTurn (startHash file) t ∧ t.fed = file := by
  obtain ⟨t, hends, hfed⟩ := ends_whole ((startHash file).fp.read 12).2.rewind []
  refine ⟨t, .next ?_ hends, hfed⟩
  show (if _ then _ else _) = _
  rw [if_pos (header_turn_iff.mpr h)]
  rfl

/-! ### RIFF files -/

/-- The four bytes of a size. -/
def little32 (n : ℕ) : Bytes :=
  [UInt8.ofNat n, UInt8.ofNat (n / 256), UInt8.ofNat (n / 65536), UInt8.ofNat (n / 16777216)]

theorem fromLittle_little32 {n : ℕ} (h : n < 2 ^ 32) : fromLittle (little32 n) = n := by
  simp only [fromLittle, little32, List.foldr_cons, List.foldr_nil, UInt8.toNat_ofNat']
  omega

/-- A sub-chunk, with the byte that makes its size even. -/
structure RiffChunk where
  id : Bytes
  body : Bytes
  pad : Bytes
  id_length : id.length = 4
  body_length : body.length < 2 ^ 32
  pad_length : pad.length = body.length % 2

def RiffChunk.bytes (c : RiffChunk) : Bytes := c.id ++ little32 c.body.length ++ c.body ++ c.pad

def RiffChunk.isData (c : RiffChunk) : Bool := c.id = dataId

/-- A RIFF/WAVE file with a data chunk somewhere. -/
structure RiffWave where
  size : Bytes
  chunks : List RiffChunk
  size_length : size.length = 4
  data : ∃ c ∈ chunks, c.isData = true

namespace RiffWave

def bytes (w : RiffWave) : Bytes := riffId ++ w.size ++ waveId ++ w.chunks.flatMap RiffChunk.bytes

/-- The body of the first data chunk. -/
def payload (w : RiffWave) : Bytes :=
  ((w.chunks.find? RiffChunk.isData).map RiffChunk.body).getD []

end RiffWave

/-- What is left behind the header of a chunk. -/
theorem read_chunk {fp : ByteFile} {c : RiffChunk} {rest : Bytes} (h : fp.left = c.bytes ++ rest) :
    (fp.read 8).1 = c.id ++ little32 c.body.length ∧
      (fp.read 8).2.left = c.body ++ (c.pad ++ rest) := by
  have hleft : fp.left = c.id ++ little32 c.body.length ++ (c.body ++ (c.pad ++ rest)) := by
    rw [h, RiffChunk.bytes]
    simp only [List.append_assoc]
  have hlen : (c.id ++ little32 c.body.length).length = 8 := by
    rw [List.length_append, c.id_length]
    rfl
  rw [ByteFile.read_fst, ByteFile.left_read, hleft]
  exact ⟨List.take_left' hlen, List.drop_left' hlen⟩

theorem walk_turn {fp : ByteFile} {c : RiffChunk} {rest : Bytes} (fed : Bytes)
    (h : fp.left = c.bytes ++ rest) :
    hashTurn ⟨.walk, fp, fed⟩ =
      if c.id = dataId then some ⟨.data c.body.length, (fp.read 8).2, fed⟩
      else some ⟨.walk, (fp.read 8).2.skip (c.body.length + c.body.length % 2), fed⟩ := by
  have hheader := (read_chunk h).1
  have hlen : ¬(c.id ++ little32 c.body.length).length < 8 := by
    rw [List.length_append, c.id_length]
    show ¬4 + 4 < 8
    omega
  have hid : (c.id ++ little32 c.body.length).take 4 = c.id := List.take_left' c.id_length
  have hsize : fromLittle (((c.id ++ little32 c.body.length).take 8).drop 4) = c.body.length := by
    rw [List.take_of_length_le (by rw [List.length_append, c.id_length]; exact le_rfl),
      List.drop_left' c.id_length, fromLittle_little32 c.body_length]
  simp only [hashTurn, hheader, if_neg hlen, hid, hsize]

/-- The blocks of the data chunk make up its body. -/
theorem ends_data {fp : ByteFile} {body rest : Bytes} (fed : Bytes) (h : fp.left = body ++ rest) :
    ∃ t, Loop.Ends hashTurn ⟨.data body.length, fp, fed⟩ t ∧ t.fed = fed ++ body := by
  induction hn : body.length using Nat.strong_induction_on generalizing fp fed body with
  | _ n ih =>
      by_cases hzero : n = 0
      · have hnil : body = [] := List.eq_nil_of_length_eq_zero (hn.trans hzero)
        refine ⟨⟨.done, fp, fed⟩, .next ?_ ends_done, ?_⟩
        · simp only [hashTurn, if_pos hzero]
        · rw [hnil, List.append_nil]
      · have hb : min sha256ChunkBytes n ≤ body.length := hn ▸ min_le_right _ _
        have hbpos : 0 < min sha256ChunkBytes n :=
          lt_min (by decide) (Nat.pos_of_ne_zero hzero)
        have hturn : hashTurn ⟨.data n, fp, fed⟩ =
            if (fp.read (min sha256ChunkBytes n)).1 = [] then
              some ⟨.done, (fp.read (min sha256ChunkBytes n)).2, fed⟩
            else some ⟨.data (n - (fp.read (min sha256ChunkBytes n)).1.length),
              (fp.read (min sha256ChunkBytes n)).2,
              fed ++ (fp.read (min sha256ChunkBytes n)).1⟩ := by
          simp only [hashTurn, if_neg hzero]
        generalize min sha256ChunkBytes n = b at hb hbpos hturn
        have hblock : (fp.read b).1 = body.take b := by
          rw [ByteFile.read_fst, h, List.take_append_of_le_length hb]
        have hleft : (fp.read b).2.left = body.drop b ++ rest := by
          rw [ByteFile.left_read, h, List.drop_append_of_le_length hb]
        have hne : body.take b ≠ [] := by
          intro hnil
          have hlen := congrArg List.length hnil
          rw [List.length_take, List.length_nil] at hlen
          omega
        have hremaining : n - (body.take b).length = (body.drop b).length := by
          rw [List.length_take, List.length_drop]
          omega
        rw [hblock, if_neg hne, hremaining] at hturn
        have hlt : (body.drop b).length < n := by
          rw [List.length_drop]
          omega
        obtain ⟨t, hends, hfed⟩ := ih _ hlt (fed ++ body.take b) hleft rfl
        refine ⟨t, .next hturn hends, ?_⟩
        rw [hfed, List.append_assoc, List.take_append_drop]

/-- The chunks before the first data chunk are skipped. -/
theorem ends_walk {chunks : List RiffChunk} {c : RiffChunk} {fp : ByteFile} (fed : Bytes)
    (h : fp.left = chunks.flatMap RiffChunk.bytes)
    (hfind : chunks.find? RiffChunk.isData = some c) :
    ∃ t, Loop.Ends hashTurn ⟨.walk, fp, fed⟩ t ∧ t.fed = fed ++ c.body := by
  induction chunks generalizing fp with
  | nil => cases hfind
  | cons chunk chunks ih =>
      rw [List.flatMap_cons] at h
      have hturn := walk_turn fed h
      by_cases hid : chunk.id = dataId
      · rw [if_pos hid] at hturn
        have hdata : chunk.isData = true := decide_eq_true hid
        rw [List.find?_cons_of_pos hdata] at hfind
        obtain rfl := Option.some.inj hfind
        obtain ⟨t, hends, hfed⟩ := ends_data fed (read_chunk h).2
        exact ⟨t, .next hturn hends, hfed⟩
      · rw [if_neg hid] at hturn
        have hdata : ¬chunk.isData = true := fun h => hid (of_decide_eq_true h)
        rw [List.find?_cons_of_neg hdata] at hfind
        have hskip : ((fp.read 8).2.skip (chunk.body.length + chunk.body.length % 2)).left =
            chunks.flatMap RiffChunk.bytes := by
          rw [ByteFile.left_skip, (read_chunk h).2, ← List.append_assoc]
          refine List.drop_left' ?_
          rw [List.length_append, chunk.pad_length]
        obtain ⟨t, hends, hfed⟩ := ih hskip hfind
        exact ⟨t, .next hturn hends, hfed⟩

theorem RiffWave.isRiffWave (w : RiffWave) : IsRiffWave w.bytes := by
  have hbytes : w.bytes = riffId ++ (w.size ++ (waveId ++ w.chunks.flatMap RiffChunk.bytes)) := by
    simp only [RiffWave.bytes, List.append_assoc]
  rw [hbytes]
  refine ⟨?_, List.take_left' rfl, ?_⟩
  · simp only [List.length_append, w.size_length]
    show 12 ≤ 4 + (4 + (4 + _))
    omega
  · rw [← List.append_assoc, List.drop_left' (by rw [List.length_append, w.size_length]; rfl)]
    exact List.take_left' rfl

theorem ends_riffWave (w : RiffWave) :
    ∃ t, Loop.Ends hashTurn (startHash w.bytes) t ∧ t.fed = w.payload := by
  obtain ⟨c, hc⟩ : ∃ c, w.chunks.find? RiffChunk.isData = some c := by
    obtain ⟨c, hc, hid⟩ := w.data
    exact Option.isSome_iff_exists.mp (List.find?_isSome.mpr ⟨c, hc, hid⟩)
  have hleft : ((startHash w.bytes).fp.read 12).2.left = w.chunks.flatMap RiffChunk.bytes := by
    rw [ByteFile.left_read]
    exact List.drop_left' (by simp only [List.length_append, w.size_length]; rfl)
  obtain ⟨t, hends, hfed⟩ := ends_walk [] hleft hc
  refine ⟨t, .next ?_ hends, ?_⟩
  · show (if _ then _ else _) = _
    rw [if_neg (by rw [header_turn_iff]; exact not_not.mpr w.isRiffWave)]
    rfl
  · rw [hfed, RiffWave.payload, hc]
    rfl

/-- The hash of a RIFF/WAVE file is the one of its first data chunk, that of any
other file the one of all of it, and the loop ends on every file. -/
theorem sha256WavPcm_spec {δ : Type} (sha256 : Bytes → δ) :
    (∀ w : RiffWave, sha256WavPcm sha256 w.bytes = sha256 w.payload) ∧
    (Function.Injective sha256 → ∀ w w' : RiffWave,
      sha256WavPcm sha256 w.bytes = sha256WavPcm sha256 w'.bytes ↔ w.payload = w'.payload) ∧
    (∀ file, ¬IsRiffWave file → sha256WavPcm sha256 file = sha256 file) ∧
    ∀ file, ∃ t, Loop.Ends hashTurn (startHash file) t ∧
      sha256WavPcm sha256 file = sha256 t.fed := by
  have hriff (w : RiffWave) : sha256WavPcm sha256 w.bytes = sha256 w.payload := by
    obtain ⟨t, hends, hfed⟩ := ends_riffWave w
    rw [sha256WavPcm_of_ends sha256 hends, hfed]
  refine ⟨hriff, fun hinj w w' => ?_, fun file hfile => ?_, fun file => ?_⟩
  · rw [hriff, hriff]
    exact hinj.eq_iff
  · obtain ⟨t, hends, hfed⟩ := ends_of_not_riff hfile
    rw [sha256WavPcm_of_ends sha256 hends, hfed]
  · exact ⟨_, Loop.ends_turns hashWeight_lt le_rfl, rfl⟩

end TranscriptionApi.Pipeline
