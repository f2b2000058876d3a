import TranscriptionApi.Lib.Json.RoundTrip
import TranscriptionApi.Lib.Json.Unchecked
import TranscriptionApi.Pipeline.Diarize
import TranscriptionApi.Pipeline.Payload

/-!
`merge.py`: which speaker said each word, and whose a segment is.

The transcript is a list of JSON values, and a segment or a word keeps every field
it came with. What the code reads of them is read here too, with the exception it
raises on a value of another kind. A segment that has no words is one word over
its whole length.

A word belongs to the interval its mid-point lies in, or else to the nearest one.
Both searches take the first candidate of the list, and the distance is zero in an
interval and nowhere else, so the two of them are one: the first interval with the
least distance. The speaker of a segment is the most common one of its words. The
counter keeps the speakers in the order of their first word, and this order
decides between speakers with the same count.
-/

namespace TranscriptionApi.Pipeline

open Lib Python

/-- The law of subtraction that the search for an interval rests on. Rounding
keeps it. -/
def GapsPositive (τ : Type) [LinearOrder τ] [Sub τ] [Zero τ] : Prop := ∀ x y : τ, x < y → 0 < y - x

/-- How the numbers of a transcript are read: the value of a number, the float
`0.0`, and which floats are zero. -/
structure Clock (φ τ : Type) [LinearOrder τ] [Sub τ] [Zero τ] where
  gaps : GapsPositive τ
  seconds : Json.Value φ → Option τ
  zero : φ
  seconds_zero : seconds (.float (.finite zero)) = some 0
  isZero : φ → Bool

/-- `str.strip()` on code units: no whitespace is astral. -/
def stripUnits (s : Json.Str) : Json.Str :=
  let space (u : UInt16) : Bool := isSpace (Char.ofNat u.toNat)
  ((s.dropWhile space).reverse.dropWhile space).reverse

def unknownSpeaker : Json.Str := jsonKey "UNKNOWN"

/-- `{**word, "speaker": speaker}`. -/
structure MergedWord (φ : Type) where
  fields : Json.Fields φ
  speaker : Json.Str
  fields_speaker : fields.get? (jsonKey "speaker") = some (.str speaker)

/-- `{**segment, "words": new_words, "speaker": segment_speaker}`. -/
structure SpokenSegment (φ : Type) where
  fields : Json.Fields φ
  words : List (MergedWord φ)
  speaker : Json.Str
  fields_words : fields.get? (jsonKey "words") =
    some (.arr (words.map fun word => .obj word.fields))
  fields_speaker : fields.get? (jsonKey "speaker") = some (.str speaker)

section Midpoint

variable {τ : Type} [LinearOrder τ] [Sub τ] [Zero τ]

/-- `_distance`. -/
def distance (mid : τ) (segment : Interval τ) : τ :=
  if mid < segment.start then segment.start - mid
  else if segment.stop < mid then mid - segment.stop
  else 0

/-- `start <= midpoint <= end`. -/
def contains (mid : τ) (segment : Interval τ) : Bool :=
  segment.start ≤ mid ∧ mid ≤ segment.stop

/-- `_speaker_for_midpoint`. -/
def speakerForMidpoint (mid : τ) (diarization : List (Interval τ)) : Except StageFault Json.Str :=
  match diarization.find? (contains mid) with
  | some segment => .ok segment.speaker
  | none =>
      match diarization.argmin (distance mid) with
      | some nearest => .ok nearest.speaker
      | none => .error .valueError

end Midpoint

variable {φ τ : Type}

/-- `_segment_majority_speaker`. -/
def segmentMajoritySpeaker (words : List (MergedWord φ)) : Except StageFault Json.Str :=
  let counts : Tally Json.Str ℕ := Tally.total (words.map fun word => (word.speaker, 1))
  match counts.mostCommon with
  | some speaker => .ok speaker
  | none => .error .indexError

def segmentSpeaker (newWords : List (MergedWord φ)) : Except StageFault Json.Str :=
  if newWords.isEmpty then .ok unknownSpeaker else segmentMajoritySpeaker newWords

section Assign

variable [LinearOrder τ] [Add τ] [Sub τ] [Div τ] [Zero τ] [OfNat τ 2] (clock : Clock φ τ)

/-- `bool(v)`. -/
def truth (v : Json.Value φ) : Bool := v.truth clock.isZero

def pseudoFields (segment : Json.Fields φ) (text : Json.Str) : Json.Fields φ :=
  [(jsonKey "start", (segment.get? (jsonKey "start")).getD (.float (.finite clock.zero))),
    (jsonKey "end", (segment.get? (jsonKey "end")).getD (.float (.finite clock.zero))),
    (jsonKey "word", .str (stripUnits text))]

/-- The word that stands for a segment without words. -/
def pseudoWord (segment : Json.Fields φ) : Except StageFault (Json.Value φ) :=
  match (segment.get? (jsonKey "text")).getD (.str []) with
  | .str text => .ok (.obj (pseudoFields clock segment text))
  | _ => .error .attributeError

/-- `seg_words`. -/
def segmentWords (segment : Json.Fields φ) : Except StageFault (List (Json.Value φ)) :=
  match segment.get? (jsonKey "words") with
  | none => (pseudoWord clock segment).map fun word => [word]
  | some words =>
      if truth clock words then
        match words with
        | .arr items => .ok items
        -- no other value can be gone through, or its items are no dictionaries
        | _ => .error .typeError
      else (pseudoWord clock segment).map fun word => [word]

def wordItem (word : Json.Fields φ) (k : String) : Except StageFault (Json.Value φ) :=
  match word.get? (jsonKey k) with
  | some v => .ok v
  | none => .error (.keyError (jsonKey k))

/-- `(word["start"] + word["end"]) / 2.0`. -/
def wordMidpoint (word : Json.Fields φ) : Except StageFault τ := do
  let start ← wordItem word "start"
  let stop ← wordItem word "end"
  match clock.seconds start, clock.seconds stop with
  | some start, some stop => return midpoint start stop
  | _, _ => throw .typeError

def withSpeaker (word : Json.Fields φ) (speaker : Json.Str) : MergedWord φ where
  fields := word.setItem (jsonKey "speaker") (.str speaker)
  speaker := speaker
  fields_speaker := by rw [Json.Fields.get?_setItem, if_pos rfl]

def wordSpeaker (diarization : List (Interval τ)) (mid : τ) : Except StageFault Json.Str :=
  if diarization.isEmpty then .ok unknownSpeaker else speakerForMidpoint mid diarization

def assignWord (diarization : List (Interval τ)) (word : Json.Value φ) :
    Except StageFault (MergedWord φ) :=
  match word.fields? with
  | none => .error .typeError
  | some fields => do
      let mid ← wordMidpoint clock fields
      let speaker ← wordSpeaker diarization mid
      return withSpeaker fields speaker

def spokenSegment (segment : Json.Fields φ) (words : List (MergedWord φ)) (speaker : Json.Str) :
    SpokenSegment φ where
  fields := (segment.setItem (jsonKey "words")
    (.arr (words.map fun word => .obj word.fields))).setItem (jsonKey "speaker") (.str speaker)
  words := words
  speaker := speaker
  fields_words := by
    rw [Json.Fields.get?_setItem, if_neg (by rw [jsonKey_inj]; decide), Json.Fields.get?_setItem,
      if_pos rfl]
  fields_speaker := by rw [Json.Fields.get?_setItem, if_pos rfl]

def assignSegment (diarization : List (Interval τ)) (segment : Json.Value φ) :
    Except StageFault (SpokenSegment φ) :=
  match segment.fields? with
  | none => .error .attributeError
  | some fields => do
      let words ← segmentWords clock fields
      let newWords ← words.mapM (assignWord clock diarization)
      let speaker ← segmentSpeaker newWords
      return spokenSegment fields newWords speaker

/-- `assign_speakers_to_words`. -/
def assignSpeakersToWords (transcriptSegments : List (Json.Value φ))
    (diarization : List (Interval τ)) : Except StageFault (List (SpokenSegment φ)) :=
  transcriptSegments.mapM (assignSegment clock diarization)

end Assign

/-! ### The first nearest interval -/

section Nearest

variable [LinearOrder τ] [Sub τ] [Zero τ] {mid : τ} {diarization : List (Interval τ)}

/-- A speaker of an interval at the least distance, the first such interval. -/
def FirstNearest (mid : τ) (diarization : List (Interval τ)) (speaker : Json.Str) : Prop :=
  ∃ (i : ℕ) (segment : Interval τ), diarization[i]? = some segment ∧ segment.speaker = speaker ∧
    (∀ other ∈ diarization, distance mid segment ≤ distance mid other) ∧
    ∀ (j : ℕ) other, j < i → diarization[j]? = some other →
      distance mid segment < distance mid other

theorem distance_eq_zero_iff (hgaps : GapsPositive τ) {segment : Interval τ} :
    distance mid segment = 0 ↔ contains mid segment = true := by
  rw [contains, decide_eq_true_eq, distance]
  split
  · rename_i h
    exact iff_of_false (hgaps _ _ h).ne' fun hin => not_lt.mpr hin.1 h
  · split
    · rename_i h
      exact iff_of_false (hgaps _ _ h).ne' fun hin => not_lt.mpr hin.2 h
    · rename_i hstart hstop
      exact iff_of_true rfl ⟨not_lt.mp hstart, not_lt.mp hstop⟩

theorem distance_nonneg (hgaps : GapsPositive τ) (mid : τ) (segment : Interval τ) :
    0 ≤ distance mid segment := by
  unfold distance
  split
  · exact (hgaps _ _ ‹_›).le
  · split
    · exact (hgaps _ _ ‹_›).le
    · exact le_rfl

/-- An interval that contains the mid-point, the first one, is the first of the
nearest ones. -/
theorem argmin_of_find (hgaps : GapsPositive τ) {segment : Interval τ}
    (h : diarization.find? (contains mid) = some segment) :
    diarization.argmin (distance mid) = some segment := by
  induction diarization with
  | nil => cases h
  | cons s rest ih =>
      rw [List.argmin_cons]
      by_cases hs : contains mid s = true
      · rw [List.find?_cons_of_pos hs] at h
        cases rest.argmin (distance mid) with
        | none => exact h
        | some c =>
            show (if distance mid c < distance mid s then some c else some s) = _
            have hnot : ¬distance mid c < distance mid s := by
              rw [(distance_eq_zero_iff hgaps).mpr hs]
              exact not_lt.mpr (distance_nonneg hgaps mid c)
            rw [if_neg hnot]
            exact h
      · rw [List.find?_cons_of_neg hs] at h
        have hpos : 0 < distance mid s := by
          refine lt_of_le_of_ne (distance_nonneg hgaps mid s) fun heq => hs ?_
          exact (distance_eq_zero_iff hgaps).mp heq.symm
        rw [ih h]
        show (if distance mid segment < distance mid s then some segment else some s) = _
        rw [if_pos (by rw [(distance_eq_zero_iff hgaps).mpr (List.find?_some h)]; exact hpos)]

/-- The scan and its fallback are one search. -/
theorem speakerForMidpoint_eq (hgaps : GapsPositive τ) (mid : τ)
    (diarization : List (Interval τ)) :
    speakerForMidpoint mid diarization =
      match diarization.argmin (distance mid) with
      | some nearest => .ok nearest.speaker
      | none => .error .valueError := by
  unfold speakerForMidpoint
  cases hfind : diarization.find? (contains mid) with
  | none => rfl
  | some segment => rw [argmin_of_find hgaps hfind]

theorem speakerForMidpoint_ok (hgaps : GapsPositive τ) (hne : diarization ≠ []) (mid : τ) :
    ∃ speaker, speakerForMidpoint mid diarization = .ok speaker ∧
      FirstNearest mid diarization speaker := by
  rw [speakerForMidpoint_eq hgaps]
  cases hargmin : diarization.argmin (distance mid) with
  | none => exact absurd (List.argmin_eq_none.mp hargmin) hne
  | some nearest =>
      obtain ⟨i, hi, hmin, hfirst⟩ := Tally.argmin_eq_some_get hargmin
      exact ⟨nearest.speaker, rfl, i, nearest, hi, rfl, hmin, hfirst⟩

end Nearest

/-! ### The most common speaker -/

/-- How many of the words the speaker has said. -/
def wordCount (words : List (MergedWord φ)) (speaker : Json.Str) : ℕ :=
  words.countP fun word => word.speaker = speaker

/-- Where the first word of the speaker stands. -/
def firstWord (words : List (MergedWord φ)) (speaker : Json.Str) : ℕ :=
  words.findIdx fun word => word.speaker = speaker

theorem firstWord_le {words : List (MergedWord φ)} {j : ℕ} {word : MergedWord φ}
    (h : words[j]? = some word) : firstWord words word.speaker ≤ j := by
  obtain ⟨hj, hword⟩ := List.getElem?_eq_some_iff.mp h
  by_contra hlt
  have hnot := List.not_of_lt_findIdx (not_le.mp hlt)
  rw [hword] at hnot
  exact of_decide_eq_false hnot rfl

theorem exists_firstWord {words : List (MergedWord φ)} {speaker : Json.Str}
    (h : ∃ word ∈ words, word.speaker = speaker) :
    ∃ first, words[firstWord words speaker]? = some first ∧ first.speaker = speaker := by
  obtain ⟨word, hword, hspeaker⟩ := h
  have hlt : firstWord words speaker < words.length :=
    List.findIdx_lt_length_of_exists ⟨word, hword, decide_eq_true hspeaker⟩
  have hfirst := List.findIdx_getElem (w := hlt)
  exact ⟨_, List.getElem?_eq_getElem hlt, of_decide_eq_true hfirst⟩

/-- Somebody who said one of the words, nobody said more of them, and who said as
many spoke later. -/
structure Majority (words : List (MergedWord φ)) (speaker : Json.Str) : Prop where
  spoke : ∃ word ∈ words, word.speaker = speaker
  most : ∀ word ∈ words, wordCount words word.speaker ≤ wordCount words speaker
  first : ∀ word ∈ words, wordCount words word.speaker = wordCount words speaker →
    firstWord words speaker ≤ firstWord words word.speaker

theorem segmentMajoritySpeaker_eq_ok_iff {words : List (MergedWord φ)} {speaker : Json.Str} :
    segmentMajoritySpeaker words = .ok speaker ↔ Majority words speaker := by
  have hcommon : segmentMajoritySpeaker words = .ok speaker ↔
      Tally.mostCommon (Tally.total (words.map fun word => (word.speaker, 1))) = some speaker := by
    unfold segmentMajoritySpeaker
    simp only
    split
    · rename_i s hs
      rw [hs, Except.ok.injEq, Option.some.injEq]
    · rename_i hs
      rw [hs]
      exact iff_of_false (by simp) (by simp)
  have hkeys : Tally.keys (words.map fun word => (word.speaker, 1)) =
      words.map MergedWord.speaker := by
    rw [Tally.keys, List.map_map]
    rfl
  have hplace := fun s => Tally.idxOf_keys (ν := ℕ) MergedWord.speaker words (fun _ => 1) s
  rw [hcommon, Tally.mostCommon_total_eq_some_iff]
  simp only [hplace]
  simp only [Tally.sumOf_ones, hkeys, List.mem_map, forall_exists_index, and_imp,
    forall_apply_eq_imp_iff₂]
  constructor
  · rintro ⟨hspoke, hmost, hfirst⟩
    exact ⟨hspoke, hmost, fun word hword heq => hfirst word hword heq.ge⟩
  · rintro ⟨hspoke, hmost, hfirst⟩
    exact ⟨hspoke, hmost, fun word hword hle =>
      hfirst word hword (le_antisymm (hmost word hword) hle)⟩

theorem segmentMajoritySpeaker_ok {words : List (MergedWord φ)} (h : words ≠ []) :
    ∃ speaker, segmentMajoritySpeaker words = .ok speaker := by
  have hne : words.map (fun word => (word.speaker, 1)) ≠ [] := by
    rwa [Ne, List.map_eq_nil_iff]
  obtain ⟨speaker, hspeaker⟩ := Tally.mostCommon_total_isSome (ν := ℕ) hne
  refine ⟨speaker, ?_⟩
  simp only [segmentMajoritySpeaker, hspeaker]

/-- Two lists of words in which the speakers come with the same counts and in the
same order. -/
structure SameVotes (words words' : List (MergedWord φ)) : Prop where
  count : ∀ speaker, wordCount words' speaker = wordCount words speaker
  order : ∀ word ∈ words, ∀ other ∈ words,
    firstWord words' word.speaker ≤ firstWord words' other.speaker ↔
      firstWord words word.speaker ≤ firstWord words other.speaker

theorem exists_mem_iff_wordCount_pos {words : List (MergedWord φ)} {speaker : Json.Str} :
    (∃ word ∈ words, word.speaker = speaker) ↔ 0 < wordCount words speaker := by
  rw [wordCount, List.countP_pos_iff]
  simp only [decide_eq_true_eq]

theorem Majority.congr {words words' : List (MergedWord φ)} {speaker : Json.Str}
    (hsame : SameVotes words words') (h : Majority words speaker) : Majority words' speaker := by
  have hback {word : MergedWord φ} (hword : word ∈ words') :
      ∃ other ∈ words, other.speaker = word.speaker := by
    rw [exists_mem_iff_wordCount_pos, ← hsame.count, ← exists_mem_iff_wordCount_pos]
    exact ⟨word, hword, rfl⟩
  refine ⟨?_, fun word hword => ?_, fun word hword heq => ?_⟩
  · rw [exists_mem_iff_wordCount_pos, hsame.count, ← exists_mem_iff_wordCount_pos]
    exact h.spoke
  · obtain ⟨other, hother, hspeaker⟩ := hback hword
    rw [hsame.count, hsame.count, ← hspeaker]
    exact h.most other hother
  · obtain ⟨other, hother, hspeaker⟩ := hback hword
    rw [hsame.count, hsame.count, ← hspeaker] at heq
    obtain ⟨own, hown, hownspeaker⟩ := h.spoke
    have horder := hsame.order own hown other hother
    rw [hownspeaker, hspeaker] at horder
    rw [horder, ← hspeaker]
    exact h.first other hother heq

end TranscriptionApi.Pipeline
