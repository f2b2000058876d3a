import TranscriptionApi.Pipeline.Merge
import TranscriptionApi.Pipeline.Run

/-!
What the merge makes of a transcript whose words have times.

One lemma says what becomes of a segment, `assignSegment_ok`: each of its words
gets a speaker and keeps its other fields, and the segment gets the speaker that
wins the vote of its words. The property the speaker of a word has with its
mid-point is a parameter there. It is the first nearest interval in one use, and
one of the labels of the diarization in another.
-/

namespace TranscriptionApi.Pipeline

open Lib Python

variable {φ τ : Type}

/-! ### Transcripts -/

section Transcripts

variable [LinearOrder τ] [Sub τ] [Zero τ] {clock : Clock φ τ}

/-- A number stands under the key. -/
def HasTime (clock : Clock φ τ) (fields : Json.Fields φ) (k : String) : Prop :=
  ∃ v t, fields.get? (jsonKey k) = some v ∧ clock.seconds v = some t

/-- A word with start and end. -/
def TimedWord (clock : Clock φ τ) (word : Json.Value φ) : Prop :=
  ∃ fields, word = .obj fields ∧ HasTime clock fields "start" ∧ HasTime clock fields "end"

/-- A segment the alignment gave no words. What it has of a text and of times is a
string and numbers. -/
structure Wordless (clock : Clock φ τ) (segment : Json.Fields φ) : Prop where
  words : ∀ v, segment.get? (jsonKey "words") = some v → truth clock v = false
  text : ∀ v, segment.get? (jsonKey "text") = some v → ∃ s, v = .str s
  start : ∀ v, segment.get? (jsonKey "start") = some v → ∃ t, clock.seconds v = some t
  stop : ∀ v, segment.get? (jsonKey "end") = some v → ∃ t, clock.seconds v = some t

/-- A segment of a transcript whose words have start and end. -/
def Transcribed (clock : Clock φ τ) (segment : Json.Value φ) : Prop :=
  ∃ fields : Json.Fields φ, segment = .obj fields ∧
    ((∃ words, fields.get? (jsonKey "words") = some (.arr words) ∧ words ≠ [] ∧
        ∀ word ∈ words, TimedWord clock word) ∨
      Wordless clock fields)

/-- A missing time is `0.0`. -/
theorem seconds_getD {segment : Json.Fields φ} {k : String}
    (h : ∀ v, segment.get? (jsonKey k) = some v → ∃ t, clock.seconds v = some t) :
    ∃ t, clock.seconds ((segment.get? (jsonKey k)).getD (.float (.finite clock.zero))) =
      some t := by
  cases hv : segment.get? (jsonKey k) with
  | none => exact ⟨0, clock.seconds_zero⟩
  | some v => exact h v hv

theorem pseudoWord_ok {segment : Json.Fields φ} (h : Wordless clock segment) :
    ∃ word, pseudoWord clock segment = .ok word ∧ TimedWord clock word := by
  obtain ⟨s, hs⟩ : ∃ s, (segment.get? (jsonKey "text")).getD (.str []) = .str s := by
    cases hv : segment.get? (jsonKey "text") with
    | none => exact ⟨[], rfl⟩
    | some v => exact h.text v hv
  obtain ⟨t, ht⟩ := seconds_getD h.start
  obtain ⟨u, hu⟩ := seconds_getD h.stop
  refine ⟨.obj (pseudoFields clock segment s), by rw [pseudoWord, hs], _, rfl, ⟨_, t, ?_, ht⟩,
    ⟨_, u, ?_, hu⟩⟩
  · simp [pseudoFields, Json.Fields.get?]
  · simp [pseudoFields, Json.Fields.get?]

theorem segmentWords_ok {fields : Json.Fields φ} (h : Transcribed clock (.obj fields)) :
    ∃ words, segmentWords clock fields = .ok words ∧ words ≠ [] ∧
      ∀ word ∈ words, TimedWord clock word := by
  obtain ⟨fields', hobj, hcases⟩ := h
  obtain rfl := Json.Value.obj.inj hobj
  rcases hcases with ⟨words, hwords, hne, htimed⟩ | hwordless
  · refine ⟨words, ?_, hne, htimed⟩
    have htruth : truth clock (.arr words) = true := by simp [truth, Json.Value.truth, hne]
    simp only [segmentWords, hwords, htruth, if_true]
  · obtain ⟨word, hword, htimed⟩ := pseudoWord_ok hwordless
    refine ⟨[word], ?_, List.cons_ne_nil _ _, ?_⟩
    · unfold segmentWords
      split
      · rw [hword]
        rfl
      · rename_i v hv
        rw [hwordless.words v hv, if_neg (by simp), hword]
        rfl
    · intro w hw
      rw [List.mem_singleton.mp hw]
      exact htimed

/-- The start of a word, where it is a number. -/
def wordStart (clock : Clock φ τ) (word : MergedWord φ) : Option τ :=
  (word.fields.get? (jsonKey "start")).bind clock.seconds

/-- No word starts after one that stands behind it. -/
def StartOrder (clock : Clock φ τ) (words : List (MergedWord φ)) : Prop :=
  words.Pairwise fun word later => ∀ t ∈ wordStart clock word, ∀ t' ∈ wordStart clock later, t ≤ t'

theorem StartOrder.le_of_le {words : List (MergedWord φ)} (hsorted : StartOrder clock words)
    {i j : ℕ} {word later : MergedWord φ} (hi : words[i]? = some word)
    (hj : words[j]? = some later) (hij : i ≤ j) :
    ∀ t ∈ wordStart clock word, ∀ t' ∈ wordStart clock later, t ≤ t' := by
  obtain ⟨hilt, hword⟩ := List.getElem?_eq_some_iff.mp hi
  obtain ⟨hjlt, hlater⟩ := List.getElem?_eq_some_iff.mp hj
  intro t ht t' ht'
  rcases hij.lt_or_eq with hlt | rfl
  · have hpair := List.pairwise_iff_getElem.mp hsorted i j hilt hjlt hlt
    rw [hword, hlater] at hpair
    exact hpair t ht t' ht'
  · obtain rfl := hword.symm.trans hlater
    exact le_of_eq (Option.some.inj (ht.symm.trans ht'))

/-! ### The vote -/

/-- The vote of a segment: nobody has more of its words than the speaker, of those
with as many the speaker has the earliest first word, and every list of words with
the same votes has the same speaker. -/
structure Voted (clock : Clock φ τ) (out : SpokenSegment φ) : Prop where
  most : ∀ speaker, wordCount out.words speaker ≤ wordCount out.words out.speaker
  first : ∃ (i : ℕ) (first : MergedWord φ), out.words[i]? = some first ∧
    first.speaker = out.speaker ∧
    ∀ (j : ℕ) (word : MergedWord φ), out.words[j]? = some word →
      wordCount out.words word.speaker = wordCount out.words out.speaker →
      i ≤ j ∧ (StartOrder clock out.words →
        ∀ t ∈ wordStart clock first, ∀ t' ∈ wordStart clock word, t ≤ t')
  same : ∀ words', SameVotes out.words words' → segmentMajoritySpeaker words' = .ok out.speaker

theorem voted_of_majority {out : SpokenSegment φ} (h : Majority out.words out.speaker) :
    Voted clock out where
  most := fun speaker => by
    rcases Nat.eq_zero_or_pos (wordCount out.words speaker) with hzero | hpos
    · omega
    · obtain ⟨word, hword, rfl⟩ := exists_mem_iff_wordCount_pos.mpr hpos
      exact h.most word hword
  first := by
    obtain ⟨first, hfirst, hspeaker⟩ := exists_firstWord h.spoke
    refine ⟨firstWord out.words out.speaker, first, hfirst, hspeaker, fun j word hword htie => ?_⟩
    have hmem : word ∈ out.words := List.mem_of_getElem? hword
    have hle : firstWord out.words out.speaker ≤ j :=
      (h.first word hmem htie).trans (firstWord_le hword)
    exact ⟨hle, fun hsorted => hsorted.le_of_le hfirst hword hle⟩
  same := fun _ hsame => segmentMajoritySpeaker_eq_ok_iff.mpr (h.congr hsame)

theorem wordSpeaker_ok (hgaps : GapsPositive τ) (diarization : List (Interval τ)) (mid : τ) :
    ∃ speaker, wordSpeaker diarization mid = .ok speaker := by
  unfold wordSpeaker
  split
  · exact ⟨unknownSpeaker, rfl⟩
  · rename_i hne
    obtain ⟨speaker, hok, -⟩ := speakerForMidpoint_ok hgaps (by simpa using hne) mid
    exact ⟨speaker, hok⟩

end Transcripts

/-! ### Segments -/

section Segments

variable [LinearOrder τ] [Add τ] [Sub τ] [Div τ] [Zero τ] [OfNat τ 2] {clock : Clock φ τ}
  {diarization : List (Interval τ)}

/-- What becomes of a word whose mid-point and speaker are related by `P`. -/
def SpokenWord (clock : Clock φ τ) (P : τ → Json.Str → Prop) (word : Json.Value φ)
    (word' : MergedWord φ) : Prop :=
  ∃ fields mid, word = .obj fields ∧ wordMidpoint clock fields = .ok mid ∧
    word' = withSpeaker fields word'.speaker ∧ P mid word'.speaker

/-- What becomes of a segment. -/
structure Spoken (clock : Clock φ τ) (P : τ → Json.Str → Prop) (fields : Json.Fields φ)
    (out : SpokenSegment φ) : Prop where
  words : ∃ words, segmentWords clock fields = .ok words ∧ words ≠ [] ∧
    List.Forall₂ (SpokenWord clock P) words out.words
  majority : segmentMajoritySpeaker out.words = .ok out.speaker
  fields : out = spokenSegment fields out.words out.speaker

theorem wordMidpoint_ok {word : Json.Fields φ} (hstart : HasTime clock word "start")
    (hstop : HasTime clock word "end") : ∃ mid, wordMidpoint clock word = .ok mid := by
  obtain ⟨v, t, hv, ht⟩ := hstart
  obtain ⟨w, u, hw, hu⟩ := hstop
  refine ⟨midpoint t u, ?_⟩
  simp only [wordMidpoint, wordItem, hv, hw, bind, Except.bind, ht, hu]
  rfl

theorem assignWord_ok {P : τ → Json.Str → Prop}
    (hP : ∀ mid, ∃ speaker, wordSpeaker diarization mid = .ok speaker ∧ P mid speaker)
    {word : Json.Value φ} (h : TimedWord clock word) :
    ∃ word', assignWord clock diarization word = .ok word' ∧ SpokenWord clock P word word' := by
  obtain ⟨fields, rfl, hstart, hstop⟩ := h
  obtain ⟨mid, hmid⟩ := wordMidpoint_ok hstart hstop
  obtain ⟨speaker, hspeaker, hrel⟩ := hP mid
  refine ⟨withSpeaker fields speaker, ?_, fields, mid, rfl, hmid, rfl, hrel⟩
  simp only [assignWord, Json.Value.fields?, bind, Except.bind, hmid, hspeaker]
  rfl

theorem assignSegment_ok {P : τ → Json.Str → Prop}
    (hP : ∀ mid, ∃ speaker, wordSpeaker diarization mid = .ok speaker ∧ P mid speaker)
    {fields : Json.Fields φ} (h : Transcribed clock (.obj fields)) :
    ∃ out, assignSegment clock diarization (.obj fields) = .ok out ∧ Spoken clock P fields out := by
  obtain ⟨words, hwords, hne, htimed⟩ := segmentWords_ok h
  obtain ⟨newWords, hnew, hall⟩ := Json.mapM_ok_of_forall fun word hword =>
    assignWord_ok hP (htimed word hword)
  have hnewne : newWords ≠ [] := by
    rintro rfl
    exact hne (List.forall₂_nil_right_iff.mp hall)
  obtain ⟨speaker, hspeaker⟩ := segmentMajoritySpeaker_ok hnewne
  refine ⟨spokenSegment fields newWords speaker, ?_, ⟨words, hwords, hne, hall⟩, hspeaker, rfl⟩
  have hvote : segmentSpeaker newWords = .ok speaker := by
    rw [segmentSpeaker, if_neg (by simpa using hnewne), hspeaker]
  simp only [assignSegment, Json.Value.fields?, bind, Except.bind, hwords, hnew, hvote]
  rfl

theorem assignSpeakersToWords_ok {P : τ → Json.Str → Prop}
    (hP : ∀ mid, ∃ speaker, wordSpeaker diarization mid = .ok speaker ∧ P mid speaker)
    {segments : List (Json.Value φ)} (h : ∀ segment ∈ segments, Transcribed clock segment) :
    ∃ out, assignSpeakersToWords clock segments diarization = .ok out ∧
      List.Forall₂ (fun segment out => ∃ fields, segment = .obj fields ∧ Spoken clock P fields out)
        segments out := by
  refine Json.mapM_ok_of_forall fun segment hsegment => ?_
  obtain ⟨fields, rfl, hcases⟩ := h segment hsegment
  obtain ⟨out, hout, hspoken⟩ := assignSegment_ok hP ⟨fields, rfl, hcases⟩
  exact ⟨out, hout, fields, rfl, hspoken⟩

/-- Exact times, where floats are whole. -/
def exactClock : Clock ℤ ℚ where
  gaps _ _ h := sub_pos.mpr h
  seconds
    | .int n => some n
    | .bool b => some (if b then 1 else 0)
    | .float (.finite x) => some x
    | _ => none
  zero := 0
  seconds_zero := congrArg some Int.cast_zero
  isZero x := x = 0

/-- Two words of one segment. -/
def dialogueSegment : Json.Value ℤ :=
  .obj [(jsonKey "words", .arr [
    .obj [(jsonKey "start", .int 0), (jsonKey "end", .int 1)],
    .obj [(jsonKey "start", .int 1), (jsonKey "end", .int 3)]])]

theorem transcribed_dialogue : ∀ segment ∈ [dialogueSegment], Transcribed exactClock segment := by
  intro segment hsegment
  rw [List.mem_singleton.mp hsegment]
  refine ⟨_, rfl, .inl ⟨_, rfl, List.cons_ne_nil _ _, fun word hword => ?_⟩⟩
  rcases List.mem_cons.mp hword with rfl | hword
  · exact ⟨_, rfl, ⟨_, 0, rfl, rfl⟩, ⟨_, 1, rfl, rfl⟩⟩
  · rw [List.mem_singleton.mp hword]
    exact ⟨_, rfl, ⟨_, 1, rfl, rfl⟩, ⟨_, 3, rfl, rfl⟩⟩

/-- The speaker of a word is the one of the first nearest interval, and nearest
means zero in the intervals that contain the mid-point. -/
theorem assignSpeakersToWords_nearest (hne : diarization ≠ []) {segments : List (Json.Value φ)}
    (h : ∀ segment ∈ segments, Transcribed clock segment) :
    (∀ mid (s : Interval τ), distance mid s = 0 ↔ s.start ≤ mid ∧ mid ≤ s.stop) ∧
    ∃ out, assignSpeakersToWords clock segments diarization = .ok out ∧
      List.Forall₂ (fun segment out => ∃ fields words, segment = .obj fields ∧
        segmentWords clock fields = .ok words ∧
        List.Forall₂ (fun word word' => ∃ fields mid, word = .obj fields ∧
          wordMidpoint clock fields = .ok mid ∧ word' = withSpeaker fields word'.speaker ∧
          FirstNearest mid diarization word'.speaker) words out.words) segments out := by
  refine ⟨fun mid s => ?_, ?_⟩
  · rw [distance_eq_zero_iff clock.gaps, contains, decide_eq_true_eq]
  · have hnonempty : diarization.isEmpty = false := by simpa using hne
    have hspeaker (mid : τ) : ∃ speaker, wordSpeaker diarization mid = .ok speaker ∧
        FirstNearest mid diarization speaker := by
      obtain ⟨speaker, hok, hnearest⟩ := speakerForMidpoint_ok clock.gaps hne mid
      exact ⟨speaker, by rw [wordSpeaker, hnonempty]; exact hok, hnearest⟩
    obtain ⟨out, hout, hall⟩ := assignSpeakersToWords_ok hspeaker h
    refine ⟨out, hout, hall.imp fun segment out' hspoken => ?_⟩
    obtain ⟨fields, rfl, hspoken⟩ := hspoken
    obtain ⟨words, hwords, -, hwordsall⟩ := hspoken.words
    exact ⟨fields, words, rfl, hwords, hwordsall⟩

/-- The second word lies between two intervals that overlap with neither. -/
theorem assignSpeakersToWords_nearest_dialogue :
    ∃ out, assignSpeakersToWords exactClock [dialogueSegment] [⟨4, 5, [1]⟩, ⟨0, 1, [2]⟩] = .ok out ∧
      out.length = 1 := by
  obtain ⟨-, out, hout, hall⟩ :=
    assignSpeakersToWords_nearest (List.cons_ne_nil ⟨4, 5, [1]⟩ [⟨0, 1, [2]⟩]) transcribed_dialogue
  exact ⟨out, hout, hall.length_eq.symm⟩

/-- Every segment of the transcript comes out as one segment, with its words, each
under the speaker of its mid-point, and with the speaker that wins their vote. -/
theorem assignSpeakersToWords_majority (diarization : List (Interval τ))
    {segments : List (Json.Value φ)} (h : ∀ segment ∈ segments, Transcribed clock segment) :
    ∃ merged, assignSpeakersToWords clock segments diarization = .ok merged ∧
      List.Forall₂ (fun segment out => ∃ fields words, segment = .obj fields ∧
        segmentWords clock fields = .ok words ∧
        List.Forall₂ (fun word word' => ∃ fields mid, word = .obj fields ∧
          wordMidpoint clock fields = .ok mid ∧ word' = withSpeaker fields word'.speaker ∧
          wordSpeaker diarization mid = .ok word'.speaker) words out.words ∧
        out = spokenSegment fields out.words out.speaker ∧ Voted clock out) segments merged := by
  have hspeaker (mid : τ) : ∃ speaker, wordSpeaker diarization mid = .ok speaker ∧
      wordSpeaker diarization mid = .ok speaker := by
    obtain ⟨speaker, hok⟩ := wordSpeaker_ok clock.gaps diarization mid
    exact ⟨speaker, hok, hok⟩
  obtain ⟨merged, hmerged, hall⟩ := assignSpeakersToWords_ok hspeaker h
  refine ⟨merged, hmerged, hall.imp fun segment out hspoken => ?_⟩
  obtain ⟨fields, rfl, hspoken⟩ := hspoken
  obtain ⟨words, hwords, -, hwordsall⟩ := hspoken.words
  exact ⟨fields, words, rfl, hwords, hwordsall, hspoken.fields,
    voted_of_majority (segmentMajoritySpeaker_eq_ok_iff.mp hspoken.majority)⟩

/-- Two speakers with one word each: the first word decides, although the other
interval comes first. -/
theorem assignSpeakersToWords_majority_dialogue :
    ∃ out, assignSpeakersToWords exactClock [dialogueSegment] [⟨3 / 2, 3, [1]⟩, ⟨0, 1, [2]⟩] =
        .ok [out] ∧
      wordCount out.words [1] = 1 ∧ wordCount out.words [2] = 1 ∧ out.speaker = [2] ∧
      Voted exactClock out := by
  obtain ⟨merged, hmerged, hall⟩ :=
    assignSpeakersToWords_majority [⟨3 / 2, 3, [1]⟩, ⟨0, 1, [2]⟩] transcribed_dialogue
  obtain ⟨out, rest, ⟨fields, words, -, -, -, -, hvoted⟩, hrest, rfl⟩ :=
    List.forall₂_cons_left_iff.mp hall
  obtain rfl := List.forall₂_nil_left_iff.mp hrest
  have hspoken : (assignSpeakersToWords exactClock [dialogueSegment]
      [⟨3 / 2, 3, [1]⟩, ⟨0, 1, [2]⟩]).toOption.map (fun merged => merged.map fun out =>
        (wordCount out.words [1], wordCount out.words [2], out.speaker)) =
      some [(1, 1, [2])] := by decide +kernel
  rw [hmerged] at hspoken
  simp only [Except.toOption, Option.map_some, List.map_cons, List.map_nil, Option.some.injEq,
    List.cons.injEq, Prod.mk.injEq, and_true] at hspoken
  exact ⟨out, hmerged, hspoken.1, hspoken.2.1, hspoken.2.2, hvoted⟩

end Segments

end TranscriptionApi.Pipeline
