import TranscriptionApi.Pipeline.Hits
import TranscriptionApi.Pipeline.Speakers

/-!
The payload of a miss, from what WhisperX and pyannote return.

A call of the pipeline has the outcome of its stages as part of the call. Here the
outcome of the diarization is computed: `diarize` caps the speakers and the merge
gives every word and segment one of them, or `UNKNOWN` where there are none. Every
name that comes out is one that went in, so the number of different names stays
within the cap.
-/

namespace TranscriptionApi.Pipeline

open Lib Python

/-- Dictionaries of a running program have no key twice, at any depth. -/
abbrev PyValue (φ : Type) := { v : Json.Value φ // v.Distinct }

variable {δ φ τ : Type}

/-! ### Dictionaries -/

section Distinct

variable [LinearOrder τ] [Sub τ] [Zero τ] {clock : Clock φ τ}

theorem distinct_segmentWords {fields : Json.Fields φ} {words : List (Json.Value φ)}
    (hfields : (Json.Value.obj fields).Distinct) (h : segmentWords clock fields = .ok words) :
    ∀ word ∈ words, word.Distinct := by
  have hgetD (k : String) : Json.Value.Distinct ((fields.get? (jsonKey k)).getD
      (.float (.finite clock.zero))) := by
    cases hv : fields.get? (jsonKey k) with
    | none => exact trivial
    | some v => exact hfields.of_get? hv
  have hpseudo (hw : (pseudoWord clock fields).map (fun word => [word]) = .ok words) :
      ∀ word ∈ words, word.Distinct := by
    obtain ⟨word, hword, rfl⟩ := Json.map_eq_ok hw
    intro w hw
    rw [List.mem_singleton.mp hw]
    unfold pseudoWord at hword
    split at hword
    · cases hword
      refine ⟨?_, hgetD "start", hgetD "end", trivial, trivial⟩
      simp [pseudoFields, Json.Fields.keys]
    · cases hword
  unfold segmentWords at h
  split at h
  · exact hpseudo h
  · rename_i v hv
    split at h
    · split at h
      · cases h
        exact Json.itemsDistinct_iff.mp (hfields.of_get? hv)
      · cases h
    · exact hpseudo h

variable [Add τ] [Div τ] [OfNat τ 2] {diarization : List (Interval τ)}

theorem distinct_assignWord {word : Json.Value φ} {word' : MergedWord φ} (hword : word.Distinct)
    (h : assignWord clock diarization word = .ok word') :
    (Json.Value.obj word'.fields).Distinct := by
  unfold assignWord at h
  cases word with
  | obj fields =>
      obtain ⟨mid, -, h⟩ := Json.bind_eq_ok h
      obtain ⟨speaker, -, h⟩ := Json.bind_eq_ok h
      obtain rfl := Except.ok.inj h
      exact hword.setItem _ trivial
  | _ => cases h

theorem distinct_assignSegment {segment : Json.Value φ} {out : SpokenSegment φ}
    (hsegment : segment.Distinct) (h : assignSegment clock diarization segment = .ok out) :
    (Json.Value.obj out.fields).Distinct := by
  unfold assignSegment at h
  cases segment with
  | obj fields =>
      obtain ⟨words, hwords, h⟩ := Json.bind_eq_ok h
      obtain ⟨newWords, hnew, h⟩ := Json.bind_eq_ok h
      obtain ⟨speaker, -, h⟩ := Json.bind_eq_ok h
      obtain rfl := Except.ok.inj h
      refine (hsegment.setItem _ ?_).setItem _ trivial
      refine Json.itemsDistinct_iff.mpr fun v hv => ?_
      obtain ⟨word', hword', rfl⟩ := List.mem_map.mp hv
      obtain ⟨word, hword, hassign⟩ :=
        Json.exists_of_mem_right (Json.forall₂_of_mapM_ok hnew) hword'
      exact distinct_assignWord (distinct_segmentWords hsegment hwords word hword) hassign
  | _ => cases h

end Distinct

/-! ### The stages -/

section Stages

variable [LinearOrder τ] [Add τ] [Sub τ] [Div τ] [Zero τ] [OfNat τ 2] (clock : Clock φ τ)

def mergeSegment (diarization : List (Interval τ)) (segment : PyValue φ) :
    Except StageFault (MergedSegment φ) :=
  match h : assignSegment clock diarization segment.1 with
  | .error e => .error e
  | .ok out => .ok ⟨out.fields, out.speaker, out.fields_speaker,
      distinct_assignSegment segment.2 h⟩

/-- `assign_speakers_to_words` on the dictionaries of a transcript. -/
def mergeStage (segments : List (PyValue φ)) (diarization : List (Interval τ)) :
    Except StageFault (List (MergedSegment φ)) :=
  segments.mapM (mergeSegment clock diarization)

/-- A call whose transcript is known, with what the diarization and the merge
make of it. -/
def withSpeakers [Neg τ] (call : OrchestrateCall φ) (segments : List (PyValue φ))
    (language : Option Json.Str) (pyannote : SpeakerHints → Option (List (Interval τ)))
    (hints : SpeakerHints) : OrchestrateCall φ :=
  { call with
    stt := some ⟨some (segments.map Subtype.val), language⟩
    diarize := ((diarize pyannote hints).bind (mergeStage clock segments)).toOption }

variable {clock} {diarization : List (Interval τ)}

theorem mergeSegment_ok {segment : PyValue φ} {out : SpokenSegment φ}
    (h : assignSegment clock diarization segment.1 = .ok out) :
    ∃ merged, mergeSegment clock diarization segment = .ok merged ∧
      merged.fields = out.fields ∧ merged.speaker = out.speaker := by
  unfold mergeSegment
  split
  · rename_i e he
    rw [h] at he
    cases he
  · rename_i out' hout'
    obtain rfl := Except.ok.inj (h.symm.trans hout')
    exact ⟨_, rfl, rfl, rfl⟩

/-- What the payload has of a segment: words that are not none, a speaker for each
of them and for the segment, and every other field as it came. -/
def FromSegment (clock : Clock φ τ) (segment : Json.Value φ) (merged : MergedSegment φ) : Prop :=
  ∃ (fields : Json.Fields φ) (given : List (Json.Value φ)) (words : List (MergedWord φ)),
    segment = .obj fields ∧ segmentWords clock fields = .ok given ∧ words ≠ [] ∧
    merged.fields.get? (jsonKey "words") = some (.arr (words.map fun word => .obj word.fields)) ∧
    List.Forall₂ (fun word word' => ∃ fields : Json.Fields φ, word = .obj fields ∧
      ∀ k, k ≠ jsonKey "speaker" → word'.fields.get? k = fields.get? k) given words ∧
    ∀ k, k ≠ jsonKey "words" → k ≠ jsonKey "speaker" → merged.fields.get? k = fields.get? k

theorem fromSegment_of_spoken {P : τ → Json.Str → Prop} {fields : Json.Fields φ}
    {out : SpokenSegment φ} {merged : MergedSegment φ} (hspoken : Spoken clock P fields out)
    (hmerged : merged.fields = out.fields) : FromSegment clock (.obj fields) merged := by
  obtain ⟨given, hgiven, hne, hall⟩ := hspoken.words
  refine ⟨fields, given, out.words, rfl, hgiven, ?_, by rw [hmerged, out.fields_words], ?_, ?_⟩
  · intro hnil
    rw [hnil] at hall
    exact hne (List.forall₂_nil_right_iff.mp hall)
  · refine hall.imp fun word word' hword => ?_
    obtain ⟨wordFields, -, rfl, -, hword', -⟩ := hword
    refine ⟨wordFields, rfl, fun k hk => ?_⟩
    rw [hword', withSpeaker, Json.Fields.get?_setItem, if_neg hk]
  · intro k hwords hspeaker
    rw [hmerged, hspoken.fields, spokenSegment, Json.Fields.get?_setItem, if_neg hspeaker,
      Json.Fields.get?_setItem, if_neg hwords]

/-- The speaker of a segment is the speaker of one of its words. -/
theorem Spoken.exists_mid {P : τ → Json.Str → Prop} {fields : Json.Fields φ}
    {out : SpokenSegment φ} (hspoken : Spoken clock P fields out) : ∃ mid, P mid out.speaker := by
  obtain ⟨word', hword', hspeaker⟩ :=
    (segmentMajoritySpeaker_eq_ok_iff.mp hspoken.majority).spoke
  obtain ⟨given, -, -, hall⟩ := hspoken.words
  obtain ⟨word, -, -, mid, -, -, -, hP⟩ := Json.exists_of_mem_right hall hword'
  exact ⟨mid, hspeaker ▸ hP⟩

end Stages

/-! ### The names that come out -/

section Names

variable {diarization : List (Interval τ)}

/-- A name of the diarization, or `UNKNOWN` for an empty one. -/
def Named (diarization : List (Interval τ)) (speaker : Json.Str) : Prop :=
  speaker ∈ if diarization = [] then [unknownSpeaker] else distinctSpeakers diarization

/-- A name that comes out is not empty. -/
theorem Named.ne_nil {speaker : Json.Str}
    (h : Named diarization speaker) (hlabels : ∀ label ∈ distinctSpeakers diarization, label ≠ []) :
    speaker ≠ [] := by
  unfold Named at h
  split at h
  · rw [List.mem_singleton.mp h]
    decide
  · exact hlabels speaker h

theorem wordSpeaker_named [LinearOrder τ] [Sub τ] [Zero τ] (clock : Clock φ τ) (mid : τ) :
    ∃ speaker, wordSpeaker diarization mid = .ok speaker ∧ Named diarization speaker := by
  unfold wordSpeaker Named
  by_cases hnil : diarization = []
  · rw [hnil]
    exact ⟨unknownSpeaker, rfl, List.mem_singleton_self _⟩
  · obtain ⟨speaker, hok, i, g, hi, hg, -⟩ := speakerForMidpoint_ok clock.gaps hnil mid
    refine ⟨speaker, by rw [if_neg (by simpa using hnil), hok], ?_⟩
    rw [if_neg hnil, mem_distinctSpeakers]
    exact ⟨g, List.mem_of_getElem? hi, hg⟩

/-- The cap leaves at most `k` names, all of them from the diarization. -/
theorem capSpeakersByDuration_names [LinearOrder τ] [Add τ] [Sub τ] [Neg τ] [Div τ] [Zero τ]
    [OfNat τ 2] {k : ℤ} (hk : 1 ≤ k) (turns : List (Interval τ)) :
    ∃ out, capSpeakersByDuration turns k = .ok out ∧ ((distinctSpeakers out).length : ℤ) ≤ k ∧
      ∀ speaker ∈ distinctSpeakers out, speaker ∈ distinctSpeakers turns := by
  rcases le_or_gt ((distinctSpeakers turns).length : ℤ) k with hle | hlt
  · exact ⟨turns, capSpeakersByDuration_of_le hle, hle, fun speaker h => h⟩
  · obtain ⟨out, hout, hall⟩ := capSpeakersByDuration_of_lt hk hlt
    have hcapped := capped_of_relabelled hk hlt hall
    refine ⟨out, hout, le_of_eq hcapped.count, fun speaker hspeaker => ?_⟩
    obtain ⟨s', hs', rfl⟩ := mem_distinctSpeakers.mp hspeaker
    exact keys_durations turns ▸ Tally.mem_keys_of_mem_top (mem_top_of_relabelled hall hs')

/-- Names without repetition are no more than the cap allows. -/
theorem length_le_of_named {k : ℤ} (hk : 1 ≤ k) {speakers : List Json.Str}
    (hcap : ((distinctSpeakers diarization).length : ℤ) ≤ k) (hnodup : speakers.Nodup)
    (hnamed : ∀ speaker ∈ speakers, Named diarization speaker) : (speakers.length : ℤ) ≤ k := by
  have hle := (hnodup.subperm hnamed).length_le
  split at hle
  · have hone : speakers.length ≤ 1 := hle
    omega
  · omega

/-- The merge of a transcript whose words have times. -/
theorem mergeStage_ok [LinearOrder τ] [Add τ] [Sub τ] [Div τ] [Zero τ] [OfNat τ 2]
    {clock : Clock φ τ} {segments : List (PyValue φ)} (diarization : List (Interval τ))
    (h : ∀ segment ∈ segments, Transcribed clock segment.1) :
    ∃ merged, mergeStage clock segments diarization = .ok merged ∧
      List.Forall₂ (fun segment merged => FromSegment clock segment.1 merged ∧
        Named diarization merged.speaker) segments merged := by
  refine Json.mapM_ok_of_forall fun segment hsegment => ?_
  obtain ⟨fields, hfields, hcases⟩ := h segment hsegment
  obtain ⟨out, hout, hspoken⟩ := assignSegment_ok (wordSpeaker_named clock) ⟨fields, rfl, hcases⟩
  rw [← hfields] at hout
  obtain ⟨merged, hmerged, hmergedFields, hspeaker⟩ := mergeSegment_ok hout
  obtain ⟨-, hnamed⟩ := hspoken.exists_mid
  refine ⟨merged, hmerged, ?_, hspeaker ▸ hnamed⟩
  rw [hfields]
  exact fromSegment_of_spoken hspoken hmergedFields

end Names

/-! ### The payload -/

section Payload

variable [LinearOrder τ] [Add τ] [Sub τ] [Neg τ] [Div τ] [Zero τ] [OfNat τ 2]
  {clock : Clock φ τ} {S : Services δ φ} {settings : ModelSettings} {base : Path}
  {t : FileTree Bytes} {call : OrchestrateCall φ} {segments : List (PyValue φ)}
  {language : Option Json.Str} {pyannote : SpeakerHints → Option (List (Interval τ))}
  {hints : SpeakerHints} {turns : List (Interval τ)} {audioHash : String}
  {duration : Json.Number φ} {k : ℤ}

/-- The text of a segment as it is printed. -/
def segmentText (S : Services δ φ) (segment : MergedSegment φ) : Json.Str :=
  match (segment.fields.get? (jsonKey "text")).getD (.str []) with
  | .str text => text
  | v => S.str v

theorem buildTextContent_eq (hstr : ∀ s, S.str (.str s) = s) (merged : List (MergedSegment φ)) :
    buildTextContent S merged = (jsonKey "\n").intercalate
      (merged.map fun segment => segment.speaker ++ jsonKey ": " ++ segmentText S segment) := by
  have hline (segment : MergedSegment φ) :
      S.str ((segment.fields.get? (jsonKey "text")).getD (.str [])) = segmentText S segment := by
    unfold segmentText
    split
    · rename_i text htext
      rw [htext, hstr]
    · rfl
  simp only [buildTextContent, MergedSegment.fields_speaker, Option.getD_some, hstr, hline]

theorem uniqueSpeakers_eq {merged : List (MergedSegment φ)}
    (h : ∀ segment ∈ merged, segment.speaker ≠ []) :
    uniqueSpeakers merged = (merged.map MergedSegment.speaker).dedup := by
  have hall : ∀ speaker ∈ merged.map MergedSegment.speaker, (!speaker.isEmpty) = true := by
    intro speaker hspeaker
    obtain ⟨segment, hsegment, rfl⟩ := List.mem_map.mp hspeaker
    simpa using h segment hsegment
  rw [uniqueSpeakers, List.filter_eq_self.mpr hall]

theorem diarize_ok (hpyannote : pyannote hints = some turns) (hmax : hints.maxSpeakers = some k)
    (hk : 1 ≤ k) : ∃ out, diarize pyannote hints = .ok out ∧
      ((distinctSpeakers out).length : ℤ) ≤ k ∧
      ∀ speaker ∈ distinctSpeakers out, speaker ∈ distinctSpeakers turns := by
  obtain ⟨out, hout, hcount, hsub⟩ := capSpeakersByDuration_names hk turns
  refine ⟨out, ?_, hcount, hsub⟩
  simp only [diarize, hpyannote, hmax]
  exact hout

/-- What a run stores and returns is the payload it has computed. -/
theorem runPipeline_of_miss (call : OrchestrateCall φ) {payload : Json.Fields φ}
    (hnormalize : call.normalize = some (audioHash, duration))
    (hmiss : CacheStore.get S.interpreter base t call.userId audioHash = .ok none)
    (hpayload : (computePayload S settings call audioHash duration).1 = .ok payload) :
    (∀ w, (runPipeline S settings base t call).written = some w → w = (audioHash, payload)) ∧
      ∀ r, (runPipeline S settings base t call).result = .ok r →
        r = pipelineResult call.rowId payload := by
  have hrun : runPipeline S settings base t call =
      missReport S settings base t call audioHash duration := by
    simp only [runPipeline, hnormalize, hmiss]
  rw [hrun]
  rcases missReport_cases t call audioHash duration with
    ⟨⟨e, he⟩, hnone⟩ | ⟨payload', hpayload', hresult, -, hwritten⟩
  · exact ⟨fun w hw => absurd (hnone.symm.trans hw) (by simp),
      fun r hr => absurd (he.symm.trans hr) (by simp)⟩
  · obtain rfl := Except.ok.inj (hpayload.symm.trans hpayload')
    refine ⟨fun w hw => (Option.some.inj (hwritten.symm.trans hw)).symm, fun r hr => ?_⟩
    obtain ⟨⟨row, result⟩, hpersist, rfl⟩ := Json.map_eq_ok (hresult.symm.trans hr)
    obtain ⟨-, -, -, -, hreturn, -⟩ := persistRow_ok hpersist
    exact hreturn

/-- A run that misses the cache, on a transcript whose words have times and turns
that all have a name, with at most `k` speakers. -/
theorem runPipeline_speakers (settings : ModelSettings) (language : Option Json.Str)
    (hstr : ∀ s, S.str (.str s) = s) (hne : segments ≠ [])
    (htranscribed : ∀ segment ∈ segments, Transcribed clock segment.1)
    (hpyannote : pyannote hints = some turns) (hlabels : ∀ turn ∈ turns, turn.speaker ≠ [])
    (hmax : hints.maxSpeakers = some k) (hk : 1 ≤ k)
    (hnormalize : call.normalize = some (audioHash, duration))
    (hmiss : CacheStore.get S.interpreter base t call.userId audioHash = .ok none) :
    let run := runPipeline S settings base t
      (withSpeakers clock call segments language pyannote hints)
    ∃ (merged : List (MergedSegment φ)) (n : ℕ) (payload : Json.Fields φ),
      (computePayload S settings (withSpeakers clock call segments language pyannote hints)
        audioHash duration).1 = .ok payload ∧
      (∀ w, run.written = some w → w = (audioHash, payload)) ∧
      (∀ r, run.result = .ok r → r = pipelineResult call.rowId payload) ∧
      payload.get? (jsonKey "segments") =
        some (.arr (merged.map fun segment => .obj segment.fields)) ∧
      List.Forall₂ (fun segment out => FromSegment clock segment.1 out) segments merged ∧
      payload.get? (jsonKey "num_speakers") = some (.int n) ∧
      n = ((merged.map MergedSegment.speaker).dedup).length ∧ 1 ≤ n ∧ (n : ℤ) ≤ k ∧
      payload.get? (jsonKey "text_content") = some (.str ((jsonKey "\n").intercalate
        (merged.map fun segment => segment.speaker ++ jsonKey ": " ++ segmentText S segment))) := by
  obtain ⟨out, hout, hcount, hsub⟩ := diarize_ok hpyannote hmax hk
  obtain ⟨merged, hmerged, hall⟩ := mergeStage_ok out htranscribed
  have hnamed : ∀ segment ∈ merged, Named out segment.speaker := by
    intro segment hsegment
    obtain ⟨-, -, -, hname⟩ := Json.exists_of_mem_right hall hsegment
    exact hname
  have hlabel : ∀ label ∈ distinctSpeakers out, label ≠ [] := by
    intro label hlabel
    obtain ⟨turn, hturn, rfl⟩ := mem_distinctSpeakers.mp (hsub label hlabel)
    exact hlabels turn hturn
  have hunique := uniqueSpeakers_eq fun segment hsegment =>
    (hnamed segment hsegment).ne_nil hlabel
  have hmergedne : merged ≠ [] := by
    rintro rfl
    exact hne (List.forall₂_nil_right_iff.mp hall)
  have hsegments : (segments.map Subtype.val).isEmpty = false :=
    List.isEmpty_eq_false_iff.mpr fun hnil => hne (List.map_eq_nil_iff.mp hnil)
  have hcompute : (computePayload S settings
      (withSpeakers clock call segments language pyannote hints) audioHash duration).1 =
        .ok (mergedPayload S settings audioHash (language.getD call.language) duration merged) := by
    simp only [computePayload, withSpeakers, hout, Except.bind, hmerged, Except.toOption,
      Option.getD_some, hsegments]
    rfl
  obtain ⟨hwritten, hreturned⟩ := runPipeline_of_miss
    (withSpeakers clock call segments language pyannote hints) hnormalize hmiss hcompute
  refine ⟨merged, _, _, hcompute, hwritten, hreturned, ?_, hall.imp fun _ _ h => h.1, ?_, rfl,
    ?_, ?_, ?_⟩
  · simp [mergedPayload, payloadOf, Json.Fields.get?]
  · simp [mergedPayload, payloadOf, Json.Fields.get?, hunique]
  · obtain ⟨segment, hsegment⟩ := List.exists_mem_of_ne_nil merged hmergedne
    have hmem : segment.speaker ∈ (merged.map MergedSegment.speaker).dedup :=
      List.mem_dedup.mpr (List.mem_map_of_mem hsegment)
    exact List.length_pos_of_mem hmem
  · refine length_le_of_named hk hcount (List.nodup_dedup _) fun speaker hspeaker => ?_
    obtain ⟨segment, hsegment, rfl⟩ := List.mem_map.mp (List.mem_dedup.mp hspeaker)
    exact hnamed segment hsegment
  · rw [← buildTextContent_eq hstr]
    simp [mergedPayload, payloadOf, Json.Fields.get?]

theorem distinct_dialogueSegment : dialogueSegment.Distinct := by
  refine ⟨by decide, ⟨⟨?_, trivial, trivial, trivial⟩, ⟨?_, trivial, trivial, trivial⟩, trivial⟩,
    trivial⟩
  · decide
  · decide

/-- Two turns of two speakers, where one is the most there may be. -/
def twoTurns : List (Interval ℚ) := [⟨0, 1, [1]⟩, ⟨1, 3, [2]⟩]

def answerTwoTurns (_ : SpeakerHints) : Option (List (Interval ℚ)) := some twoTurns

theorem runPipeline_speakers_dialogue :
    ∃ (n : ℕ) (payload : Json.Fields ℤ), (computePayload sampleServices {}
      (withSpeakers exactClock sampleCall [⟨dialogueSegment, distinct_dialogueSegment⟩] none
        answerTwoTurns ⟨none, none, some 1⟩) sampleHash (.finite 12)).1 = .ok payload ∧
      payload.get? (jsonKey "num_speakers") = some (.int n) ∧ 1 ≤ n ∧ (n : ℤ) ≤ 1 := by
  have htranscribed : ∀ segment ∈ [(⟨dialogueSegment, distinct_dialogueSegment⟩ : PyValue ℤ)],
      Transcribed exactClock segment.1 := by
    intro segment hsegment
    rw [List.mem_singleton.mp hsegment]
    exact transcribed_dialogue dialogueSegment (List.mem_singleton_self _)
  have hpyannote : answerTwoTurns ⟨none, none, some 1⟩ = some twoTurns := rfl
  have hmiss : CacheStore.get sampleServices.interpreter [] FileTree.empty sampleCall.userId
      sampleHash = .ok none := rfl
  obtain ⟨-, n, payload, hpayload, -, -, -, -, hn, -, hpos, hle, -⟩ :=
    runPipeline_speakers {} none (fun _ => rfl) (List.cons_ne_nil _ _) htranscribed hpyannote
      (by decide) rfl (le_refl 1) rfl hmiss
  exact ⟨n, payload, hpayload, hn, hpos, hle⟩

end Payload

end TranscriptionApi.Pipeline
