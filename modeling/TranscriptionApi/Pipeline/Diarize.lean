import Mathlib.Algebra.BigOperators.Group.List.Basic
import Mathlib.Algebra.Order.Field.Rat
import TranscriptionApi.Lib.Json.Value
import TranscriptionApi.Lib.Tally

/-!
`diarize`: who speaks when, with at most the number of speakers the caller asked
for.

Times come as a type with an order and the operations the code uses on them, so
that what is proved holds for exact numbers as well as for rounded ones. The cap
keeps the speakers who talk longest, and gives every other segment to the speaker
of the kept segment whose mid-point is nearest. The durations are a `Tally`, in
the order in which the speakers turn up, and the sort is stable.
-/

namespace TranscriptionApi.Pipeline

open Lib

/-- `(start, end, speaker)`. -/
structure Interval (τ : Type) where
  start : τ
  stop : τ
  speaker : Json.Str
  deriving DecidableEq

/-- What the stages that handle speakers raise. -/
inductive StageFault where
  /-- `PipelineDiarizeError` -/
  | diarize
  /-- the `min` of nothing -/
  | valueError
  /-- the first of nothing -/
  | indexError
  | typeError
  | attributeError
  | keyError (key : Json.Str)
  deriving DecidableEq

structure SpeakerHints where
  numSpeakers : Option ℤ
  minSpeakers : Option ℤ
  maxSpeakers : Option ℤ

variable {τ : Type}

/-- The speakers that occur, each one once. -/
def distinctSpeakers (segments : List (Interval τ)) : List Json.Str :=
  Tally.firsts (segments.map Interval.speaker)

section Durations

variable [Add τ] [Sub τ] [Zero τ]

def durations (segments : List (Interval τ)) : Tally Json.Str τ :=
  Tally.total (segments.map fun segment => (segment.speaker, segment.stop - segment.start))

/-- The running sum of the durations of one speaker. -/
def totalDuration (segments : List (Interval τ)) (speaker : Json.Str) : τ :=
  Tally.sumOf (segments.map fun segment => (segment.speaker, segment.stop - segment.start)) speaker

end Durations

section Cap

variable [LinearOrder τ] [Add τ] [Sub τ] [Neg τ] [Div τ] [Zero τ] [OfNat τ 2]

def midpoint (start stop : τ) : τ := (start + stop) / 2

/-- `abs`. -/
def absolute (x : τ) : τ := if x < 0 then -x else x

/-- `_nearest_top_speaker`: the first of the segments with the least distance. -/
def nearestTopSpeaker (topSegments : List (Interval τ)) (mid : τ) : Except StageFault Json.Str :=
  match topSegments.argmin fun s => absolute (midpoint s.start s.stop - mid) with
  | none => .error .valueError
  | some nearest => .ok nearest.speaker

/-- One turn of the comprehension at the end. -/
def relabel (topN : List Json.Str) (topSegments : List (Interval τ)) (segment : Interval τ) :
    Except StageFault (Interval τ) :=
  if segment.speaker ∈ topN then .ok segment
  else (nearestTopSpeaker topSegments (midpoint segment.start segment.stop)).map fun speaker =>
    { segment with speaker := speaker }

/-- `_cap_speakers_by_duration`. -/
def capSpeakersByDuration (segments : List (Interval τ)) (maxSpeakers : ℤ) :
    Except StageFault (List (Interval τ)) :=
  if maxSpeakers ≤ 0 then .ok segments
  else if ((durations segments).length : ℤ) ≤ maxSpeakers then .ok segments
  else
    let topN := (durations segments).top maxSpeakers.toNat
    segments.mapM (relabel topN (segments.filter fun segment => segment.speaker ∈ topN))

/-- `diarize`, over what pyannote answers to the hints; a fault there is a
`PipelineDiarizeError`. -/
def diarize (pyannote : SpeakerHints → Option (List (Interval τ))) (hints : SpeakerHints) :
    Except StageFault (List (Interval τ)) :=
  match pyannote hints with
  | none => .error .diarize
  | some segments =>
      match hints.maxSpeakers with
      | none => .ok segments
      | some maxSpeakers => capSpeakersByDuration segments maxSpeakers

end Cap

/-! ### The speakers that are kept -/

theorem mem_distinctSpeakers {segments : List (Interval τ)} {speaker : Json.Str} :
    speaker ∈ distinctSpeakers segments ↔ ∃ s ∈ segments, s.speaker = speaker := by
  rw [distinctSpeakers, Tally.mem_firsts, List.mem_map]

theorem nodup_distinctSpeakers (segments : List (Interval τ)) :
    (distinctSpeakers segments).Nodup := Tally.nodup_firsts _

section Durations

variable [Add τ] [Sub τ] [Zero τ] {segments : List (Interval τ)}

theorem keys_durations (segments : List (Interval τ)) :
    Tally.keys (durations segments) = distinctSpeakers segments := by
  rw [durations, Tally.keys_total, Tally.keys, List.map_map, distinctSpeakers]
  rfl

theorem length_durations (segments : List (Interval τ)) :
    (durations segments).length = (distinctSpeakers segments).length := by
  rw [← keys_durations, Tally.keys, List.length_map]

theorem mem_durations_iff {speaker : Json.Str} {x : τ} :
    (speaker, x) ∈ durations segments ↔
      speaker ∈ distinctSpeakers segments ∧ x = totalDuration segments speaker := by
  rw [durations, Tally.mem_total_iff, Tally.keys, List.map_map, distinctSpeakers,
    Tally.mem_firsts]
  exact Iff.rfl

variable [LinearOrder τ] {n : ℕ}

/-- No speaker that is dropped has talked longer than one that is kept. -/
theorem totalDuration_le_of_mem_top {kept dropped : Json.Str}
    (hkept : kept ∈ (durations segments).top n) (hdropped : dropped ∈ distinctSpeakers segments)
    (hout : dropped ∉ (durations segments).top n) :
    totalDuration segments dropped ≤ totalDuration segments kept := by
  have hkeys : (Tally.keys (durations segments)).Nodup :=
    keys_durations segments ▸ nodup_distinctSpeakers segments
  have hmem : kept ∈ distinctSpeakers segments :=
    keys_durations segments ▸ Tally.mem_keys_of_mem_top hkept
  have hkeptEntry : (kept, totalDuration segments kept) ∈ durations segments :=
    mem_durations_iff.mpr ⟨hmem, rfl⟩
  have hdroppedEntry : (dropped, totalDuration segments dropped) ∈ durations segments :=
    mem_durations_iff.mpr ⟨hdropped, rfl⟩
  exact Tally.le_of_mem_top hkeys hkeptEntry hdroppedEntry hkept hout

end Durations

/-! ### The cap -/

section Cap

variable [LinearOrder τ] [Add τ] [Sub τ] [Neg τ] [Div τ] [Zero τ] [OfNat τ 2]
  {segments out : List (Interval τ)} {topN : List Json.Str} {n : ℕ}

/-- What the cap makes of a segment: one of a kept speaker stays as it is, any
other gets the speaker of the nearest kept segment. -/
structure Relabelled (segments : List (Interval τ)) (topN : List Json.Str) (s s' : Interval τ) :
    Prop where
  start : s'.start = s.start
  stop : s'.stop = s.stop
  kept : s.speaker ∈ topN → s' = s
  nearest : s.speaker ∉ topN → ∃ g ∈ segments, g.speaker ∈ topN ∧ s'.speaker = g.speaker ∧
    ∀ g' ∈ segments, g'.speaker ∈ topN →
      absolute (midpoint g.start g.stop - midpoint s.start s.stop) ≤
        absolute (midpoint g'.start g'.stop - midpoint s.start s.stop)

theorem relabel_ok (htop : ∃ g ∈ segments, g.speaker ∈ topN) (s : Interval τ) :
    ∃ s', relabel topN (segments.filter fun g => g.speaker ∈ topN) s = .ok s' ∧
      Relabelled segments topN s s' := by
  unfold relabel
  by_cases hs : s.speaker ∈ topN
  · exact ⟨s, if_pos hs, rfl, rfl, fun _ => rfl, fun h => absurd hs h⟩
  · rw [if_neg hs, nearestTopSpeaker]
    split
    · rename_i hnone
      obtain ⟨g, hg, hgtop⟩ := htop
      have hmem : g ∈ segments.filter fun g => g.speaker ∈ topN :=
        List.mem_filter.mpr ⟨hg, decide_eq_true hgtop⟩
      rw [List.argmin_eq_none.mp hnone] at hmem
      cases hmem
    · rename_i nearest hnearest
      obtain ⟨hmem, htopN⟩ := List.mem_filter.mp (List.argmin_mem hnearest)
      refine ⟨{ s with speaker := nearest.speaker }, rfl, rfl, rfl, fun h => absurd h hs, ?_⟩
      refine fun _ => ⟨nearest, hmem, of_decide_eq_true htopN, rfl, fun g' hg' hg'top => ?_⟩
      have hg'mem : g' ∈ segments.filter fun g => g.speaker ∈ topN :=
        List.mem_filter.mpr ⟨hg', decide_eq_true hg'top⟩
      have hle := List.le_of_mem_argmin hg'mem hnearest
      exact hle

theorem mem_top_of_relabelled (hall : List.Forall₂ (Relabelled segments topN) segments out)
    {s' : Interval τ} (hs' : s' ∈ out) : s'.speaker ∈ topN := by
  obtain ⟨s, -, hrel⟩ := Json.exists_of_mem_right hall hs'
  by_cases hs : s.speaker ∈ topN
  · rw [hrel.kept hs]
    exact hs
  · obtain ⟨g, -, hg, hspeaker, -⟩ := hrel.nearest hs
    rw [hspeaker]
    exact hg

/-- The speakers that remain are the ones kept. -/
theorem mem_distinctSpeakers_relabelled
    (hall : List.Forall₂ (Relabelled segments topN) segments out)
    (hsub : ∀ speaker ∈ topN, speaker ∈ distinctSpeakers segments) (speaker : Json.Str) :
    speaker ∈ distinctSpeakers out ↔ speaker ∈ topN := by
  rw [mem_distinctSpeakers]
  constructor
  · rintro ⟨s', hs', rfl⟩
    exact mem_top_of_relabelled hall hs'
  · intro htop
    obtain ⟨s, hs, rfl⟩ := mem_distinctSpeakers.mp (hsub speaker htop)
    obtain ⟨s', hs', hrel⟩ := Json.exists_of_mem_left hall hs
    exact ⟨s', hs', by rw [hrel.kept htop]⟩

theorem capSpeakersByDuration_of_le {k : ℤ} (h : ((distinctSpeakers segments).length : ℤ) ≤ k) :
    capSpeakersByDuration segments k = .ok segments := by
  unfold capSpeakersByDuration
  split
  · rfl
  · rw [length_durations, if_pos h]

/-- The cap on more speakers than it allows keeps `k` of them and succeeds. -/
theorem capSpeakersByDuration_of_lt {k : ℤ} (hk : 1 ≤ k)
    (h : k < (distinctSpeakers segments).length) :
    ∃ out, capSpeakersByDuration segments k = .ok out ∧
      List.Forall₂ (Relabelled segments ((durations segments).top k.toNat)) segments out := by
  have hlen : ((durations segments).top k.toNat).length = k.toNat :=
    Tally.length_top (by rw [length_durations]; omega)
  obtain ⟨speaker, hspeaker⟩ : ∃ speaker, speaker ∈ (durations segments).top k.toNat :=
    List.exists_mem_of_length_pos (by omega)
  have hmem : speaker ∈ distinctSpeakers segments :=
    keys_durations segments ▸ Tally.mem_keys_of_mem_top hspeaker
  obtain ⟨g, hg, rfl⟩ := mem_distinctSpeakers.mp hmem
  obtain ⟨out, hout, hall⟩ := Json.mapM_ok_of_forall fun s (_ : s ∈ segments) =>
    relabel_ok ⟨g, hg, hspeaker⟩ s
  refine ⟨out, ?_, hall⟩
  rw [capSpeakersByDuration, if_neg (by omega), length_durations, if_neg (by omega)]
  exact hout

theorem bounds_relabelled (hall : List.Forall₂ (Relabelled segments topN) segments out) :
    out.map (fun s => (s.start, s.stop)) = segments.map fun s => (s.start, s.stop) := by
  have hgeneral {l l' : List (Interval τ)} (h : List.Forall₂ (Relabelled segments topN) l l') :
      l'.map (fun s => (s.start, s.stop)) = l.map fun s => (s.start, s.stop) := by
    induction h with
    | nil => rfl
    | cons hrel _ ih =>
        rw [List.map_cons, List.map_cons, hrel.start, hrel.stop, ih]
  exact hgeneral hall

theorem Relabelled.congr {topN' : List Json.Str} (h : ∀ speaker, speaker ∈ topN' ↔ speaker ∈ topN)
    {s s' : Interval τ} (hrel : Relabelled segments topN s s') :
    Relabelled segments topN' s s' where
  start := hrel.start
  stop := hrel.stop
  kept hs := hrel.kept ((h _).mp hs)
  nearest hs := by
    obtain ⟨g, hg, hgtop, hspeaker, hle⟩ := hrel.nearest fun hin => hs ((h _).mpr hin)
    exact ⟨g, hg, (h _).mpr hgtop, hspeaker, fun g' hg' hg'top => hle g' hg' ((h _).mp hg'top)⟩

/-- A cap that had to drop speakers. -/
structure Capped (segments out : List (Interval τ)) (k : ℤ) : Prop where
  count : ((distinctSpeakers out).length : ℤ) = k
  longest : ∀ kept ∈ distinctSpeakers out, ∀ dropped ∈ distinctSpeakers segments,
    dropped ∉ distinctSpeakers out → totalDuration segments dropped ≤ totalDuration segments kept
  relabelled : List.Forall₂ (Relabelled segments (distinctSpeakers out)) segments out

theorem capped_of_relabelled {k : ℤ} (hk : 1 ≤ k) (h : k < (distinctSpeakers segments).length)
    (hall : List.Forall₂ (Relabelled segments ((durations segments).top k.toNat)) segments out) :
    Capped segments out k := by
  have hsub : ∀ speaker ∈ (durations segments).top k.toNat,
      speaker ∈ distinctSpeakers segments :=
    fun speaker hspeaker => keys_durations segments ▸ Tally.mem_keys_of_mem_top hspeaker
  have hmem := mem_distinctSpeakers_relabelled hall hsub
  refine ⟨?_, fun kept hkept dropped hdropped hout => ?_, ?_⟩
  · have hnodup : ((durations segments).top k.toNat).Nodup :=
      Tally.nodup_top (keys_durations segments ▸ nodup_distinctSpeakers segments)
    have hperm := (List.perm_ext_iff_of_nodup (nodup_distinctSpeakers out) hnodup).mpr hmem
    rw [hperm.length_eq, Tally.length_top (by rw [length_durations]; omega)]
    omega
  · exact totalDuration_le_of_mem_top ((hmem kept).mp hkept) hdropped
      fun hin => hout ((hmem dropped).mpr hin)
  · exact hall.imp fun s s' hrel => hrel.congr hmem

end Cap

/-! ### Exact times -/

section Exact

variable {K : Type} [Field K]

/-- The sum of the durations of one speaker. -/
def speakingTime (segments : List (Interval K)) (speaker : Json.Str) : K :=
  ((segments.filter fun s => s.speaker = speaker).map fun s => s.stop - s.start).sum

theorem totalDuration_eq (segments : List (Interval K)) (speaker : Json.Str) :
    totalDuration segments speaker = speakingTime segments speaker := by
  rw [totalDuration, Tally.sumOf, List.filter_map, List.map_map, speakingTime, List.sum_eq_foldl]
  rfl

variable [LinearOrder K] [IsStrictOrderedRing K]

theorem absolute_eq_abs (x : K) : absolute x = |x| := by
  unfold absolute
  split
  · rename_i h
    exact (abs_of_neg h).symm
  · rename_i h
    exact (abs_of_nonneg (not_lt.mp h)).symm

/-- The distance between the mid-points of two segments. -/
def midpointDistance (g s : Interval K) : K :=
  |midpoint g.start g.stop - midpoint s.start s.stop|

/-- The cap of `diarize` to `k` speakers. -/
theorem capSpeakersByDuration_spec (segments : List (Interval K)) {k : ℤ} (hk : 1 ≤ k) :
    ∃ out, capSpeakersByDuration segments k = .ok out ∧
      out.map (fun s => (s.start, s.stop)) = segments.map (fun s => (s.start, s.stop)) ∧
      (((distinctSpeakers segments).length : ℤ) ≤ k → out = segments) ∧
      (k < (distinctSpeakers segments).length →
        ((distinctSpeakers out).length : ℤ) = k ∧
        (∀ kept ∈ distinctSpeakers out, ∀ dropped ∈ distinctSpeakers segments,
          dropped ∉ distinctSpeakers out →
            speakingTime segments dropped ≤ speakingTime segments kept) ∧
        List.Forall₂ (fun s s' =>
          (s.speaker ∈ distinctSpeakers out → s' = s) ∧
          (s.speaker ∉ distinctSpeakers out →
            ∃ g ∈ segments, g.speaker ∈ distinctSpeakers out ∧ s'.speaker = g.speaker ∧
              ∀ g' ∈ segments, g'.speaker ∈ distinctSpeakers out →
                midpointDistance g s ≤ midpointDistance g' s)) segments out) ∧
      capSpeakersByDuration out k = .ok out := by
  rcases le_or_gt ((distinctSpeakers segments).length : ℤ) k with hle | hlt
  · have hcap := capSpeakersByDuration_of_le hle
    exact ⟨segments, hcap, rfl, fun _ => rfl, fun h => absurd h (not_lt.mpr hle), hcap⟩
  · obtain ⟨out, hout, hall⟩ := capSpeakersByDuration_of_lt hk hlt
    have hcapped := capped_of_relabelled hk hlt hall
    refine ⟨out, hout, bounds_relabelled hall, fun h => absurd h (not_le.mpr hlt),
      fun _ => ⟨hcapped.count, ?_, ?_⟩, ?_⟩
    · simpa only [totalDuration_eq] using hcapped.longest
    · refine hcapped.relabelled.imp fun s s' hrel => ⟨hrel.kept, fun hs => ?_⟩
      simpa only [absolute_eq_abs, midpointDistance] using hrel.nearest hs
    · exact capSpeakersByDuration_of_le (le_of_eq hcapped.count)

/-- A short remark goes to the speaker next to it. -/
theorem capSpeakersByDuration_spec_remark :
    let segments : List (Interval ℚ) := [⟨0, 4, [1]⟩, ⟨4, 5, [2]⟩, ⟨5, 9, [3]⟩]
    ∃ out, capSpeakersByDuration segments 2 = .ok out ∧
      out.map (fun s => (s.start, s.stop)) = segments.map (fun s => (s.start, s.stop)) ∧
      ((distinctSpeakers out).length : ℤ) = 2 ∧ capSpeakersByDuration out 2 = .ok out := by
  intro segments
  obtain ⟨out, hout, hbounds, -, hcapped, hagain⟩ :=
    capSpeakersByDuration_spec segments (k := 2) (by decide)
  exact ⟨out, hout, hbounds, (hcapped (by decide)).1, hagain⟩

end Exact

end TranscriptionApi.Pipeline
