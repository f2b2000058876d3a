import TranscriptionApi.Pipeline.CacheMap
import TranscriptionApi.Pipeline.Payload

/-!
`_run_pipeline` and the part of `orchestrate` after the lock: what one call
computes, what it leaves in the cache and which row it inserts.

The lock lets one pipeline run at a time, so a call is a function here. What its
stages, its transaction and its clock do is part of the call: a stage that
raises, or that the timeout cuts off, is one without a result. A purge runs in a
thread of its own; the passes that fall between the lookup and the end of the
stages are part of the call too.

The payload is one dictionary that is passed on and changed. The cache gets its
text before the row is made, the row is sent before `orchestrate` adds
`processing_seconds`, and a hit works on what it has read, so each of them is the
value it was at that time.
-/

namespace TranscriptionApi.Pipeline

open Lib Python

structure TranscriptionRow (δ φ : Type) where
  id : Uuid
  userId : Uuid
  audioHash : String
  originalFilename : String
  originalSizeBytes : ℕ
  columns : Columns δ φ

/-- A write of the cache entry that breaks off, and what it leaves in the
temporary file. -/
structure DiskFault where
  error : Errno
  left : Option Bytes

structure OrchestrateCall (φ : Type) where
  userId : Uuid
  originalFilename : String
  originalSizeBytes : ℕ
  language : Json.Str
  acquires : Bool
  normalize : Option (String × Json.Number φ)
  /-- the time of the cache lookup -/
  now : ℤ
  stt : Option (SttResult φ)
  diarize : Option (List (MergedSegment φ))
  /-- the passes that run after the lookup and before the cache is written -/
  during : List Pass
  disk : Option DiskFault
  writtenAt : ℤ
  flushes : Bool
  rowId : Uuid
  returns : Bool
  elapsed : φ

structure RunReport (δ φ : Type) where
  result : Except RunFailure (Json.Fields φ)
  /-- the row in the open transaction -/
  flushed : Option (TranscriptionRow δ φ)
  stages : List Stage
  /-- `hit` in the log record `cache_lookup` -/
  hit : Bool
  /-- what the passes during the call have removed, the last one first -/
  cleaned : List (List Path)
  /-- the entry the call has written -/
  written : Option (String × Json.Fields φ)
  tree : FileTree Bytes

variable {δ φ : Type} (S : Services δ φ) (settings : ModelSettings) (base : Path)

/-- The payload of a miss, and the stages it took. -/
def computePayload (call : OrchestrateCall φ) (audioHash : String) (duration : Json.Number φ) :
    Except RunFailure (Json.Fields φ) × List Stage :=
  match call.stt with
  | none => (.error (.stage .transcribe), [.normalize, .transcribe])
  | some stt =>
      let language := stt.language.getD call.language
      -- nothing was said: `diarize` is not called
      if (stt.segments.getD []).isEmpty then
        (.ok (silentPayload settings audioHash language duration), [.normalize, .transcribe])
      else
        match call.diarize with
        | none => (.error (.stage .diarize), [.normalize, .transcribe, .diarize])
        | some merged =>
            (.ok (mergedPayload S settings audioHash language duration merged),
              [.normalize, .transcribe, .diarize])

/-- The INSERT and what `_run_pipeline` returns. -/
def persistRow (call : OrchestrateCall φ) (audioHash : String) (payload : Json.Fields φ) :
    Except RunFailure (TranscriptionRow δ φ × Json.Fields φ) :=
  match columnsOf S payload with
  | .error e => .error e
  | .ok columns =>
      if S.accepts columns && call.flushes then
        .ok (⟨call.rowId, call.userId, audioHash, call.originalFilename, call.originalSizeBytes,
              columns⟩,
          pipelineResult call.rowId payload)
      else .error .insert

/-! ### The call -/

/-- Passes one after the other. -/
def runPasses (t : FileTree Bytes) (passes : List Pass) : FileTree Bytes × List (List Path) :=
  passes.foldl (fun s pass => ((purgeExpired base pass s.1).tree,
    (purgeExpired base pass s.1).removed :: s.2)) (t, [])

/-- A `put` whose write breaks off. -/
def brokenPut (t : FileTree Bytes) (call : OrchestrateCall φ) (audioHash : String)
    (fault : DiskFault) : Except CacheError Unit × FileTree Bytes :=
  if validAudioHash audioHash then
    let dir := entryDir base call.userId audioHash
    let made := (t.mkdirs [] dir).2
    match fault.left with
    | none => (.error (.os fault.error), made)
    | some bytes =>
        match made.writeFile dir tmpFilename bytes call.writtenAt with
        | .error e => (.error (.os e), made)
        | .ok t' => (.error (.os fault.error), t')
  else (.error .invalidHash, t)

def cachePut (t : FileTree Bytes) (call : OrchestrateCall φ) (audioHash : String)
    (payload : Json.Fields φ) : Except CacheError Unit × FileTree Bytes :=
  match call.disk with
  | none => CacheStore.put S.interpreter base t call.userId audioHash (.obj payload) call.writtenAt
  | some fault => brokenPut base t call audioHash fault

def hitReport (t : FileTree Bytes) (call : OrchestrateCall φ) (audioHash : String)
    (cached : Json.Value φ) : RunReport δ φ :=
  let passes := runPasses base t call.during
  let persisted := (hitPayload cached audioHash).bind (persistRow S call audioHash)
  { result := persisted.map Prod.snd, flushed := persisted.toOption.map Prod.fst,
    stages := [.normalize], hit := true, cleaned := passes.2, written := none, tree := passes.1 }

def missReport (t : FileTree Bytes) (call : OrchestrateCall φ) (audioHash : String)
    (duration : Json.Number φ) : RunReport δ φ :=
  let passes := runPasses base t call.during
  let computed := computePayload S settings call audioHash duration
  match computed.1 with
  | .error e =>
      { result := .error e, flushed := none, stages := computed.2, hit := false,
        cleaned := passes.2, written := none, tree := passes.1 }
  | .ok payload =>
      -- the cache is written before the row is made
      match cachePut S base passes.1 call audioHash payload with
      | (.error e, t') =>
          { result := .error (.cache e), flushed := none, stages := computed.2, hit := false,
            cleaned := passes.2, written := none, tree := t' }
      | (.ok (), t') =>
          let persisted := persistRow S call audioHash payload
          { result := persisted.map Prod.snd, flushed := persisted.toOption.map Prod.fst,
            stages := computed.2, hit := false, cleaned := passes.2,
            written := some (audioHash, payload), tree := t' }

def failedReport (t : FileTree Bytes) (e : RunFailure) (stages : List Stage) : RunReport δ φ where
  result := .error e
  flushed := none
  stages := stages
  hit := false
  cleaned := []
  written := none
  tree := t

def runPipeline (t : FileTree Bytes) (call : OrchestrateCall φ) : RunReport δ φ :=
  match call.normalize with
  | none => failedReport t (.stage .normalize) [.normalize]
  | some (audioHash, duration) =>
      match CacheStore.get S.interpreter base t call.userId audioHash with
      | .error e => failedReport t (.cache e) [.normalize]
      | .ok (some cached) => hitReport S base t call audioHash cached
      | .ok none => missReport S settings base t call audioHash duration

def processingSeconds (call : OrchestrateCall φ) : Json.Value φ :=
  .float (.finite (S.round call.elapsed))

/-- What `orchestrate` makes of the result of the pipeline. -/
def finishCall (call : OrchestrateCall φ) (run : RunReport δ φ) : RunReport δ φ :=
  { run with result := run.result.bind fun result =>
      if call.returns then addProcessingSeconds result (processingSeconds S call)
      else .error .interrupted }

def orchestrate (t : FileTree Bytes) (call : OrchestrateCall φ) : RunReport δ φ :=
  if call.acquires then finishCall S call (runPipeline S settings base t call)
  else failedReport t .gpuBusy []

/-! ### What a call does -/

/-- A payload of the pipeline for this audio, with this metadata. -/
def IsPayload (audioHash : String) (metadata payload : Json.Fields φ) : Prop :=
  ∃ language duration n text segments,
    payload = payloadOf audioHash language duration n text segments metadata

section Spec

variable {S} {settings} {base} {t : FileTree Bytes} {call : OrchestrateCall φ}
  {audioHash : String} {duration : Json.Number φ} {payload : Json.Fields φ}

/-- What every pass keeps, of the tree and of what has been removed. -/
theorem runPasses_induction {I : FileTree Bytes → List (List Path) → Prop} (passes : List Pass)
    (hstep : ∀ t removed pass, I t removed →
      I (purgeExpired base pass t).tree ((purgeExpired base pass t).removed :: removed))
    (ht : I t []) : I (runPasses base t passes).1 (runPasses base t passes).2 := by
  have hgeneral : ∀ s : FileTree Bytes × List (List Path), I s.1 s.2 →
      I (passes.foldl (fun s pass => ((purgeExpired base pass s.1).tree,
          (purgeExpired base pass s.1).removed :: s.2)) s).1
        (passes.foldl (fun s pass => ((purgeExpired base pass s.1).tree,
          (purgeExpired base pass s.1).removed :: s.2)) s).2 := by
    induction passes with
    | nil => exact fun s hs => hs
    | cons pass passes ih => exact fun s hs => ih _ (hstep s.1 s.2 pass hs)
  exact hgeneral (t, []) ht

variable (base) in
/-- Passes add no file, and keep the directories below the ones of entries. -/
theorem runPasses_effect (t : FileTree Bytes) (passes : List Pass) :
    (∀ q, t.file? q = none → (runPasses base t passes).1.file? q = none) ∧
      ∀ q, base.length + 3 ≤ q.length → (runPasses base t passes).1.isDir q = t.isDir q := by
  refine runPasses_induction (I := fun t' _ => (∀ q, t.file? q = none → t'.file? q = none) ∧
    ∀ q, base.length + 3 ≤ q.length → t'.isDir q = t.isDir q) passes ?_
    ⟨fun q hq => hq, fun q _ => rfl⟩
  rintro t' removed pass ⟨hfile, hdeep⟩
  have hpurged := purged_purgeExpired base pass t'
  refine ⟨fun q hq => ?_, fun q hq => (hpurged.deep q hq).trans (hdeep q hq)⟩
  rw [hpurged.file? q, hfile q hq, ite_self]

theorem itemsDistinct_merged (merged : List (MergedSegment φ)) :
    Json.itemsDistinct (merged.map fun segment => .obj segment.fields) := by
  induction merged with
  | nil => trivial
  | cons segment merged ih => exact ⟨segment.distinct, ih⟩

theorem distinct_modelMetadata :
    (Json.Value.obj (modelMetadata settings : Json.Fields φ)).Distinct := by
  refine ⟨?_, trivial, trivial, trivial, trivial, trivial⟩
  simp [modelMetadata, Json.Fields.keys]

theorem distinct_silentMetadata : (Json.Value.obj ((modelMetadata settings : Json.Fields φ) ++
    [(jsonKey "silent_audio", .bool true)])).Distinct := by
  refine ⟨?_, trivial, trivial, trivial, trivial, trivial, trivial⟩
  simp [modelMetadata, Json.Fields.keys]

theorem cacheHit_modelMetadata (rest : Json.Fields φ) :
    Json.Fields.get? (modelMetadata settings ++ rest) (jsonKey "cache_hit") =
      some (.bool false) := by
  simp [modelMetadata, Json.Fields.get?]

/-- Both branches of a miss make a payload that `json.dumps` prints key by key,
with `cache_hit` false. -/
theorem computePayload_ok
    (h : (computePayload S settings call audioHash duration).1 = .ok payload) :
    (Json.Value.obj payload).Distinct ∧ ∃ metadata, IsPayload audioHash metadata payload ∧
      metadata.get? (jsonKey "cache_hit") = some (.bool false) := by
  unfold computePayload at h
  split at h
  · cases h
  · simp only at h
    split at h
    · cases h
      exact ⟨distinct_payloadOf trivial distinct_silentMetadata, _, ⟨_, _, _, _, _, rfl⟩,
        cacheHit_modelMetadata _⟩
    · split at h
      · cases h
      · rename_i merged _
        cases h
        refine ⟨distinct_payloadOf (itemsDistinct_merged merged) distinct_modelMetadata, _,
          ⟨_, _, _, _, _, rfl⟩, ?_⟩
        exact List.append_nil (modelMetadata settings) ▸ cacheHit_modelMetadata []

theorem transcribe_mem_computePayload :
    Stage.transcribe ∈ (computePayload S settings call audioHash duration).2 := by
  unfold computePayload
  split
  · simp
  · simp only
    split
    · simp
    · split
      · simp
      · simp

/-- A row that is sent holds the columns of the payload that is returned. -/
theorem persistRow_ok {row : TranscriptionRow δ φ} {result : Json.Fields φ}
    (h : persistRow S call audioHash payload = .ok (row, result)) :
    ∃ columns, columnsOf S payload = .ok columns ∧ S.accepts columns = true ∧
      call.flushes = true ∧ result = pipelineResult call.rowId payload ∧
      row = ⟨call.rowId, call.userId, audioHash, call.originalFilename, call.originalSizeBytes,
        columns⟩ := by
  unfold persistRow at h
  split at h
  · cases h
  · rename_i columns hcolumns
    split at h
    · rename_i hinsert
      rw [Bool.and_eq_true] at hinsert
      cases h
      exact ⟨columns, hcolumns, hinsert.1, hinsert.2, rfl, rfl⟩
    · cases h

end Spec

end TranscriptionApi.Pipeline
