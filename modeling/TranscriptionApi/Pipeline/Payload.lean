import TranscriptionApi.Pipeline.Cache
import TranscriptionApi.Pipeline.Orchestrator

/-!
The payload of a call: the dictionary of a `TranscriptionResult`, how the silent
and the merged branch and a cache hit make it, and what the row and the caller
get of it.

A payload the pipeline has computed has seven fields in a fixed order,
`payloadOf`. A hit, the identifier of the row and the processing time change that
dictionary in one place each, and the lemmas say which.
-/

namespace TranscriptionApi.Pipeline

open Lib Python

structure ModelSettings where
  whisperModel : String := "large-v3"
  pyannoteModel : String := "pyannote/speaker-diarization-3.1"
  computeType : String := "int8_float16"

/-- What ends a call without a result. -/
inductive RunFailure where
  | gpuBusy
  | stage (stage : Stage)
  | cache (e : CacheError)
  /-- the `TypeError` of a value that should have been a dictionary -/
  | notDict
  /-- a `KeyError` -/
  | missingKey (key : String)
  /-- `decimal.InvalidOperation` -/
  | invalidDecimal
  /-- the `flush` -/
  | insert
  /-- cut off after the `flush` -/
  | interrupted
  deriving DecidableEq

/-- The columns of a row that come from the payload. -/
structure Columns (δ φ : Type) where
  durationSeconds : δ
  language : Json.Value φ
  numSpeakers : Json.Value φ
  textContent : Json.Value φ
  segments : Json.Value φ
  extraMetadata : Json.Value φ

/-- The code around: the interpreter and its `str`, `Decimal` and `round`, and
the database, which refuses columns of the wrong type or size. -/
structure Services (δ φ : Type) where
  interpreter : Json.Interpreter φ
  str : Json.Value φ → Json.Str
  decimal : Json.Value φ → Option δ
  round : φ → φ
  accepts : Columns δ φ → Bool

/-- What `transcribe` returns: a dictionary with these two keys. -/
structure SttResult (φ : Type) where
  segments : Option (List (Json.Value φ))
  language : Option Json.Str

def jsonKey (k : String) : Json.Str := Json.Str.ofString k

/-- A segment with its speaker, from `assign_speakers_to_words`. -/
structure MergedSegment (φ : Type) where
  fields : Json.Fields φ
  speaker : Json.Str
  fields_speaker : fields.get? (jsonKey "speaker") = some (.str speaker)
  distinct : (Json.Value.obj fields).Distinct

variable {δ φ : Type} (S : Services δ φ) (settings : ModelSettings)

/-- `_build_text_content`. -/
def buildTextContent (merged : List (MergedSegment φ)) : Json.Str :=
  let line (segment : MergedSegment φ) : Json.Str :=
    let speaker := (segment.fields.get? (jsonKey "speaker")).getD (.str (jsonKey "UNKNOWN"))
    let text := (segment.fields.get? (jsonKey "text")).getD (.str [])
    S.str speaker ++ jsonKey ": " ++ S.str text
  (jsonKey "\n").intercalate (merged.map line)

def modelMetadata : Json.Fields φ :=
  [(jsonKey "model", .str (jsonKey settings.whisperModel)),
    (jsonKey "diarizer", .str (jsonKey settings.pyannoteModel)),
    (jsonKey "compute_type", .str (jsonKey settings.computeType)),
    (jsonKey "cache_hit", .bool false)]

/-- The fields of a `TranscriptionResult`. -/
def payloadOf (audioHash : String) (language : Json.Str) (duration : Json.Number φ)
    (numSpeakers : ℕ) (textContent : Json.Str) (segments : List (Json.Value φ))
    (metadata : Json.Fields φ) : Json.Fields φ :=
  [(jsonKey "audio_hash", .str (jsonKey audioHash)),
    (jsonKey "language", .str language),
    (jsonKey "duration_seconds", .float duration),
    (jsonKey "num_speakers", .int numSpeakers),
    (jsonKey "text_content", .str textContent),
    (jsonKey "segments", .arr segments),
    (jsonKey "metadata", .obj metadata)]

def silentPayload (audioHash : String) (language : Json.Str) (duration : Json.Number φ) :
    Json.Fields φ :=
  payloadOf audioHash language duration 0 [] []
    (modelMetadata settings ++ [(jsonKey "silent_audio", .bool true)])

/-- The distinct speakers that are not empty. -/
def uniqueSpeakers (merged : List (MergedSegment φ)) : List Json.Str :=
  ((merged.map MergedSegment.speaker).filter fun speaker => !speaker.isEmpty).dedup

def mergedPayload (audioHash : String) (language : Json.Str) (duration : Json.Number φ)
    (merged : List (MergedSegment φ)) : Json.Fields φ :=
  payloadOf audioHash language duration (uniqueSpeakers merged).length
    (buildTextContent S merged) (merged.map fun segment => .obj segment.fields)
    (modelMetadata settings)

/-- `{**cached, "audio_hash": ..., "metadata": {**metadata, "cache_hit": True}}`. -/
def hitFields (cached metadata : Json.Fields φ) (audioHash : String) : Json.Fields φ :=
  (cached.setItem (jsonKey "audio_hash") (.str (jsonKey audioHash))).setItem (jsonKey "metadata")
    (.obj (metadata.setItem (jsonKey "cache_hit") (.bool true)))

/-- The same, with `cached.get("metadata", {})` for the metadata. -/
def hitPayload (cached : Json.Value φ) (audioHash : String) : Except RunFailure (Json.Fields φ) :=
  match cached.fields? with
  | none => .error .notDict
  | some fields =>
      -- an object without `metadata` gets one
      match ((fields.get? (jsonKey "metadata")).getD (.obj [])).fields? with
      | none => .error .notDict
      | some metadata => .ok (hitFields fields metadata audioHash)

/-- `payload[k]`. -/
def item (payload : Json.Fields φ) (k : String) : Except RunFailure (Json.Value φ) :=
  match payload.get? (jsonKey k) with
  | some v => .ok v
  | none => .error (.missingKey k)

/-- `Decimal(str(v))`. -/
def decimalOf (v : Json.Value φ) : Except RunFailure δ :=
  match S.decimal v with
  | some d => .ok d
  | none => .error .invalidDecimal

def columnsOf (payload : Json.Fields φ) : Except RunFailure (Columns δ φ) := do
  let duration ← item payload "duration_seconds"
  let durationSeconds ← decimalOf S duration
  let language ← item payload "language"
  let numSpeakers ← item payload "num_speakers"
  let textContent ← item payload "text_content"
  let segments ← item payload "segments"
  let metadata ← item payload "metadata"
  return { durationSeconds, language, numSpeakers, textContent,
           segments := .obj [(jsonKey "segments", segments)], extraMetadata := metadata }

def uuidValue (u : Uuid) : Json.Value φ := .str (jsonKey (uuidStr u))

/-- `{"transcription_id": row.id, **payload}`. -/
def pipelineResult (rowId : Uuid) (payload : Json.Fields φ) : Json.Fields φ :=
  Json.Fields.update [(jsonKey "transcription_id", uuidValue rowId)] payload

/-- `result.setdefault("metadata", {})["processing_seconds"] = ...`. -/
def addProcessingSeconds (result : Json.Fields φ) (x : Json.Value φ) :
    Except RunFailure (Json.Fields φ) :=
  match ((result.get? (jsonKey "metadata")).getD (.obj [])).fields? with
  | none => .error .notDict
  | some metadata =>
      .ok (result.setItem (jsonKey "metadata")
        (.obj (metadata.setItem (jsonKey "processing_seconds") x)))

/-! ### The seven fields -/

section PayloadOf

variable {S} {settings} {audioHash : String} {language : Json.Str} {duration : Json.Number φ}
  {n : ℕ} {text : Json.Str} {segments : List (Json.Value φ)} {metadata : Json.Fields φ}

@[simp] theorem jsonKey_inj {k k' : String} : jsonKey k = jsonKey k' ↔ k = k' :=
  ⟨Json.Str.ofString_injective, congrArg jsonKey⟩

theorem get?_metadata_payloadOf :
    (payloadOf audioHash language duration n text segments metadata).get? (jsonKey "metadata") =
      some (.obj metadata) := by
  simp [payloadOf, Json.Fields.get?]

theorem get?_duration_payloadOf :
    (payloadOf audioHash language duration n text segments metadata).get?
      (jsonKey "duration_seconds") = some (.float duration) := by
  simp [payloadOf, Json.Fields.get?]

theorem setItem_metadata_payloadOf (metadata' : Json.Fields φ) :
    (payloadOf audioHash language duration n text segments metadata).setItem (jsonKey "metadata")
      (.obj metadata') = payloadOf audioHash language duration n text segments metadata' := by
  simp [payloadOf, Json.Fields.setItem, Json.Fields.keys]

theorem setItem_audioHash_payloadOf :
    (payloadOf audioHash language duration n text segments metadata).setItem (jsonKey "audio_hash")
      (.str (jsonKey audioHash)) =
        payloadOf audioHash language duration n text segments metadata := by
  simp [payloadOf, Json.Fields.setItem, Json.Fields.keys]

/-- A hit on a computed payload changes `metadata.cache_hit`. -/
theorem hitPayload_payloadOf :
    hitPayload (.obj (payloadOf audioHash language duration n text segments metadata)) audioHash =
      .ok (payloadOf audioHash language duration n text segments
        (metadata.setItem (jsonKey "cache_hit") (.bool true))) := by
  simp only [hitPayload, hitFields, Json.Value.fields?, get?_metadata_payloadOf, Option.getD_some,
    setItem_audioHash_payloadOf, setItem_metadata_payloadOf]

theorem pipelineResult_payloadOf (rowId : Uuid) :
    pipelineResult rowId (payloadOf audioHash language duration n text segments metadata) =
      (jsonKey "transcription_id", uuidValue rowId) ::
        payloadOf audioHash language duration n text segments metadata := by
  refine Json.Fields.update_of_nodup ?_
  simp [payloadOf, Json.Fields.keys]

theorem addProcessingSeconds_payloadOf (v x : Json.Value φ) :
    addProcessingSeconds ((jsonKey "transcription_id", v) ::
        payloadOf audioHash language duration n text segments metadata) x =
      .ok ((jsonKey "transcription_id", v) ::
        payloadOf audioHash language duration n text segments
          (metadata.setItem (jsonKey "processing_seconds") x)) := by
  simp [addProcessingSeconds, payloadOf, Json.Fields.get?, Json.Value.fields?,
    Json.Fields.setItem, Json.Fields.keys]

theorem columnsOf_payloadOf :
    columnsOf S (payloadOf audioHash language duration n text segments metadata) =
      (decimalOf S (.float duration)).map fun d =>
        ⟨d, .str language, .int n, .str text, .obj [(jsonKey "segments", .arr segments)],
          .obj metadata⟩ := by
  simp only [columnsOf, item, payloadOf, Json.Fields.get?]
  simp
  show (decimalOf S (.float duration)).bind (fun d => .ok _) = _
  cases decimalOf S (.float duration) with
  | error e => rfl
  | ok d => rfl

theorem distinct_payloadOf (hsegments : Json.itemsDistinct segments)
    (hmetadata : (Json.Value.obj metadata).Distinct) :
    (Json.Value.obj (payloadOf audioHash language duration n text segments metadata)).Distinct := by
  refine ⟨?_, ?_⟩
  · simp [payloadOf, Json.Fields.keys]
  · exact ⟨trivial, trivial, trivial, trivial, trivial, hsegments, hmetadata, trivial⟩

end PayloadOf

end TranscriptionApi.Pipeline
