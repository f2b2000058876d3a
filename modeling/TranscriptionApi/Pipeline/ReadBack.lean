import TranscriptionApi.Mcp.Session
import TranscriptionApi.Pipeline.Hits

/-!
What `GET /api/transcriptions/{id}` makes of a row that a call has inserted.

The answer of the call and its row are made of one dictionary. But `orchestrate`
puts `processing_seconds` into it after the INSERT has gone out, and `metadata`
is a plain JSONB column, of which a change in place is not seen: no UPDATE
follows. So the two bodies differ in the metadata, after every call, hit or miss,
and in nothing else but what the database does to a number and to a JSONB value.
-/

namespace TranscriptionApi.Pipeline

open Lib Mcp Python

/-- What comes back of the columns that are not stored as they were sent. -/
structure StoredColumns (δ φ : Type) where
  /-- `float` of a `NUMERIC(10,2)` -/
  numeric : δ → Json.Number φ
  jsonb : Json.Value φ → Json.Value φ
  /-- an object is read back with the keys it had, in any order -/
  keys_jsonb : ∀ fields, ∃ fields', jsonb (.obj fields) = .obj fields' ∧
    ∀ k, k ∈ Json.Fields.keys fields' ↔ k ∈ Json.Fields.keys fields

/-- The table `transcriptions`. -/
abbrev RowTable (δ φ : Type) := Table (TranscriptionRow δ φ) TranscriptionRow.id

variable {δ φ : Type} (S : Services δ φ) (settings : ModelSettings) (base : Path)
  (D : StoredColumns δ φ)

/-- `(row.segments or {}).get("segments", [])`, and `[]` on anything that is not
an object. -/
def unwrapSegments : Json.Value φ → Json.Value φ
  | .obj fields => (Json.Fields.get? fields (jsonKey "segments")).getD (.arr [])
  | _ => .arr []

/-- `_row_to_response`. -/
def TranscriptionRow.toResponse (row : TranscriptionRow δ φ) : Json.Fields φ :=
  [(jsonKey "transcription_id", uuidValue row.id),
    (jsonKey "audio_hash", .str (jsonKey row.audioHash)),
    (jsonKey "language", row.columns.language),
    (jsonKey "duration_seconds", .float (D.numeric row.columns.durationSeconds)),
    (jsonKey "num_speakers", row.columns.numSpeakers),
    (jsonKey "text_content", row.columns.textContent),
    (jsonKey "segments", unwrapSegments (D.jsonb row.columns.segments)),
    (jsonKey "metadata", D.jsonb row.columns.extraMetadata)]

/-- The body of `get_transcription`; `none` is its 404. -/
def getRow (userId tid : Uuid) (rows : RowTable δ φ) : Option (Json.Fields φ) :=
  (scopedSelect rows TranscriptionRow.userId userId fun row => row.id = tid).head?.map
    (TranscriptionRow.toResponse D)

/-- Equal as JSON: the entries of an object have no order. -/
inductive SameJson : Json.Value φ → Json.Value φ → Prop
  | null : SameJson .null .null
  | bool (b : Bool) : SameJson (.bool b) (.bool b)
  | int (n : ℤ) : SameJson (.int n) (.int n)
  | float (x : Json.Number φ) : SameJson (.float x) (.float x)
  | str (s : Json.Str) : SameJson (.str s) (.str s)
  | arr {items items' : List (Json.Value φ)} (h : List.Forall₂ SameJson items items') :
      SameJson (.arr items) (.arr items')
  | obj {fields fields' : Json.Fields φ}
      (h : ∀ k, Option.Rel SameJson (fields.get? k) (fields'.get? k)) :
      SameJson (.obj fields) (.obj fields')

/-- The two bodies are equal, up to what the duration is rounded to. -/
def RoundTrips (posted body : Json.Fields φ) : Prop :=
  ∀ k, k ≠ jsonKey "duration_seconds" → Option.Rel SameJson (body.get? k) (posted.get? k)

/-- What is asked of a step: after a call that returns, a GET of its row by the
same user, from any table that still has the row, finds it and answers otherwise
than the call. -/
def ReadBackLaw (s : CacheWorld δ φ) (e : CacheEvent φ) (s' : CacheWorld δ φ) : Prop :=
  ∀ call result, e = .call call → (orchestrate S settings base s.tree call).result = .ok result →
    ∃ row, s'.rows = s.rows ++ [row] ∧
      result.get? (jsonKey "transcription_id") = some (uuidValue row.id) ∧
      ∀ rows : RowTable δ φ, row ∈ rows.rows → ∃ body,
        getRow D call.userId row.id rows = some body ∧ ¬ RoundTrips result body

variable {S} {settings} {base} {D} {t : FileTree Bytes} {s : CacheWorld δ φ}
  {call : OrchestrateCall φ} {h : String} {duration : Json.Number φ}
  {metadata metadata' payload result : Json.Fields φ}

/-! ### The metadata of a row -/

theorem IsPayload.metadata_unique {h' : String} (hp : IsPayload h metadata payload)
    (hp' : IsPayload h' metadata' payload) : metadata = metadata' := by
  obtain ⟨language, duration, n, text, segments, rfl⟩ := hp
  obtain ⟨language', duration', n', text', segments', heq⟩ := hp'
  have hget := get?_metadata_payloadOf.symm.trans
    ((congrArg (fun p => Json.Fields.get? p (jsonKey "metadata")) heq).trans
      get?_metadata_payloadOf)
  simpa using hget

/-- No branch of a miss sets the processing time. -/
theorem computePayload_plain
    (hcomputed : (computePayload S settings call h duration).1 = .ok payload)
    (hp : IsPayload h metadata payload) :
    metadata.get? (jsonKey "processing_seconds") = none := by
  unfold computePayload at hcomputed
  split at hcomputed
  · cases hcomputed
  · simp only at hcomputed
    split at hcomputed
    · cases hcomputed
      rw [hp.metadata_unique ⟨_, _, _, _, _, rfl⟩]
      simp [modelMetadata, Json.Fields.get?]
    · split at hcomputed
      · cases hcomputed
      · cases hcomputed
        rw [hp.metadata_unique ⟨_, _, _, _, _, rfl⟩]
        simp [modelMetadata, Json.Fields.get?]

/-- The metadata a row is sent with has no processing time: a miss does not set
it, and a hit reads what a miss has written. -/
theorem plain_of_flushed (hs : Recorded S settings base s) {row : TranscriptionRow δ φ}
    (hok : (orchestrate S settings base s.tree call).result = .ok result)
    (hflushed : (orchestrate S settings base s.tree call).flushed = some row) :
    ∃ metadata : Json.Fields φ, row.columns.extraMetadata = .obj metadata ∧
      metadata.get? (jsonKey "processing_seconds") = none := by
  have hsent {h : String} {metadata payload : Json.Fields φ} (hp : IsPayload h metadata payload)
      (hplain : metadata.get? (jsonKey "processing_seconds") = none)
      (hrow : (persistRow S call h payload).toOption.map Prod.fst = some row) :
      ∃ metadata : Json.Fields φ, row.columns.extraMetadata = .obj metadata ∧
        metadata.get? (jsonKey "processing_seconds") = none := by
    refine ⟨metadata, ?_, hplain⟩
    cases hpersist : persistRow S call h payload with
    | error e =>
        rw [hpersist] at hrow
        cases hrow
    | ok sent =>
        rw [hpersist] at hrow
        obtain ⟨columns, hcolumns, -, -, -, hsent⟩ := persistRow_ok hpersist
        obtain ⟨language, duration, n, text, segments, rfl⟩ := hp
        rw [columnsOf_payloadOf] at hcolumns
        obtain ⟨d, -, rfl⟩ := Json.map_eq_ok hcolumns
        cases hrow
        rw [hsent]
  rcases orchestrate_cases S settings base s.tree call with
    ⟨e, stages, heq⟩ | ⟨h, duration, -, ⟨cached, hget, heq⟩ | ⟨-, heq⟩⟩
  · rw [heq] at hflushed
    cases hflushed
  · -- a hit sets `cache_hit` in what the run that wrote the entry has computed
    obtain ⟨hh, hentry⟩ := get_eq_some hget
    obtain ⟨call₀, report₀, metadata, payload, text, -, hrun, -, -, hget'⟩ := hs.entry hh hentry
    rw [hget] at hget'
    cases hget'
    obtain ⟨duration₀, -, hcomputed⟩ := hrun.computed
    obtain ⟨hp', -, hrow⟩ := hitReport_payload S base s.tree call hrun.isPayload
    rw [heq, hrow] at hflushed
    refine hsent hp' ?_ hflushed
    rw [Json.Fields.get?_setItem, if_neg (by simp)]
    exact computePayload_plain hcomputed hrun.isPayload
  · rw [heq] at hflushed
    rcases missReport_cases s.tree call h duration with
      ⟨⟨e, herror⟩, -⟩ | ⟨payload, hcomputed, -, hrow, -⟩
    · rw [heq, finishCall, herror] at hok
      cases hok
    · obtain ⟨-, metadata, hp, -⟩ := computePayload_ok hcomputed
      exact hsent hp (computePayload_plain hcomputed hp) (hrow.symm.trans hflushed)

/-- What a call that returns answers with, and the row it sends: the same values
but for the metadata, which has the processing time in the answer only. -/
theorem answered_of_ok (hs : Recorded S settings base s)
    (hok : (orchestrate S settings base s.tree call).result = .ok result) :
    ∃ row, settle s.rows (orchestrate S settings base s.tree call) = s.rows ++ [row] ∧
      row.id = call.rowId ∧ row.userId = call.userId ∧
      ∃ language duration n text segments d, ∃ metadata : Json.Fields φ,
        metadata.get? (jsonKey "processing_seconds") = none ∧
        S.decimal (.float duration) = some d ∧
        result = (jsonKey "transcription_id", uuidValue call.rowId) ::
          payloadOf row.audioHash language duration n text segments
            (metadata.setItem (jsonKey "processing_seconds") (processingSeconds S call)) ∧
        row.columns = ⟨d, .str language, .int n, .str text,
          .obj [(jsonKey "segments", .arr segments)], .obj metadata⟩ := by
  obtain ⟨h, -, metadata, payload, columns, -, hp, hanswer, hcolumns, hflushed⟩ :=
    flushed_of_ok hs hok
  obtain ⟨metadata', hmetadata, hplain⟩ := plain_of_flushed hs hok hflushed
  obtain ⟨language, duration, n, text, segments, rfl⟩ := hp
  rw [columnsOf_payloadOf] at hcolumns
  obtain ⟨d, hdecimal, rfl⟩ := Json.map_eq_ok hcolumns
  cases hmetadata
  refine ⟨⟨call.rowId, call.userId, h, call.originalFilename, call.originalSizeBytes, _⟩, ?_, rfl,
    rfl, language, duration, n, text, segments, d, metadata, hplain, ?_, ?_, rfl⟩
  · rw [settle, hok, hflushed]
    rfl
  · unfold decimalOf at hdecimal
    split at hdecimal
    · rename_i d' hd
      cases hdecimal
      exact hd
    · cases hdecimal
  · rw [hanswer, answer, setItem_metadata_payloadOf]

/-! ### The GET -/

/-- A row that is still there is found by its owner. -/
theorem getRow_of_mem {rows : RowTable δ φ} {row : TranscriptionRow δ φ} (hrow : row ∈ rows.rows) :
    getRow D row.userId row.id rows = some (row.toResponse D) := by
  have hfound : scopedSelect rows TranscriptionRow.userId row.userId
      (fun r => decide (r.id = row.id)) = [row] := by
    refine Table.select_eq_singleton hrow (by simp [scopedTo]) fun r hr hpick => ?_
    have hid : r.id = row.id := by simpa using (scopedTo_eq_true.mp hpick).1
    exact Table.eq_of_key_eq hr hrow hid
  rw [getRow, hfound]
  rfl

/-- The processing time is in the answer and not in the body. -/
theorem not_roundTrips {row : TranscriptionRow δ φ} {x : Json.Value φ}
    (hposted : result.get? (jsonKey "metadata") =
      some (.obj (metadata.setItem (jsonKey "processing_seconds") x)))
    (hrow : row.columns.extraMetadata = .obj metadata)
    (hplain : metadata.get? (jsonKey "processing_seconds") = none) :
    ¬ RoundTrips result (row.toResponse D) := by
  intro hsame
  obtain ⟨stored, hstored, hkeys⟩ := D.keys_jsonb metadata
  have hbody : Json.Fields.get? (row.toResponse D) (jsonKey "metadata") = some (.obj stored) := by
    simp [TranscriptionRow.toResponse, Json.Fields.get?, hrow, hstored]
  have hmetadata := hsame (jsonKey "metadata") (by simp)
  rw [hbody, hposted] at hmetadata
  cases hmetadata with
  | some hobj =>
      cases hobj with
      | obj hentries =>
          have hentry := hentries (jsonKey "processing_seconds")
          rw [Json.Fields.get?_setItem, if_pos rfl, Json.Fields.get?_eq_none_iff.mpr
            fun hmem => Json.Fields.get?_eq_none_iff.mp hplain ((hkeys _).mp hmem)] at hentry
          cases hentry

/-- What the two bodies do agree on: every field but the metadata, which is the
stored one with the processing time. -/
theorem getRow_of_ok (hs : Recorded S settings base s)
    (hok : (orchestrate S settings base s.tree call).result = .ok result) :
    ∃ row, settle s.rows (orchestrate S settings base s.tree call) = s.rows ++ [row] ∧
      ∃ language duration n text segments d, ∃ metadata : Json.Fields φ,
        S.decimal (.float duration) = some d ∧
        result = (jsonKey "transcription_id", uuidValue call.rowId) ::
          payloadOf row.audioHash language duration n text segments
            (metadata.setItem (jsonKey "processing_seconds") (processingSeconds S call)) ∧
        ∀ rows : RowTable δ φ, row ∈ rows.rows → getRow D call.userId call.rowId rows =
          some [(jsonKey "transcription_id", uuidValue call.rowId),
            (jsonKey "audio_hash", .str (jsonKey row.audioHash)),
            (jsonKey "language", .str language),
            (jsonKey "duration_seconds", .float (D.numeric d)),
            (jsonKey "num_speakers", .int n),
            (jsonKey "text_content", .str text),
            (jsonKey "segments",
              unwrapSegments (D.jsonb (.obj [(jsonKey "segments", .arr segments)]))),
            (jsonKey "metadata", D.jsonb (.obj metadata))] := by
  obtain ⟨row, hrows, hid, huser, language, duration, n, text, segments, d, metadata, -, hdecimal,
    hresult, hcolumns⟩ := answered_of_ok hs hok
  refine ⟨row, hrows, language, duration, n, text, segments, d, metadata, hdecimal, hresult,
    fun rows hrow => ?_⟩
  rw [← huser, ← hid, getRow_of_mem hrow, TranscriptionRow.toResponse, hcolumns]

/-! ### Along a run -/

theorem readBackLaw {s' : CacheWorld δ φ} {e : CacheEvent φ} (hs : Recorded S settings base s)
    (hstep : (cacheSystem S settings base).step s e = some s') :
    ReadBackLaw S settings base D s e s' := by
  rintro call result rfl hok
  cases hstep
  obtain ⟨row, hrows, hid, huser, language, duration, n, text, segments, d, metadata, hplain, -,
    hresult, hcolumns⟩ := answered_of_ok hs hok
  refine ⟨row, hrows, ?_, fun rows hrow => ⟨row.toResponse D, ?_, ?_⟩⟩
  · rw [hresult, hid]
    rfl
  · rw [← huser]
    exact getRow_of_mem hrow
  · have hposted : result.get? (jsonKey "metadata") = some (.obj
        (metadata.setItem (jsonKey "processing_seconds") (processingSeconds S call))) := by
      rw [hresult]
      simp [payloadOf, Json.Fields.get?]
    exact not_roundTrips hposted (congrArg Columns.extraMetadata hcolumns) hplain

/-- Along every run from a cache without entries no call that returns is read
back as it was answered. -/
theorem readBack_history (D : StoredColumns δ φ) (hfresh : Fresh base t)
    (es : List (CacheEvent φ)) :
    (cacheSystem S settings base).Along (ReadBackLaw S settings base D) (startWorld t) es :=
  (cacheSystem S settings base).along_of_invariant (I := Recorded S settings base)
    (fun _ _ _ hs hstep => hs.step hstep) (fun _ _ _ hs hstep => readBackLaw hs hstep)
    (recorded_startWorld hfresh)

theorem exactly_stored (fields : Json.Fields ℤ) :
    ∃ fields', id (Json.Value.obj fields) = .obj fields' ∧
      ∀ k, k ∈ Json.Fields.keys fields' ↔ k ∈ Json.Fields.keys fields :=
  ⟨fields, rfl, fun _ => Iff.rfl⟩

/-- Everything is read back as it was sent. -/
def exactColumns : StoredColumns ℤ ℤ where
  numeric := .finite
  jsonb := id
  keys_jsonb := exactly_stored

/-- The rows after one call. -/
def sampleRows : RowTable ℤ ℤ where
  rows :=
    (afterCall sampleServices {} ["data", "cache"] (startWorld FileTree.empty) sampleCall).rows
  keys_nodup := by decide +kernel

theorem readBack_history_sample : ∃ result row,
    (orchestrate sampleServices {} ["data", "cache"] FileTree.empty sampleCall).result =
      .ok result ∧ row ∈ sampleRows.rows ∧
      ∃ body, getRow exactColumns 1 row.id sampleRows = some body ∧ ¬ RoundTrips result body := by
  have hlaws : (cacheSystem sampleServices {} ["data", "cache"]).Along
      (ReadBackLaw sampleServices {} ["data", "cache"] exactColumns) (startWorld FileTree.empty)
      [.call sampleCall] := readBack_history exactColumns (fresh_empty _) _
  obtain ⟨row, hrows, -, hget⟩ := (hlaws _ rfl).1 sampleCall _ rfl rfl
  have hrow : row ∈ sampleRows.rows := by
    have hadded : sampleRows.rows = [] ++ [row] := hrows
    rw [hadded]
    exact List.mem_singleton_self row
  exact ⟨_, row, rfl, hrow, hget sampleRows hrow⟩

/-- One call on an empty cache, and a GET of its row at once. -/
theorem not_forall_readBack : ¬ ∀ (call : OrchestrateCall ℤ) (result : Json.Fields ℤ)
    (row : TranscriptionRow ℤ ℤ) (rows : RowTable ℤ ℤ),
    (orchestrate sampleServices {} ["data", "cache"] FileTree.empty call).result = .ok result →
    (orchestrate sampleServices {} ["data", "cache"] FileTree.empty call).flushed = some row →
    row ∈ rows.rows → ∃ body, getRow exactColumns call.userId row.id rows = some body ∧
      RoundTrips result body := by
  intro hclaim
  obtain ⟨body, hbody, hsame⟩ :=
    hclaim sampleCall _ _ sampleRows rfl rfl (List.mem_singleton.mpr rfl)
  cases hbody
  cases hsame (jsonKey "metadata") (by simp) with
  | some hmetadata =>
      cases hmetadata with
      | obj hentries => cases hentries (jsonKey "processing_seconds")

end TranscriptionApi.Pipeline
