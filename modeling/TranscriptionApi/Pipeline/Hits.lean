import TranscriptionApi.Pipeline.History

/-!
What a user gets from the cache, and which rows stay.

A hit answers with the payload of the miss run that wrote the entry, which was
the same user's and of the same audio, and changes one field of its metadata; the
models are not run. A call that returns leaves one row more, of its user and with
the columns of the payload it answers with; a call that fails leaves none.
-/

namespace TranscriptionApi.Pipeline

open Lib Python

variable {δ φ : Type} (S : Services δ φ) (settings : ModelSettings) (base : Path)

/-- The call comes to the cache lookup, for this audio. -/
def LooksUp (call : OrchestrateCall φ) (h : String) (duration : Json.Number φ) : Prop :=
  call.acquires = true ∧ call.normalize = some (h, duration)

/-- The payload with the identifier and the time of the call. -/
def answer (call : OrchestrateCall φ) (metadata payload : Json.Fields φ) : Json.Fields φ :=
  (jsonKey "transcription_id", uuidValue call.rowId) ::
    payload.setItem (jsonKey "metadata")
      (.obj (metadata.setItem (jsonKey "processing_seconds") (processingSeconds S call)))

/-- A miss run of this user on this audio, which computed the payload and wrote
it to the cache. -/
structure MissRun (call : OrchestrateCall φ) (report : RunReport δ φ) (u : Uuid) (h : String)
    (metadata payload : Json.Fields φ) : Prop where
  user : call.userId = u
  computed : ∃ duration, LooksUp call h duration ∧
    (computePayload S settings call h duration).1 = .ok payload
  stages : Stage.transcribe ∈ report.stages
  written : report.written = some (h, payload)
  isPayload : IsPayload h metadata payload
  cacheHit : metadata.get? (jsonKey "cache_hit") = some (.bool false)
  /-- its own answer, when it returned -/
  result : ∀ result, report.result = .ok result → result = answer S call metadata payload

/-- Why a call that has its payload fails: its duration is no number for the
column, the INSERT is refused or breaks off, or the call is cut short after it. -/
inductive Refused (call : OrchestrateCall φ) (payload : Json.Fields φ) : RunFailure → Prop
  | invalidDecimal {v : Json.Value φ}
      (hduration : payload.get? (jsonKey "duration_seconds") = some v)
      (hdecimal : S.decimal v = none) : Refused call payload .invalidDecimal
  | insert {columns : Columns δ φ} (hcolumns : columnsOf S payload = .ok columns)
      (hrow : S.accepts columns = false ∨ call.flushes = false) : Refused call payload .insert
  | interrupted (hreturns : call.returns = false) : Refused call payload .interrupted

/-- The payload of an entry, read back by a hit. -/
def hitOf (metadata payload : Json.Fields φ) : Json.Fields φ :=
  payload.setItem (jsonKey "metadata") (.obj (metadata.setItem (jsonKey "cache_hit") (.bool true)))

/-- The answer to a call whose user has an entry for its audio: the entry itself is
no reason to fail. -/
structure HitLaw (s : CacheWorld δ φ) (call : OrchestrateCall φ) (h : String)
    (report : RunReport δ φ) : Prop where
  transcribe : Stage.transcribe ∉ report.stages
  diarize : Stage.diarize ∉ report.stages
  payload : ∃ call₀ report₀ metadata payload text, .called call₀ report₀ ∈ s.log ∧
    MissRun S settings call₀ report₀ call.userId h metadata payload ∧
    Json.dumps S.interpreter.floats S.interpreter.limits (.obj payload) = .ok text ∧
    s.tree.file? (entryPath base call.userId h) = some (encodeUtf8 text, call₀.writtenAt) ∧
    (∀ result, report.result = .ok result →
      result = answer S call (metadata.setItem (jsonKey "cache_hit") (.bool true)) payload) ∧
    ∀ e, report.result = .error e → Refused S call (hitOf metadata payload) e

/-- The row of a call that returned. -/
def RowLaw (s s' : CacheWorld δ φ) (call : OrchestrateCall φ) (result : Json.Fields φ) : Prop :=
  ∃ h duration metadata payload columns, LooksUp call h duration ∧
    IsPayload h metadata payload ∧ result = answer S call metadata payload ∧
    columnsOf S payload = .ok columns ∧
    s'.rows = s.rows ++ [⟨call.rowId, call.userId, h, call.originalFilename,
      call.originalSizeBytes, columns⟩]

/-- What is asked of a step. -/
def CallLaw (s : CacheWorld δ φ) (e : CacheEvent φ) (s' : CacheWorld δ φ) : Prop :=
  match e with
  | .purge _ => s'.rows = s.rows
  | .call call =>
      (∀ h duration, validAudioHash h = true → LooksUp call h duration →
        (s.tree.file? (entryPath base call.userId h)).isSome = true →
          HitLaw S settings base s call h (orchestrate S settings base s.tree call)) ∧
      (∀ result, (orchestrate S settings base s.tree call).result = .ok result →
        RowLaw S s s' call result) ∧
      ∀ e, (orchestrate S settings base s.tree call).result = .error e → s'.rows = s.rows

variable {S} {settings} {base} {t : FileTree Bytes} {call : OrchestrateCall φ} {h : String}
  {duration : Json.Number φ} {metadata payload : Json.Fields φ}

/-! ### Payloads and answers -/

theorem IsPayload.setMetadata (hp : IsPayload h metadata payload) (metadata' : Json.Fields φ) :
    IsPayload h metadata' (payload.setItem (jsonKey "metadata") (.obj metadata')) := by
  obtain ⟨language, duration, n, text, segments, rfl⟩ := hp
  exact ⟨language, duration, n, text, segments, setItem_metadata_payloadOf metadata'⟩

theorem IsPayload.hitPayload (hp : IsPayload h metadata payload) :
    hitPayload (.obj payload) h = .ok (hitOf metadata payload) := by
  obtain ⟨language, duration, n, text, segments, rfl⟩ := hp
  rw [hitPayload_payloadOf, hitOf, setItem_metadata_payloadOf]

theorem IsPayload.addProcessingSeconds (hp : IsPayload h metadata payload)
    (call : OrchestrateCall φ) :
    addProcessingSeconds (pipelineResult call.rowId payload) (processingSeconds S call) =
      .ok (answer S call metadata payload) := by
  obtain ⟨language, duration, n, text, segments, rfl⟩ := hp
  rw [pipelineResult_payloadOf, addProcessingSeconds_payloadOf, answer,
    setItem_metadata_payloadOf]

/-- Only the last metadata counts in an answer. -/
theorem IsPayload.answer_setMetadata (hp : IsPayload h metadata payload)
    (call : OrchestrateCall φ) (metadata' : Json.Fields φ) :
    answer S call metadata' (payload.setItem (jsonKey "metadata") (.obj metadata')) =
      answer S call metadata' payload := by
  obtain ⟨language, duration, n, text, segments, rfl⟩ := hp
  simp only [answer, setItem_metadata_payloadOf]

theorem IsPayload.refused_of_columnsOf (hp : IsPayload h metadata payload) {e : RunFailure}
    (he : columnsOf S payload = .error e) : Refused S call payload e := by
  obtain ⟨language, duration, n, text, segments, rfl⟩ := hp
  rw [columnsOf_payloadOf, decimalOf] at he
  split at he
  · cases he
  · rename_i hdecimal
    cases he
    exact .invalidDecimal get?_duration_payloadOf hdecimal

/-! ### One call -/

variable (S) (settings) (base) in
/-- A call fails before the lookup or in it, hits, or misses. -/
theorem orchestrate_cases (t : FileTree Bytes) (call : OrchestrateCall φ) :
    (∃ e stages, orchestrate S settings base t call = failedReport t e stages) ∨
    ∃ h duration, LooksUp call h duration ∧
      ((∃ cached, CacheStore.get S.interpreter base t call.userId h = .ok (some cached) ∧
        orchestrate S settings base t call =
          finishCall S call (hitReport S base t call h cached)) ∨
      CacheStore.get S.interpreter base t call.userId h = .ok none ∧
        orchestrate S settings base t call =
          finishCall S call (missReport S settings base t call h duration)) := by
  unfold orchestrate runPipeline
  split
  · rename_i hacquires
    split
    · exact .inl ⟨_, _, rfl⟩
    · rename_i h duration hnormalize
      split
      · exact .inl ⟨_, _, rfl⟩
      · rename_i cached hget
        exact .inr ⟨h, duration, ⟨hacquires, hnormalize⟩, .inl ⟨cached, hget, rfl⟩⟩
      · rename_i hget
        exact .inr ⟨h, duration, ⟨hacquires, hnormalize⟩, .inr ⟨hget, rfl⟩⟩
  · exact .inl ⟨_, _, rfl⟩

theorem orchestrate_hit {cached : Json.Value φ} (hlook : LooksUp call h duration)
    (hget : CacheStore.get S.interpreter base t call.userId h = .ok (some cached)) :
    orchestrate S settings base t call = finishCall S call (hitReport S base t call h cached) := by
  simp only [orchestrate, runPipeline, hlook.1, hlook.2, hget, if_true]

theorem orchestrate_miss (hlook : LooksUp call h duration)
    (hget : CacheStore.get S.interpreter base t call.userId h = .ok none) :
    orchestrate S settings base t call =
      finishCall S call (missReport S settings base t call h duration) := by
  simp only [orchestrate, runPipeline, hlook.1, hlook.2, hget, if_true]

/-- Only a miss that has stored its payload writes an entry or sends a row. -/
theorem missReport_cases (t : FileTree Bytes) (call : OrchestrateCall φ) (h : String)
    (duration : Json.Number φ) :
    ((∃ e, (missReport S settings base t call h duration).result = .error e) ∧
      (missReport S settings base t call h duration).written = none) ∨
    ∃ payload, (computePayload S settings call h duration).1 = .ok payload ∧
      (missReport S settings base t call h duration).result =
        (persistRow S call h payload).map Prod.snd ∧
      (missReport S settings base t call h duration).flushed =
        (persistRow S call h payload).toOption.map Prod.fst ∧
      (missReport S settings base t call h duration).written = some (h, payload) := by
  unfold missReport
  simp only
  split
  · exact .inl ⟨⟨_, rfl⟩, rfl⟩
  · rename_i payload hcomputed
    split
    · exact .inl ⟨⟨_, rfl⟩, rfl⟩
    · exact .inr ⟨payload, hcomputed, rfl, rfl, rfl⟩

theorem stages_missReport :
    (missReport S settings base t call h duration).stages =
      (computePayload S settings call h duration).2 := by
  unfold missReport
  simp only
  split
  · rfl
  · split
    · rfl
    · rfl

/-- The end of a call that has come to its row. -/
def finished (call : OrchestrateCall φ)
    (persisted : Except RunFailure (TranscriptionRow δ φ × Json.Fields φ)) :
    Except RunFailure (Json.Fields φ) :=
  (persisted.map Prod.snd).bind fun result =>
    if call.returns then addProcessingSeconds result (processingSeconds S call)
    else .error .interrupted

theorem finished_ok (hp : IsPayload h metadata payload) {result : Json.Fields φ}
    (hok : finished (S := S) call (persistRow S call h payload) = .ok result) :
    result = answer S call metadata payload ∧ ∃ columns, columnsOf S payload = .ok columns ∧
      (persistRow S call h payload).toOption.map Prod.fst = some ⟨call.rowId, call.userId, h,
        call.originalFilename, call.originalSizeBytes, columns⟩ := by
  obtain ⟨result₁, hmap, hfinish⟩ := Json.bind_eq_ok hok
  obtain ⟨⟨row, result₂⟩, hpersist, rfl⟩ := Json.map_eq_ok hmap
  obtain ⟨columns, hcolumns, -, -, hresult, hrow⟩ := persistRow_ok hpersist
  simp only at hfinish
  rw [hresult] at hfinish
  split at hfinish
  · rw [hp.addProcessingSeconds] at hfinish
    exact ⟨(Except.ok.inj hfinish).symm, columns, hcolumns, by rw [hpersist, hrow]; rfl⟩
  · cases hfinish

theorem finished_error (hp : IsPayload h metadata payload) {e : RunFailure}
    (herror : finished (S := S) call (persistRow S call h payload) = .error e) :
    Refused S call payload e := by
  unfold persistRow at herror
  split at herror
  · rename_i e' hcolumns
    cases herror
    exact hp.refused_of_columnsOf hcolumns
  · rename_i columns hcolumns
    split at herror
    · have hfinish : (if call.returns = true then
          addProcessingSeconds (pipelineResult call.rowId payload) (processingSeconds S call)
          else .error .interrupted) = .error e := herror
      split at hfinish
      · rw [hp.addProcessingSeconds] at hfinish
        cases hfinish
      · rename_i hreturns
        cases hfinish
        exact .interrupted (Bool.eq_false_iff.mpr hreturns)
    · rename_i hrow
      cases herror
      exact .insert hcolumns (Bool.and_eq_false_iff.mp (Bool.eq_false_iff.mpr hrow))

/-! ### The run that wrote an entry -/

theorem missRun_of_written
    (hwritten : (orchestrate S settings base t call).written = some (h, payload)) :
    ∃ metadata, MissRun S settings call (orchestrate S settings base t call) call.userId h
      metadata payload := by
  rcases orchestrate_cases S settings base t call with
    ⟨e, stages, heq⟩ | ⟨h', duration, hlook, ⟨cached, -, heq⟩ | ⟨-, heq⟩⟩
  · rw [heq] at hwritten
    cases hwritten
  · rw [heq] at hwritten
    cases hwritten
  · rw [heq] at hwritten ⊢
    rcases missReport_cases t call h' duration with
      ⟨-, hnone⟩ | ⟨payload', hcomputed, hresult, -, hsome⟩
    · exact absurd (hnone.symm.trans hwritten) (by simp)
    · have hpair := hsome.symm.trans hwritten
      simp only [Option.some.injEq, Prod.mk.injEq] at hpair
      obtain ⟨rfl, rfl⟩ := hpair
      obtain ⟨-, metadata, hp, hhit⟩ := computePayload_ok hcomputed
      refine ⟨metadata, rfl, ⟨duration, hlook, hcomputed⟩, ?_, hsome, hp, hhit,
        fun result hok => ?_⟩
      · show Stage.transcribe ∈ (missReport S settings base t call h' duration).stages
        rw [stages_missReport]
        exact transcribe_mem_computePayload
      · have hfinished : finished (S := S) call (persistRow S call h' payload') = .ok result := by
          rw [finished, ← hresult]
          exact hok
        exact (finished_ok hp hfinished).1

/-- The log has the call that wrote an entry. -/
theorem called_of_lastWrite {log : List (LogEntry δ φ)} {u : Uuid} {at_ : ℤ}
    (hlast : lastWrite base log u h = some (payload, at_)) :
    ∃ call report, .called call report ∈ log ∧ call.userId = u ∧
      report.written = some (h, payload) ∧ call.writtenAt = at_ := by
  induction log with
  | nil => cases hlast
  | cons entry log ih =>
      have hrest (hlog : lastWrite base log u h = some (payload, at_)) :
          ∃ call report, .called call report ∈ entry :: log ∧ call.userId = u ∧
            report.written = some (h, payload) ∧ call.writtenAt = at_ := by
        obtain ⟨call, report, hmem, hspec⟩ := ih hlog
        exact ⟨call, report, List.mem_cons_of_mem entry hmem, hspec⟩
      cases entry with
      | cleaned removed =>
          exact hrest (CacheMap.of_keep hlast)
      | called call report =>
          cases hwritten : report.written with
          | none =>
              simp only [lastWrite, hwritten] at hlast
              exact hrest hlast
          | some w =>
              obtain ⟨h', payload'⟩ := w
              simp only [lastWrite, hwritten] at hlast
              by_cases hkey : u = call.userId ∧ h = h'
              · obtain ⟨rfl, rfl⟩ := hkey
                rw [CacheMap.set_self] at hlast
                cases hlast
                exact ⟨call, report, List.mem_cons_self, rfl, hwritten, rfl⟩
              · rw [CacheMap.set_of_ne _ _ hkey] at hlast
                exact hrest hlast

/-- In a recorded world, an entry on disk is what a miss run of its user on its
audio has left there. -/
theorem Recorded.entry {s : CacheWorld δ φ} (hs : Recorded S settings base s) {u : Uuid}
    (hh : validAudioHash h = true) (hentry : (s.tree.file? (entryPath base u h)).isSome = true) :
    ∃ call₀ report₀ metadata payload text, .called call₀ report₀ ∈ s.log ∧
      MissRun S settings call₀ report₀ u h metadata payload ∧
      Json.dumps S.interpreter.floats S.interpreter.limits (.obj payload) = .ok text ∧
      s.tree.file? (entryPath base u h) = some (encodeUtf8 text, call₀.writtenAt) ∧
      CacheStore.get S.interpreter base s.tree u h = .ok (some (.obj payload)) := by
  have hget := hs.refines.get (u := u) hh
  cases hlast : lastWrite base s.log u h with
  | none =>
      rw [hs.refines.absent u h hh hlast] at hentry
      cases hentry
  | some e =>
      obtain ⟨payload, at_⟩ := e
      obtain ⟨-, text, htext, hfile⟩ := hs.refines.present u h payload at_ hh hlast
      obtain ⟨call₀, report₀, hmem, rfl, hwritten, rfl⟩ := called_of_lastWrite hlast
      obtain ⟨t₀, rfl⟩ := hs.called call₀ report₀ hmem
      obtain ⟨metadata, hrun⟩ := missRun_of_written hwritten
      rw [hlast] at hget
      exact ⟨call₀, _, metadata, payload, text, hmem, hrun, htext, hfile, hget⟩

/-! ### The laws of a step -/

/-- A lookup that finds something finds it in the file of the entry. -/
theorem get_eq_some {P : Json.Interpreter φ} {u : Uuid} {cached : Json.Value φ}
    (hget : CacheStore.get P base t u h = .ok (some cached)) :
    validAudioHash h = true ∧ (t.file? (entryPath base u h)).isSome = true := by
  unfold CacheStore.get at hget
  split at hget
  · rename_i hh
    refine ⟨hh, ?_⟩
    split at hget
    · cases hget
    · rename_i hfile
      rw [hfile]
      rfl
  · cases hget

variable (S) (base) in
/-- The payload of a hit goes the way of any payload. -/
theorem hitReport_payload (t : FileTree Bytes) (call : OrchestrateCall φ)
    (hp : IsPayload h metadata payload) :
    IsPayload h (metadata.setItem (jsonKey "cache_hit") (.bool true)) (hitOf metadata payload) ∧
      (finishCall S call (hitReport S base t call h (.obj payload))).result =
        finished (S := S) call (persistRow S call h (hitOf metadata payload)) ∧
      (finishCall S call (hitReport S base t call h (.obj payload))).flushed =
        (persistRow S call h (hitOf metadata payload)).toOption.map Prod.fst := by
  have hhit := hp.hitPayload
  refine ⟨hp.setMetadata _, ?_, ?_⟩
  · simp only [finishCall, hitReport, hhit, Except.bind, finished]
  · simp only [finishCall, hitReport, hhit, Except.bind]

theorem hitLaw {s : CacheWorld δ φ} (hs : Recorded S settings base s)
    (hh : validAudioHash h = true) (hlook : LooksUp call h duration)
    (hentry : (s.tree.file? (entryPath base call.userId h)).isSome = true) :
    HitLaw S settings base s call h (orchestrate S settings base s.tree call) := by
  obtain ⟨call₀, report₀, metadata, payload, text, hmem, hrun, htext, hfile, hget⟩ :=
    hs.entry hh hentry
  obtain ⟨hp', hresult, -⟩ := hitReport_payload S base s.tree call hrun.isPayload
  rw [orchestrate_hit hlook hget]
  refine ⟨?_, ?_, call₀, report₀, metadata, payload, text, hmem, hrun, htext, hfile, ?_, ?_⟩
  · show Stage.transcribe ∉ [Stage.normalize]
    decide
  · show Stage.diarize ∉ [Stage.normalize]
    decide
  · intro result hok
    rw [hresult] at hok
    exact (finished_ok hp' hok).1.trans (hrun.isPayload.answer_setMetadata call _)
  · intro e herror
    rw [hresult] at herror
    exact finished_error hp' herror

/-- A call that returns has sent one row, with the payload it returns. -/
theorem flushed_of_ok {s : CacheWorld δ φ} (hs : Recorded S settings base s)
    {result : Json.Fields φ}
    (hok : (orchestrate S settings base s.tree call).result = .ok result) :
    ∃ h duration metadata payload columns, LooksUp call h duration ∧
      IsPayload h metadata payload ∧ result = answer S call metadata payload ∧
      columnsOf S payload = .ok columns ∧
      (orchestrate S settings base s.tree call).flushed = some ⟨call.rowId, call.userId, h,
        call.originalFilename, call.originalSizeBytes, columns⟩ := by
  rcases orchestrate_cases S settings base s.tree call with
    ⟨e, stages, heq⟩ | ⟨h, duration, hlook, ⟨cached, hget, heq⟩ | ⟨-, heq⟩⟩
  · rw [heq] at hok
    cases hok
  · -- the row of a hit holds the payload of the run that wrote the entry
    obtain ⟨hh, hentry⟩ := get_eq_some hget
    obtain ⟨call₀, report₀, metadata, payload, text, -, hrun, -, -, hget'⟩ := hs.entry hh hentry
    rw [hget] at hget'
    cases hget'
    obtain ⟨hp', hresult, hflushed⟩ := hitReport_payload S base s.tree call hrun.isPayload
    rw [heq, hresult] at hok
    obtain ⟨hanswer, columns, hcolumns, hrow⟩ := finished_ok hp' hok
    exact ⟨h, duration, _, _, columns, hlook, hp', hanswer, hcolumns,
      by rw [heq, hflushed, hrow]⟩
  · rcases missReport_cases s.tree call h duration with
      ⟨⟨e, herror⟩, -⟩ | ⟨payload, hcomputed, hresult, hflushed, -⟩
    · rw [heq, finishCall, herror] at hok
      cases hok
    · -- the row of a miss holds what has just been computed
      obtain ⟨-, metadata, hp, -⟩ := computePayload_ok hcomputed
      have hfinished : finished (S := S) call (persistRow S call h payload) = .ok result := by
        rw [finished, ← hresult, ← hok, heq]
        rfl
      obtain ⟨hanswer, columns, hcolumns, hrow⟩ := finished_ok hp hfinished
      exact ⟨h, duration, metadata, payload, columns, hlook, hp, hanswer, hcolumns,
        by rw [heq, ← hrow, ← hflushed]; rfl⟩

theorem callLaw {s s' : CacheWorld δ φ} {e : CacheEvent φ} (hs : Recorded S settings base s)
    (hstep : (cacheSystem S settings base).step s e = some s') :
    CallLaw S settings base s e s' := by
  cases e with
  | purge pass =>
      cases hstep
      rfl
  | call call =>
      cases hstep
      refine ⟨fun h duration hh hlook hentry => hitLaw hs hh hlook hentry, fun result hok => ?_,
        fun e herror => ?_⟩
      · obtain ⟨h, duration, metadata, payload, columns, hlook, hp, hanswer, hcolumns, hflushed⟩ :=
          flushed_of_ok hs hok
        refine ⟨h, duration, metadata, payload, columns, hlook, hp, hanswer, hcolumns, ?_⟩
        show settle s.rows (orchestrate S settings base s.tree call) = _
        rw [settle, hok, hflushed]
        rfl
      · show settle s.rows (orchestrate S settings base s.tree call) = _
        rw [settle, herror]

/-- Along every run from a cache without entries, whatever calls and passes it is
made of. -/
theorem orchestrate_history (hfresh : Fresh base t) (es : List (CacheEvent φ)) :
    (cacheSystem S settings base).Along (CallLaw S settings base) (startWorld t) es :=
  (cacheSystem S settings base).along_of_invariant (I := Recorded S settings base)
    (fun _ _ _ hs hstep => hs.step hstep) (fun _ _ _ hs hstep => callLaw hs hstep)
    (recorded_startWorld hfresh)

/-- Floats are whole, and the database wants texts and a number. -/
def sampleServices : Services ℤ ℤ where
  interpreter := Json.wholeInterpreter
  str := fun v => match v with
    | .str s => s
    | _ => []
  decimal := fun v => match v with
    | .float (.finite x) => some x
    | _ => none
  round := id
  accepts := fun columns => match columns.language, columns.numSpeakers, columns.textContent with
    | .str _, .int _, .str _ => true
    | _, _, _ => false

/-- Twelve seconds of silence. -/
def sampleCall : OrchestrateCall ℤ where
  userId := 1
  originalFilename := "a.wav"
  originalSizeBytes := 384000
  language := jsonKey "es"
  acquires := true
  normalize := some (sampleHash, .finite 12)
  now := 0
  stt := some ⟨some [], some (jsonKey "es")⟩
  diarize := none
  during := []
  disk := none
  writtenAt := 3000000
  flushes := true
  rowId := 2
  returns := true
  elapsed := 4

/-- The second of two such calls. -/
def secondReport : RunReport ℤ ℤ :=
  orchestrate sampleServices {} ["data", "cache"]
    (afterCall sampleServices {} ["data", "cache"] (startWorld FileTree.empty) sampleCall).tree
    sampleCall

/-- It does not run the models, and returns what the first one computed. -/
theorem orchestrate_history_sample :
    Stage.transcribe ∉ secondReport.stages ∧ ∃ metadata payload : Json.Fields ℤ,
      (computePayload sampleServices {} sampleCall sampleHash (.finite 12)).1 = .ok payload ∧
      secondReport.result = .ok (answer sampleServices sampleCall
        (metadata.setItem (jsonKey "cache_hit") (.bool true)) payload) := by
  have hlaws : (cacheSystem sampleServices {} ["data", "cache"]).Along
      (CallLaw sampleServices {} ["data", "cache"]) (startWorld FileTree.empty)
      [.call sampleCall, .call sampleCall] := orchestrate_history (fresh_empty _) _
  obtain ⟨hhit, -, -⟩ := ((hlaws _ rfl).2 _ rfl).1
  have hlaw : HitLaw sampleServices {} ["data", "cache"] _ sampleCall sampleHash secondReport :=
    hhit sampleHash (.finite 12) (by decide +kernel) ⟨rfl, rfl⟩ (by decide +kernel)
  obtain ⟨call₀, report₀, metadata, payload, text, hmem, hrun, -, -, hok, hfailed⟩ := hlaw.payload
  obtain ⟨duration, ⟨-, hnormalize⟩, hcomputed⟩ := hrun.computed
  obtain rfl : call₀ = sampleCall := by
    rcases List.mem_cons.mp hmem with heq | hmem
    · cases heq
      rfl
    · cases hmem
  obtain rfl : duration = .finite 12 := by
    cases hnormalize
    rfl
  refine ⟨hlaw.transcribe, metadata, payload, hcomputed, ?_⟩
  cases hresult : secondReport.result with
  | ok result => rw [hok result hresult]
  | error e =>
      -- nothing that such a call can fail of is there
      obtain rfl : silentPayload {} sampleHash (jsonKey "es") (.finite 12) = payload :=
        Except.ok.inj hcomputed
      have hrefused := hfailed e hresult
      rw [hitOf, silentPayload, setItem_metadata_payloadOf] at hrefused
      cases hrefused with
      | invalidDecimal hduration hdecimal =>
          cases get?_duration_payloadOf.symm.trans hduration
          cases hdecimal
      | insert hcolumns hrow =>
          rw [columnsOf_payloadOf] at hcolumns
          cases hcolumns
          rcases hrow with hrow | hrow <;> cases hrow
      | interrupted hreturns => cases hreturns

end TranscriptionApi.Pipeline
