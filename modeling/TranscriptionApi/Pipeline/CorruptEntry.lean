import TranscriptionApi.Pipeline.Hits

/-!
What is in the file of an entry, and what becomes of a call that reads it.

A text that is not JSON is a miss. Anything else that is not the result of a
pipeline is not checked: bytes that are not UTF-8, a value that is no dictionary,
a dictionary without a field, all of them make the call raise, or make a hit of
what should be a miss. The content is harmless when it is no JSON text, or when
it is a dictionary whose row the database takes.
-/

namespace TranscriptionApi.Pipeline

open Lib Python

variable {δ φ : Type} (S : Services δ φ) (settings : ModelSettings) (base : Path)

/-- The fields the pipeline uses of a cached result. -/
def resultFields : List String :=
  ["duration_seconds", "language", "num_speakers", "text_content", "segments", "metadata"]

/-- The bytes are the JSON text of an object with these fields. -/
def CarriesResult (content : Bytes) : Prop :=
  ∃ fields, readEntry S.interpreter content = .ok (some (.obj fields)) ∧
    ∀ k ∈ resultFields, (Json.Fields.get? fields (jsonKey k)).isSome = true

/-- Two runs of a call with the same answer and row from the same stages, which
leave the same entry when they write one; with no pass in between, all files are
the same then. -/
structure SameRun (call : OrchestrateCall φ) (h : String) (report report' : RunReport δ φ) :
    Prop where
  result : report.result = report'.result
  flushed : report.flushed = report'.flushed
  stages : report.stages = report'.stages
  written : report.written = report'.written
  entry : report'.written.isSome = true →
    report.tree.file? (entryPath base call.userId h) =
      report'.tree.file? (entryPath base call.userId h)
  files : call.during = [] → report'.written.isSome = true →
    ∀ q, report.tree.file? q = report'.tree.file? q

/-- A call on this content does not fail where it would not on an absent entry,
and when the content is no result it does what it does on an absent entry. -/
def EntryHarmless (content : Bytes) : Prop :=
  ∀ (t absent : FileTree Bytes) (call : OrchestrateCall φ) (h : String)
    (duration : Json.Number φ) (mtime : ℤ), validAudioHash h = true → LooksUp call h duration →
    t.file? (entryPath base call.userId h) = some (content, mtime) →
    t.unlink (entryDir base call.userId h) resultFilename = .ok absent →
      ((orchestrate S settings base absent call).result.isOk = true →
        (orchestrate S settings base t call).result.isOk = true) ∧
      (¬CarriesResult S content →
        SameRun base call h (orchestrate S settings base t call)
          (orchestrate S settings base absent call))

/-- The six fields are there, `metadata` is an object, the duration converts, and
the database takes the row. -/
def Insertable (fields : Json.Fields φ) : Prop :=
  ∃ duration language numSpeakers textContent segments, ∃ metadata : Json.Fields φ, ∃ d,
    fields.get? (jsonKey "duration_seconds") = some duration ∧
    fields.get? (jsonKey "language") = some language ∧
    fields.get? (jsonKey "num_speakers") = some numSpeakers ∧
    fields.get? (jsonKey "text_content") = some textContent ∧
    fields.get? (jsonKey "segments") = some segments ∧
    fields.get? (jsonKey "metadata") = some (.obj metadata) ∧
    S.decimal duration = some d ∧
    S.accepts ⟨d, language, numSpeakers, textContent, .obj [(jsonKey "segments", segments)],
      .obj (metadata.setItem (jsonKey "cache_hit") (.bool true))⟩ = true

/-- The content is no JSON text, or the database takes it. -/
def HarmlessContent (content : Bytes) : Prop :=
  readEntry S.interpreter content = .ok none ∨
    ∃ fields, readEntry S.interpreter content = .ok (some (.obj fields)) ∧ Insertable S fields

/-- The services let some call through: its payload can be printed, and the
database takes its row. -/
def LetsThrough : Prop :=
  ∃ (call : OrchestrateCall φ) (h : String) (duration : Json.Number φ)
    (payload : Json.Fields φ) (columns : Columns δ φ) (text : List Char),
    validAudioHash h = true ∧ LooksUp call h duration ∧
    (computePayload S settings call h duration).1 = .ok payload ∧
    Json.dumps S.interpreter.floats S.interpreter.limits (.obj payload) = .ok text ∧
    columnsOf S payload = .ok columns ∧ S.accepts columns = true

variable {S} {settings} {base} {t absent : FileTree Bytes} {call : OrchestrateCall φ} {h : String}
  {duration : Json.Number φ} {payload : Json.Fields φ}

/-! ### The columns of a hit -/

theorem item_ok_iff {k : String} {v : Json.Value φ} :
    item payload k = .ok v ↔ payload.get? (jsonKey k) = some v := by
  unfold item
  cases payload.get? (jsonKey k) with
  | none => simp
  | some w => simp

theorem decimalOf_ok_iff {v : Json.Value φ} {d : δ} :
    decimalOf S v = .ok d ↔ S.decimal v = some d := by
  unfold decimalOf
  cases S.decimal v with
  | none => simp
  | some d' => simp

theorem columnsOf_ok_iff {columns : Columns δ φ} :
    columnsOf S payload = .ok columns ↔ ∃ duration segments,
      payload.get? (jsonKey "duration_seconds") = some duration ∧
      S.decimal duration = some columns.durationSeconds ∧
      payload.get? (jsonKey "language") = some columns.language ∧
      payload.get? (jsonKey "num_speakers") = some columns.numSpeakers ∧
      payload.get? (jsonKey "text_content") = some columns.textContent ∧
      payload.get? (jsonKey "segments") = some segments ∧
      columns.segments = .obj [(jsonKey "segments", segments)] ∧
      payload.get? (jsonKey "metadata") = some columns.extraMetadata := by
  constructor
  · intro hcolumns
    obtain ⟨duration, hduration, hcolumns⟩ := Json.bind_eq_ok hcolumns
    obtain ⟨d, hd, hcolumns⟩ := Json.bind_eq_ok hcolumns
    obtain ⟨language, hlanguage, hcolumns⟩ := Json.bind_eq_ok hcolumns
    obtain ⟨numSpeakers, hspeakers, hcolumns⟩ := Json.bind_eq_ok hcolumns
    obtain ⟨textContent, htext, hcolumns⟩ := Json.bind_eq_ok hcolumns
    obtain ⟨segments, hsegments, hcolumns⟩ := Json.bind_eq_ok hcolumns
    obtain ⟨metadata, hmetadata, hcolumns⟩ := Json.bind_eq_ok hcolumns
    cases hcolumns
    exact ⟨duration, segments, item_ok_iff.mp hduration, decimalOf_ok_iff.mp hd,
      item_ok_iff.mp hlanguage, item_ok_iff.mp hspeakers, item_ok_iff.mp htext,
      item_ok_iff.mp hsegments, rfl, item_ok_iff.mp hmetadata⟩
  · rintro ⟨duration, segments, hduration, hd, hlanguage, hspeakers, htext, hsegments, hwrapped,
      hmetadata⟩
    simp only [columnsOf, bind, Except.bind, item_ok_iff.mpr hduration, decimalOf_ok_iff.mpr hd,
      item_ok_iff.mpr hlanguage, item_ok_iff.mpr hspeakers, item_ok_iff.mpr htext,
      item_ok_iff.mpr hsegments, item_ok_iff.mpr hmetadata]
    cases columns
    cases hwrapped
    rfl

theorem fields?_eq_some {v : Json.Value φ} {fields : Json.Fields φ}
    (hv : v.fields? = some fields) : v = .obj fields := by
  cases v with
  | obj fields' =>
      cases hv
      rfl
  | _ => cases hv

theorem hitPayload_ok {cached : Json.Value φ} (hhit : hitPayload cached h = .ok payload) :
    ∃ fields metadata : Json.Fields φ, cached = .obj fields ∧
      (fields.get? (jsonKey "metadata")).getD (.obj []) = .obj metadata ∧
      payload = hitFields fields metadata h := by
  unfold hitPayload at hhit
  split at hhit
  · cases hhit
  · rename_i fields hfields
    split at hhit
    · cases hhit
    · rename_i metadata hmetadata
      cases hhit
      exact ⟨fields, metadata, fields?_eq_some hfields, fields?_eq_some hmetadata, rfl⟩

section HitFields

variable {fields metadata : Json.Fields φ}

theorem hitPayload_of_metadata
    (hmetadata : fields.get? (jsonKey "metadata") = some (.obj metadata)) :
    hitPayload (.obj fields) h = .ok (hitFields fields metadata h) := by
  simp only [hitPayload, Json.Value.fields?, hmetadata, Option.getD_some]

/-- A hit changes the hash and the metadata. -/
theorem get?_hitFields (k : String) (haudio : k ≠ "audio_hash" := by decide)
    (hmetadata : k ≠ "metadata" := by decide) :
    (hitFields fields metadata h).get? (jsonKey k) = fields.get? (jsonKey k) := by
  rw [hitFields, Json.Fields.get?_setItem, Json.Fields.get?_setItem,
    if_neg (by simpa using hmetadata), if_neg (by simpa using haudio)]

theorem get?_metadata_hitFields : (hitFields fields metadata h).get? (jsonKey "metadata") =
    some (.obj (metadata.setItem (jsonKey "cache_hit") (.bool true))) := by
  rw [hitFields, Json.Fields.get?_setItem, if_pos rfl]

/-- The answer to a hit gets its processing time, whatever else is in it. -/
theorem addProcessingSeconds_hitFields (rowId : Uuid) (x : Json.Value φ) :
    (addProcessingSeconds (pipelineResult rowId (hitFields fields metadata h)) x).isOk = true := by
  have hget : (pipelineResult rowId (hitFields fields metadata h)).get? (jsonKey "metadata") =
      some (.obj (metadata.setItem (jsonKey "cache_hit") (.bool true))) := by
    refine (Json.Fields.get?_update fun e he hk => Json.Fields.eq_of_mem_setItem he hk).trans ?_
    exact if_pos (Json.Fields.mem_keys_setItem ..)
  simp [addProcessingSeconds, hget, Json.Value.fields?, Except.isOk, Except.toBool]

/-- The row of a hit is the one that is asked about. -/
theorem insertable_iff (hmetadata : fields.get? (jsonKey "metadata") = some (.obj metadata)) :
    Insertable S fields ↔ ∃ columns, columnsOf S (hitFields fields metadata h) = .ok columns ∧
      S.accepts columns = true := by
  simp only [columnsOf_ok_iff, get?_metadata_hitFields, get?_hitFields "duration_seconds",
    get?_hitFields "language", get?_hitFields "num_speakers", get?_hitFields "text_content",
    get?_hitFields "segments"]
  constructor
  · rintro ⟨duration, language, numSpeakers, textContent, segments, metadata', d, hduration,
      hlanguage, hspeakers, htext, hsegments, hmetadata', hd, haccepts⟩
    rw [hmetadata] at hmetadata'
    cases hmetadata'
    exact ⟨_, ⟨duration, segments, hduration, hd, hlanguage, hspeakers, htext, hsegments, rfl, rfl⟩,
      haccepts⟩
  · rintro ⟨⟨d, language, numSpeakers, textContent, wrapped, metadata'⟩, ⟨duration, segments,
      hduration, hd, hlanguage, hspeakers, htext, hsegments, hwrapped, hmetadata'⟩, haccepts⟩
    cases hwrapped
    cases hmetadata'
    exact ⟨duration, language, numSpeakers, textContent, segments, metadata, d, hduration,
      hlanguage, hspeakers, htext, hsegments, hmetadata, hd, haccepts⟩

end HitFields

/-! ### The write over an entry -/

variable (base) in
/-- Nothing is in the way of the entry. -/
structure Ready (u : Uuid) (h : String) (t : FileTree Bytes) : Prop where
  above : ∀ q, q <+: entryDir base u h → t.file? q = none
  result : t.isDir (entryPath base u h) = false

theorem Ready.of_file? {u : Uuid} {f : Bytes × ℤ} (hfile : t.file? (entryPath base u h) = some f) :
    Ready base u h t where
  above := by
    intro q hq
    have hdir : t.isDir (entryDir base u h) = true := by
      have hup := t.isDir_dropLast (p := entryPath base u h)
        (by rw [(t.file?_eq_some_iff).mp hfile]; rfl)
      rwa [entryPath, List.dropLast_concat] at hup
    obtain ⟨below, hbelow⟩ := hq
    exact t.file?_of_isDir (t.isDir_of_append below (hbelow ▸ hdir))
  result := by
    rw [Bool.eq_false_iff]
    intro hisDir
    rw [t.file?_of_isDir hisDir] at hfile
    cases hfile

/-- The passes of a call leave it so. -/
theorem Ready.runPasses {u : Uuid} (ht : Ready base u h t) (passes : List Pass) :
    Ready base u h (runPasses base t passes).1 := by
  obtain ⟨hfile, hdeep⟩ := runPasses_effect base t passes
  exact ⟨fun q hq => hfile q (ht.above q hq),
    (hdeep _ length_entryPath.ge).trans ht.result⟩

theorem brokenPut_fst (ht : Ready base call.userId h t) (fault : DiskFault) :
    (brokenPut base t call h fault).1 =
      if validAudioHash h = true then
        if fault.left.isSome = true ∧ t.isDir (tmpPath base call.userId h) = true then
          .error (.os .isDirectory)
        else .error (.os fault.error)
      else .error .invalidHash := by
  obtain ⟨-, hdir⟩ := FileTree.mkdirs_ok (entryDir base call.userId h)
    ((t.isDir_iff).mpr t.root) ht.above
  rw [List.nil_append] at hdir
  have hstays : (t.mkdirs [] (entryDir base call.userId h)).2.isDir (tmpPath base call.userId h) =
      t.isDir (tmpPath base call.userId h) :=
    FileTree.isDir_mkdirs_of_not_above tmpPath_not_above
  rw [← hstays]
  unfold brokenPut
  split
  · simp only
    cases hleft : fault.left with
    | none => simp
    | some bytes =>
        by_cases htmp : (t.mkdirs [] (entryDir base call.userId h)).2.isDir
            (tmpPath base call.userId h) = true
        · have hwrite : (t.mkdirs [] (entryDir base call.userId h)).2.writeFile
              (entryDir base call.userId h) tmpFilename bytes call.writtenAt =
                .error .isDirectory := FileTree.writeFile_isDirectory hdir htmp
          simp [hwrite, htmp]
        · obtain ⟨t', hwrite⟩ : ∃ t', (t.mkdirs [] (entryDir base call.userId h)).2.writeFile
              (entryDir base call.userId h) tmpFilename bytes call.writtenAt = .ok t' :=
            FileTree.writeFile_isOk hdir (Bool.eq_false_iff.mpr htmp)
          simp [hwrite, htmp]
  · rfl

/-- With nothing in the way, a write over an entry ends like one where none is. -/
theorem cachePut_fst_congr (hh : validAudioHash h = true) (ht : Ready base call.userId h t)
    (habsent : Ready base call.userId h absent)
    (htmp : absent.isDir (tmpPath base call.userId h) = t.isDir (tmpPath base call.userId h)) :
    (cachePut S base t call h payload).1 = (cachePut S base absent call h payload).1 := by
  unfold cachePut
  split
  · rw [put_fst hh ht.above ht.result, put_fst hh habsent.above habsent.result, htmp]
  · rw [brokenPut_fst ht, brokenPut_fst habsent, htmp]

/-- And it leaves the same files, the entry among them. -/
theorem cachePut_files_congr (ht : (cachePut S base t call h payload).1 = .ok ())
    (habsent : (cachePut S base absent call h payload).1 = .ok ()) {q : Path}
    (hq : q ≠ entryPath base call.userId h → absent.file? q = t.file? q) :
    (cachePut S base t call h payload).2.file? q =
      (cachePut S base absent call h payload).2.file? q := by
  cases hdisk : call.disk with
  | some fault =>
      rw [cachePut, hdisk] at ht
      exact absurd ht (brokenPut_error t fault)
  | none =>
      simp only [cachePut, hdisk] at ht habsent ⊢
      obtain ⟨-, text, htext, hfile⟩ := put_ok ht
      obtain ⟨-, text', htext', hfile'⟩ := put_ok habsent
      rw [htext] at htext'
      cases htext'
      rw [hfile, hfile']
      split
      · rfl
      · rename_i hne
        rw [hq hne]

/-! ### Runs on an entry and on none -/

theorem sameRun_missReport (hh : validAudioHash h = true) (ht : Ready base call.userId h t)
    (habsent : Ready base call.userId h absent)
    (htmp : absent.isDir (tmpPath base call.userId h) = t.isDir (tmpPath base call.userId h))
    (hfile : ∀ q, q ≠ entryPath base call.userId h → absent.file? q = t.file? q) :
    SameRun base call h (missReport S settings base t call h duration)
      (missReport S settings base absent call h duration) := by
  have hdeep (t : FileTree Bytes) : (runPasses base t call.during).1.isDir
      (tmpPath base call.userId h) = t.isDir (tmpPath base call.userId h) :=
    (runPasses_effect base t call.during).2 _ length_tmpPath.ge
  have hsame (payload : Json.Fields φ) :
      (cachePut S base (runPasses base t call.during).1 call h payload).1 =
        (cachePut S base (runPasses base absent call.during).1 call h payload).1 :=
    cachePut_fst_congr hh (ht.runPasses call.during) (habsent.runPasses call.during)
      ((hdeep absent).trans (htmp.trans (hdeep t).symm))
  unfold missReport
  simp only
  split
  · exact ⟨rfl, rfl, rfl, rfl, fun hwritten => (by cases hwritten),
      fun _ hwritten => (by cases hwritten)⟩
  · rename_i payload _
    rcases hput : cachePut S base (runPasses base t call.during).1 call h payload with ⟨r, t'⟩
    rcases hput' : cachePut S base (runPasses base absent call.during).1 call h payload with
      ⟨r', absent'⟩
    have hr : r = r' := by
      have hr := hsame payload
      rwa [hput, hput'] at hr
    subst hr
    cases r with
    | error e =>
        exact ⟨rfl, rfl, rfl, rfl, fun hwritten => (by cases hwritten),
          fun _ hwritten => (by cases hwritten)⟩
    | ok u =>
        have hfiles {q : Path} (hq : q ≠ entryPath base call.userId h →
            (runPasses base absent call.during).1.file? q =
              (runPasses base t call.during).1.file? q) : t'.file? q = absent'.file? q := by
          have hcongr := cachePut_files_congr (congrArg Prod.fst hput) (congrArg Prod.fst hput') hq
          rwa [hput, hput'] at hcongr
        refine ⟨rfl, rfl, rfl, rfl, fun _ => hfiles fun hne => absurd rfl hne,
          fun hduring _ q => hfiles fun hq => ?_⟩
        rw [hduring]
        exact hfile q hq

theorem SameRun.finishCall {report report' : RunReport δ φ}
    (hsame : SameRun base call h report report') :
    SameRun base call h (finishCall S call report) (finishCall S call report') where
  result := by
    show report.result.bind _ = report'.result.bind _
    rw [hsame.result]
  flushed := hsame.flushed
  stages := hsame.stages
  written := hsame.written
  entry := hsame.entry
  files := hsame.files

theorem isOk_iff {ε α : Type} {x : Except ε α} : x.isOk = true ↔ ∃ a, x = .ok a := by
  cases x with
  | error e => simp [Except.isOk, Except.toBool]
  | ok a => simp [Except.isOk, Except.toBool]

/-- A miss that returns has had its transaction and its caller to the end. -/
theorem flushes_of_miss_ok
    (hok : (finishCall S call (missReport S settings base t call h duration)).result.isOk = true) :
    call.flushes = true ∧ call.returns = true := by
  obtain ⟨result, hresult⟩ := isOk_iff.mp hok
  obtain ⟨result₁, hmiss, hfinish⟩ := Json.bind_eq_ok hresult
  constructor
  · rcases missReport_cases t call h duration with ⟨⟨e, herror⟩, -⟩ | ⟨payload, -, hpersist, -⟩
    · rw [herror] at hmiss
      cases hmiss
    · rw [hpersist] at hmiss
      obtain ⟨⟨row, result₂⟩, hrow, -⟩ := Json.map_eq_ok hmiss
      obtain ⟨columns, -, -, hflushes, -⟩ := persistRow_ok hrow
      exact hflushes
  · by_contra hreturns
    rw [if_neg hreturns] at hfinish
    cases hfinish

/-- A hit on an object with these columns returns when its caller does. -/
theorem hit_isOk {fields metadata : Json.Fields φ} {columns : Columns δ φ}
    (hmetadata : fields.get? (jsonKey "metadata") = some (.obj metadata))
    (hcolumns : columnsOf S (hitFields fields metadata h) = .ok columns)
    (haccepts : S.accepts columns = true) (hflushes : call.flushes = true)
    (hreturns : call.returns = true) :
    (finishCall S call (hitReport S base t call h (.obj fields))).result.isOk = true := by
  have hpersist : persistRow S call h (hitFields fields metadata h) =
      .ok (⟨call.rowId, call.userId, h, call.originalFilename, call.originalSizeBytes, columns⟩,
        pipelineResult call.rowId (hitFields fields metadata h)) := by
    simp [persistRow, hcolumns, haccepts, hflushes]
  simp only [finishCall, hitReport, hitPayload_of_metadata hmetadata, Except.bind, hpersist,
    Except.map, if_pos hreturns]
  exact addProcessingSeconds_hitFields ..

/-- What a lookup makes of the content. -/
theorem get_of_file? {content : Bytes} {mtime : ℤ} {u : Uuid} (hh : validAudioHash h = true)
    (hfile : t.file? (entryPath base u h) = some (content, mtime)) :
    CacheStore.get S.interpreter base t u h = readEntry S.interpreter content := by
  rw [CacheStore.get, if_pos hh, hfile]

theorem get_of_absent {u : Uuid} (hh : validAudioHash h = true)
    (hfile : t.file? (entryPath base u h) = none) :
    CacheStore.get S.interpreter base t u h = .ok none := by
  rw [CacheStore.get, if_pos hh, hfile]

theorem Insertable.carriesResult {content : Bytes} {fields : Json.Fields φ}
    (hread : readEntry S.interpreter content = .ok (some (.obj fields)))
    (hfields : Insertable S fields) : CarriesResult S content := by
  obtain ⟨duration, language, numSpeakers, textContent, segments, metadata, d, hduration,
    hlanguage, hspeakers, htext, hsegments, hmetadata, -⟩ := hfields
  refine ⟨fields, hread, ?_⟩
  simp [resultFields, hduration, hlanguage, hspeakers, htext, hsegments, hmetadata]

theorem entryHarmless_of_content {content : Bytes} (hcontent : HarmlessContent S content) :
    EntryHarmless S settings base content := by
  intro t absent call h duration mtime hh hlook hfile hunlink
  have hgone : absent.file? (entryPath base call.userId h) = none :=
    (FileTree.file?_unlink hunlink _).trans (if_pos rfl)
  have hget : CacheStore.get S.interpreter base t call.userId h =
      readEntry S.interpreter content := get_of_file? hh hfile
  rw [orchestrate_miss hlook (get_of_absent hh hgone)]
  rcases hcontent with hnone | ⟨fields, hread, hfields⟩
  · -- both calls miss, and differ in the file the write replaces
    rw [hnone] at hget
    rw [orchestrate_miss hlook hget]
    have hready : Ready base call.userId h t := .of_file? hfile
    have hothers (q : Path) (hq : q ≠ entryPath base call.userId h) :
        absent.file? q = t.file? q := (FileTree.file?_unlink hunlink q).trans (if_neg hq)
    have habsent : Ready base call.userId h absent := by
      refine ⟨fun q hq => ?_, (FileTree.isDir_unlink hunlink).trans hready.result⟩
      rw [hothers q, hready.above q hq]
      rintro rfl
      exact entryPath_not_above hq
    have hsame : SameRun base call h (finishCall S call (missReport S settings base t call h
        duration)) (finishCall S call (missReport S settings base absent call h duration)) :=
      (sameRun_missReport hh hready habsent (FileTree.isDir_unlink hunlink) hothers).finishCall
    exact ⟨fun hok => hsame.result ▸ hok, fun _ => hsame⟩
  · -- a hit, whose row goes through when that of the miss does
    rw [hread] at hget
    refine ⟨fun hok => ?_, fun hnot => absurd (hfields.carriesResult hread) hnot⟩
    rw [orchestrate_hit hlook hget]
    obtain ⟨hflushes, hreturns⟩ := flushes_of_miss_ok hok
    obtain ⟨-, -, -, -, -, metadata, -, -, -, -, -, -, hmetadata, -⟩ := id hfields
    obtain ⟨columns, hcolumns, haccepts⟩ := (insertable_iff hmetadata).mp hfields
    exact hit_isOk hmetadata hcolumns haccepts hflushes hreturns

/-! ### A call to tell contents apart -/

/-- The call with nothing else in its way. -/
def undisturbed (call : OrchestrateCall φ) : OrchestrateCall φ :=
  { call with during := [], disk := none, flushes := true, returns := true }

/-- On an absent entry it returns. -/
theorem undisturbed_isOk {columns : Columns δ φ} {text : List Char} (hlayout : Layout base absent)
    (hh : validAudioHash h = true) (hlook : LooksUp call h duration)
    (hcomputed : (computePayload S settings call h duration).1 = .ok payload)
    (htext : Json.dumps S.interpreter.floats S.interpreter.limits (.obj payload) = .ok text)
    (hcolumns : columnsOf S payload = .ok columns) (haccepts : S.accepts columns = true)
    (hgone : absent.file? (entryPath base call.userId h) = none) :
    (orchestrate S settings base absent (undisturbed call)).result.isOk = true := by
  have hlook' : LooksUp (undisturbed call) h duration := hlook
  have hcomputed' : (computePayload S settings (undisturbed call) h duration).1 = .ok payload :=
    hcomputed
  have hput : (cachePut S base absent (undisturbed call) h payload).1 = .ok () :=
    hlayout.put_isOk hh htext
  have hpersist : persistRow S (undisturbed call) h payload =
      .ok (⟨call.rowId, call.userId, h, call.originalFilename, call.originalSizeBytes, columns⟩,
        pipelineResult call.rowId payload) := by
    simp [persistRow, hcolumns, haccepts, undisturbed]
  have hmiss : (missReport S settings base absent (undisturbed call) h duration).result =
      .ok (pipelineResult call.rowId payload) := by
    unfold missReport
    simp only [hcomputed', hpersist]
    rcases hc : cachePut S base (runPasses base absent (undisturbed call).during).1
      (undisturbed call) h payload with ⟨r, t'⟩
    have hr : r = .ok () := (congrArg Prod.fst hc).symm.trans hput
    subst hr
    rfl
  obtain ⟨-, metadata, hp, -⟩ := computePayload_ok hcomputed
  rw [orchestrate_miss hlook' (get_of_absent (u := call.userId) hh hgone)]
  refine isOk_iff.mpr ⟨answer S call metadata payload, ?_⟩
  simp only [finishCall, hmiss, Except.bind]
  exact hp.addProcessingSeconds call

/-- A tree with this entry in it, and nothing in its way. -/
theorem exists_tree (base : Path) (u : Uuid) (h : String) (hh : validAudioHash h = true)
    (content : Bytes) : ∃ t absent : FileTree Bytes, Layout base absent ∧
      t.file? (entryPath base u h) = some (content, 0) ∧
      t.unlink (entryDir base u h) resultFilename = .ok absent := by
  have hlayout : Layout base (FileTree.empty : FileTree Bytes) := (fresh_empty base).layout
  have hroot : (FileTree.empty : FileTree Bytes).isDir [] = true :=
    (FileTree.isDir_empty []).mpr rfl
  obtain ⟨-, hdir⟩ := FileTree.mkdirs_ok (entryDir base u h) hroot (hlayout.dirs u h · hh)
  rw [List.nil_append] at hdir
  have hresult : ((FileTree.empty : FileTree Bytes).mkdirs [] (entryDir base u h)).2.isDir
      (entryPath base u h) = false := by
    rw [FileTree.isDir_mkdirs_of_not_above]
    · exact hlayout.result _ (isExpectedLayout_entryPath u h)
    · exact entryPath_not_above
  obtain ⟨t, hwrite⟩ : ∃ t, (FileTree.empty.mkdirs [] (entryDir base u h)).2.writeFile
      (entryDir base u h) resultFilename content 0 = .ok t := FileTree.writeFile_isOk hdir hresult
  have hfile (q : Path) :
      t.file? q = if q = entryPath base u h then some (content, 0) else none := by
    rw [FileTree.file?_writeFile hwrite, FileTree.file?_mkdirs, FileTree.file?_empty]
    rfl
  have hentry : t.file? (entryPath base u h) = some (content, 0) := (hfile _).trans (if_pos rfl)
  obtain ⟨absent, hunlink⟩ := FileTree.unlink_isOk hentry
  refine ⟨t, absent, hlayout.mono (fun q _ _ => ?_) fun q hq => ?_, hentry, hunlink⟩
  · rw [FileTree.file?_unlink hunlink, hfile]
    split
    · rfl
    · rename_i hne
      exact if_neg hne
  · rw [FileTree.isDir_unlink hunlink, FileTree.isDir_writeFile hwrite] at hq
    exact (FileTree.isDir_mkdirs hq).imp_right fun habove => ⟨u, h, hh, habove⟩

/-- A miss that returns has run the models. -/
theorem transcribe_mem_of_miss :
    Stage.transcribe ∈
      (finishCall S call (missReport S settings base t call h duration)).stages := by
  show Stage.transcribe ∈ (missReport S settings base t call h duration).stages
  rw [stages_missReport]
  exact transcribe_mem_computePayload

theorem CarriesResult.metadata {content : Bytes} {cached : Json.Value φ}
    (hread : readEntry S.interpreter content = .ok (some cached))
    (hcarries : CarriesResult S content) : ∃ fields v, cached = .obj fields ∧
      Json.Fields.get? fields (jsonKey "metadata") = some v := by
  obtain ⟨fields, hread', hfields⟩ := hcarries
  rw [hread] at hread'
  cases hread'
  obtain ⟨v, hv⟩ := Option.isSome_iff_exists.mp (hfields "metadata" (by simp [resultFields]))
  exact ⟨fields, v, rfl, hv⟩

/-- A hit that returns has found a dictionary, and sent its row. -/
theorem hit_ok {cached : Json.Value φ}
    (hok : (finishCall S call (hitReport S base t call h cached)).result.isOk = true) :
    ∃ fields metadata columns, cached = .obj fields ∧
      (Json.Fields.get? fields (jsonKey "metadata")).getD (.obj []) = .obj metadata ∧
      columnsOf S (hitFields fields metadata h) = .ok columns ∧ S.accepts columns = true := by
  obtain ⟨result, hresult⟩ := isOk_iff.mp hok
  obtain ⟨result₁, hhit, -⟩ := Json.bind_eq_ok hresult
  obtain ⟨⟨row, result₂⟩, hpersist, -⟩ := Json.map_eq_ok hhit
  obtain ⟨payload, hpayload, hrow⟩ := Json.bind_eq_ok hpersist
  obtain ⟨fields, metadata, rfl, hmetadata, rfl⟩ := hitPayload_ok hpayload
  obtain ⟨columns, hcolumns, haccepts, -⟩ := persistRow_ok hrow
  exact ⟨fields, metadata, columns, rfl, hmetadata, hcolumns, haccepts⟩

theorem content_of_entryHarmless {content : Bytes} (hthrough : LetsThrough S settings)
    (hharmless : EntryHarmless S settings base content) : HarmlessContent S content := by
  obtain ⟨call, h, duration, payload, columns, text, hh, hlook, hcomputed, htext, hcolumns,
    haccepts⟩ := hthrough
  obtain ⟨t, absent, hlayout, hfile, hunlink⟩ := exists_tree base call.userId h hh content
  have hgone : absent.file? (entryPath base call.userId h) = none :=
    (FileTree.file?_unlink hunlink _).trans (if_pos rfl)
  have hlook' : LooksUp (undisturbed call) h duration := hlook
  have hget : CacheStore.get S.interpreter base t (undisturbed call).userId h =
      readEntry S.interpreter content := get_of_file? hh hfile
  obtain ⟨hreturns, hsame⟩ :=
    hharmless t absent (undisturbed call) h duration 0 hh hlook' hfile hunlink
  have hok := hreturns
    (undisturbed_isOk hlayout hh hlook hcomputed htext hcolumns haccepts hgone)
  cases hread : readEntry S.interpreter content with
  | error e =>
      -- the lookup raises, where the other call returns
      rw [hread] at hget
      simp [orchestrate, runPipeline, hlook'.1, hlook'.2, hget, finishCall, failedReport,
        Except.bind, Except.isOk, Except.toBool] at hok
  | ok found =>
      cases found with
      | none => exact .inl hread
      | some cached =>
          rw [hread] at hget
          rw [orchestrate_hit hlook' hget] at hok hsame
          by_cases hcarries : CarriesResult S content
          · obtain ⟨fields, metadata, columns, rfl, hmetadata, hcolumns, haccepts⟩ := hit_ok hok
            obtain ⟨fields', v, heq, hv⟩ := hcarries.metadata hread
            cases heq
            rw [hv] at hmetadata
            cases hmetadata
            exact .inr ⟨fields, hread, (insertable_iff hv).mpr ⟨columns, hcolumns, haccepts⟩⟩
          · -- a hit where the models should have run
            have hstages := (hsame hcarries).stages
            rw [orchestrate_miss hlook' (get_of_absent (u := call.userId) hh hgone)] at hstages
            have hmem : Stage.transcribe ∈ (finishCall S (undisturbed call)
                (hitReport S base t (undisturbed call) h cached)).stages := by
              rw [hstages]
              exact transcribe_mem_of_miss
            have hnormalize : Stage.transcribe ∈ [Stage.normalize] := hmem
            exact absurd hnormalize (by decide)

/-- The contents that do no harm to the calls that read them. -/
theorem entryHarmless_iff (hthrough : LetsThrough S settings) (content : Bytes) :
    EntryHarmless S settings base content ↔ HarmlessContent S content :=
  ⟨content_of_entryHarmless hthrough, entryHarmless_of_content⟩

/-- Twelve seconds of silence go through. -/
theorem letsThrough_sampleServices : LetsThrough sampleServices {} := by
  have hprints : (Json.dumps Json.wholeFloats Json.defaultLimits (.obj (silentPayload {} sampleHash
      (jsonKey "es") (.finite 12)))).isOk = true := by
    decide +kernel
  obtain ⟨text, htext⟩ := isOk_iff.mp hprints
  exact ⟨sampleCall, sampleHash, .finite 12, _, _, text, by decide +kernel, ⟨rfl, rfl⟩, rfl, htext,
    rfl, rfl⟩

/-- A file that was cut off after its first byte is a miss. -/
theorem entryHarmless_iff_sample :
    EntryHarmless sampleServices {} ["data", "cache"] (encodeUtf8 ['\x7b']) := by
  refine (entryHarmless_iff letsThrough_sampleServices _).mpr (.inl ?_)
  simp only [readEntry, decodeUtf8_encodeUtf8]
  rfl

/-- The text `[]` is a hit that is no dictionary. -/
theorem list_entry_harms :
    ¬EntryHarmless sampleServices {} ["data", "cache"] (encodeUtf8 ['[', ']']) := by
  intro hharmless
  have hread : readEntry sampleServices.interpreter (encodeUtf8 ['[', ']']) =
      .ok (some (.arr [])) := by
    simp only [readEntry, decodeUtf8_encodeUtf8]
    rfl
  rcases content_of_entryHarmless letsThrough_sampleServices hharmless with
    hnone | ⟨fields, hobj, -⟩
  · rw [hread] at hnone
    cases hnone
  · rw [hread] at hobj
    cases hobj

end TranscriptionApi.Pipeline
