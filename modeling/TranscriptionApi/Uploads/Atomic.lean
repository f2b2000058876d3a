import TranscriptionApi.Lib.ReadCommitted
import TranscriptionApi.Uploads.Invariants

/-!
One call of `start_transcription`, await by await, with the transaction its
session keeps open on the server.

The pipeline only flushes its row and the tool only executes its UPDATE: both
stay in the transaction. `scoped_session` commits when the body returns, rolls
back when an `Exception` leaves it, and closes the session in any case. An await
may raise after the server has executed what it was asked to do, the COMMIT
included, and the server may drop the transaction at any time, after which the
session reaches it no more. The committed database changes under the call all
the while; `Interference` is what the other transactions of the service do to
it.
-/

namespace TranscriptionApi.Uploads

open Db Lib Mcp Python

/-! ### The transaction of a call -/

/-- The statements of a call that write. -/
inductive Statement where
  /-- the flush in `_run_pipeline` -/
  | insertTranscription (tx : Transcription)
  /-- `_consume_upload` -/
  | consumeUpload (i : Uuid) (at_ : ℤ)

def Statement.apply : Statement → Database → Option Database
  | .insertTranscription tx, db =>
      (db.transcriptions.insert? tx).map fun t => { db with transcriptions := t }
  | .consumeUpload i at_, db =>
      some { db with uploadSessions := Mcp.consumeUpload i at_ db.uploadSessions }

def Statement.keys : Statement → List Uuid
  | .insertTranscription tx => [tx.id]
  | .consumeUpload i _ => [i]

def statements : Writes Database Statement Uuid := ⟨Statement.apply, Statement.keys⟩

/-- What the COMMIT of a call publishes is the transaction of the handler in
`step`. -/
theorem applyAll_consumed (row : UploadSession) (at_ : ℤ) (tx : Transcription)
    (r : TranscriptionResult) (db : Database) :
    statements.applyAll [.insertTranscription tx, .consumeUpload row.id at_] db =
      (Write.consumed row at_ tx r).apply db := by
  rw [Writes.applyAll_cons]
  show ((db.transcriptions.insert? tx).map _).bind _ = (db.transcriptions.insert? tx).map _
  cases db.transcriptions.insert? tx with
  | none => rfl
  | some t => rfl

/-- What other transactions make of the committed database. -/
structure Interference where
  apply : Database → Database
  leadsTo : ∀ db i r, db.uploadSessions.find? i = some r →
    ∃ r', (apply db).uploadSessions.find? i = some r' ∧ LeadsTo r r'

/-- Every step of the service is such an interference. -/
theorem exists_interference {sv : Service} {w w' : World} {e : Event}
    (h : (service sv).step w e = some w') : ∃ c : Interference, c.apply w.db = w'.db := by
  classical
  refine ⟨⟨fun db => if db = w.db then w'.db else db, fun db i r hr => ?_⟩, if_pos rfl⟩
  by_cases hdb : db = w.db
  · rw [if_pos hdb]
    rw [hdb] at hr
    exact (step_moves h).sessions.leadsTo hr
  · rw [if_neg hdb]
    exact ⟨r, hr, .refl r⟩

/-! ### The call -/

/-- The awaits of `orchestrate`. -/
inductive PipelineAwait where
  | lock
  | normalize
  | transcribe
  | diarize
  | flush (r : TranscriptionResult) (tx : Transcription)
  /-- `_run_pipeline` has returned, its `wait_for` has not -/
  | returning (r : TranscriptionResult) (tx : Transcription)

/-- Where a call is. -/
inductive Position where
  /-- in the SELECT of `_load_upload_row` -/
  | selecting
  | orchestrating (row : UploadSession) (stage : PipelineAwait)
  /-- in the UPDATE of `_consume_upload` -/
  | consuming (row : UploadSession) (r : TranscriptionResult) (tx : Transcription) (at_ : ℤ)
  /-- in the `commit` of `scoped_session` -/
  | committing (answer : StartAnswer)
  | rollingBack (e : Failure)
  | closing (result : Except Failure StartAnswer)
  | ended (result : Except Failure StartAnswer)

/-- A call. `transaction` is what the server has executed for it and not
committed. -/
structure StartCall where
  committed : Database
  transaction : List Statement
  connected : Bool
  position : Position

/-- How an await ends. A statement may have been `executed` although its await
raises; `cleanup` says whether `_cleanup_upload_dir` returns. -/
inductive Reply where
  | ok (now : ℤ) (cleanup : Bool)
  /-- the pipeline has its payload and goes on to the flush; the id and the
  instant are those the server gives the row -/
  | payload (r : TranscriptionResult) (txId : Uuid) (createdAt : ℤ)
  /-- an `Exception` -/
  | raised (e : PipelineError) (executed cleanup : Bool)
  /-- `CancelledError`, which `except Exception` does not catch -/
  | cancelled (executed cleanup : Bool)

inductive StartEvent where
  | others (c : Interference)
  | dropped
  | resume (reply : Reply)

namespace StartCall

/-- The call with a statement executed in its transaction; `none` when the
connection is gone or the statement violates a constraint. -/
def execute (s : StartCall) (st : Statement) : Option StartCall :=
  if s.connected then
    (statements.applyAll (s.transaction ++ [st]) s.committed).map fun _ =>
      { s with transaction := s.transaction ++ [st] }
  else none

/-- The same where the await raises, so that nobody knows. -/
def executeIf (s : StartCall) (executed : Bool) (st : Statement) : StartCall :=
  if executed then (s.execute st).getD s else s

def goto (s : StartCall) (position : Position) : StartCall := { s with position := position }

/-- The COMMIT takes place on the server. -/
def publish (s : StartCall) : Option StartCall :=
  if s.connected then
    (statements.applyAll s.transaction s.committed).map fun db =>
      { s with committed := db, transaction := [] }
  else none

/-- An exception leaves the body of `scoped_session`. -/
def raise (s : StartCall) (caught : Bool) (e : Failure) : StartCall :=
  s.goto (if caught then .rollingBack e else .closing (.error e))

/-- The same from within the `try` of the tool, whose `finally` block may raise
an exception of its own. -/
def leaveTry (s : StartCall) (caught : Bool) (e : Failure) (cleanup : Bool) : StartCall :=
  if cleanup then s.raise caught e else s.raise true .raised

end StartCall

section Step

variable (sv : Service) (userId : Uuid) (uploadId : String) (s : StartCall)

def startCall (status : Option RuntimeStatus) (db : Database) : StartCall where
  committed := db
  transaction := []
  connected := true
  position :=
    match checkModels status with
    | .error e => .ended (.error e)
    | .ok () => .selecting

/-- `_load_upload_row`. -/
def loadUploadRow (now : ℤ) : StartCall :=
  match selectUpload s.committed userId uploadId with
  | .error e => s.raise true e
  | .ok row =>
      match checkUploadRow sv.settings now row with
      | .error e => s.raise true e
      | .ok () => s.goto (.orchestrating row .lock)

def resumeSelect : Reply → Option StartCall
  | .ok now _ => if s.connected then some (loadUploadRow sv userId uploadId s now) else none
  | .raised .. => some (s.raise true .raised)
  | .cancelled .. => some (s.raise false .raised)
  | _ => none

/-- The row of the pipeline, on its way to the flush. -/
def toFlush (row : UploadSession) (r : TranscriptionResult) (txId : Uuid) (createdAt : ℤ) :
    StartCall :=
  s.goto (.orchestrating row
    (.flush r { transcriptionRow row txId createdAt r with userId := userId }))

/-- The await of a stage returns. -/
def nextStage (row : UploadSession) : PipelineAwait → Reply → Option StartCall
  | .lock, .ok .. => some (s.goto (.orchestrating row .normalize))
  | .normalize, .ok .. => some (s.goto (.orchestrating row .transcribe))
  -- a cache hit
  | .normalize, .payload r txId createdAt => some (toFlush userId s row r txId createdAt)
  | .transcribe, .ok .. => some (s.goto (.orchestrating row .diarize))
  -- nothing was said
  | .transcribe, .payload r txId createdAt => some (toFlush userId s row r txId createdAt)
  | .diarize, .payload r txId createdAt => some (toFlush userId s row r txId createdAt)
  | .flush r tx, .ok .. =>
      (s.execute (.insertTranscription tx)).map fun s' =>
        s'.goto (.orchestrating row (.returning r tx))
  | .returning r tx, .ok now _ => some (s.goto (.consuming row r tx now))
  | _, _ => none

/-- The flush may have inserted its row although it raises. -/
def abandonStage (executed : Bool) : PipelineAwait → StartCall
  | .flush _ tx => s.executeIf executed (.insertTranscription tx)
  | _ => s

def resumeStage (row : UploadSession) (stage : PipelineAwait) : Reply → Option StartCall
  | .raised e executed cleanup =>
      some ((abandonStage s executed stage).leaveTry true
        (startFailure sv.showSeconds e) cleanup)
  | .cancelled executed cleanup =>
      some ((abandonStage s executed stage).leaveTry false .raised cleanup)
  | reply => nextStage userId s row stage reply

def resumeConsume (row : UploadSession) (r : TranscriptionResult) (tx : Transcription)
    (at_ : ℤ) : Reply → Option StartCall
  | .ok _ cleanup =>
      (s.execute (.consumeUpload row.id at_)).map fun s' =>
        -- the UPDATE is in the transaction when the cleanup of the directory raises
        if cleanup then s'.goto (.committing (startAnswer tx r)) else s'.raise true .raised
  | .raised _ executed _ =>
      some ((s.executeIf executed (.consumeUpload row.id at_)).raise true .raised)
  | .cancelled executed cleanup =>
      some ((s.executeIf executed (.consumeUpload row.id at_)).leaveTry false .raised cleanup)
  | _ => none

def resumeCommit (answer : StartAnswer) : Reply → Option StartCall
  | .ok .. => s.publish.map fun s' => s'.goto (.closing (.ok answer))
  | .raised _ executed _ => some ((if executed then s.publish.getD s else s).raise true .raised)
  | .cancelled executed _ =>
      some ((if executed then s.publish.getD s else s).raise false .raised)
  | _ => none

def resumeRollback (e : Failure) : Reply → Option StartCall
  | .ok .. => some { s with transaction := [], position := .closing (.error e) }
  | .raised .. | .cancelled .. => some (s.goto (.closing (.error .raised)))
  | _ => none

def resumeClose (result : Except Failure StartAnswer) : Reply → Option StartCall
  | .ok .. => some { s with transaction := [], position := .ended result }
  | .raised .. | .cancelled .. => some (s.goto (.ended (.error .raised)))
  | _ => none

def resumeStart (reply : Reply) : Option StartCall :=
  match s.position with
  | .selecting => resumeSelect sv userId uploadId s reply
  | .orchestrating row stage => resumeStage sv userId s row stage reply
  | .consuming row r tx at_ => resumeConsume s row r tx at_ reply
  | .committing answer => resumeCommit s answer reply
  | .rollingBack e => resumeRollback s e reply
  | .closing result => resumeClose s result reply
  | .ended _ => none

def startStep : StartEvent → Option StartCall
  | .others c => some { s with committed := c.apply s.committed }
  | .dropped => some { s with transaction := [], connected := false }
  | .resume reply => resumeStart sv userId uploadId s reply

end Step

def startTranscription (sv : Service) (userId : Uuid) (uploadId : String) :
    System StartCall StartEvent := ⟨startStep sv userId uploadId⟩

/-! ### Both effects or neither -/

/-- What the COMMIT of a call for the session `i` does. -/
structure Published (userId i : Uuid) (tx : Transcription) (at_ : ℤ) (db db' : Database) :
    Prop where
  owner : tx.userId = userId
  fresh : db.transcriptions.find? tx.id = none
  inserted : db'.transcriptions.rows = db.transcriptions.rows ++ [tx]
  consumed : ∃ r, db'.uploadSessions.find? i = some r ∧ r.userId = userId ∧
    r.status = .consumed ∧ r.consumedAt = some at_
  others : db' = { db with
    transcriptions := db'.transcriptions
    uploadSessions := Mcp.consumeUpload i at_ db.uploadSessions }

def BothEffects (userId : Uuid) (uploadId : String) (db db' : Database) : Prop :=
  ∃ i tx at_, uuid uploadId = some i ∧ Published userId i tx at_ db db'

/-- The committed database before and after every step the call itself takes. -/
def ownSteps (sv : Service) (userId : Uuid) (uploadId : String) :
    StartCall → List StartEvent → List (Database × Database)
  | _, [] => []
  | s, e :: es =>
      match startStep sv userId uploadId s e with
      | none => []
      | some s' =>
          match e with
          | .resume _ => (s.committed, s'.committed) :: ownSteps sv userId uploadId s' es
          | _ => ownSteps sv userId uploadId s' es

/-- Steps that leave the committed database alone. -/
def Quiet (steps : List (Database × Database)) : Prop := ∀ d ∈ steps, d.2 = d.1

/-- The call will not commit any more. -/
def Position.done : Position → Bool
  | .rollingBack _ | .closing _ | .ended _ => true
  | _ => false

/-- The call returns an answer. -/
def Position.success : Position → Bool
  | .closing (.ok _) | .ended (.ok _) => true
  | _ => false

/-- The session a call works on is in the committed database, and its
transaction consists of these statements as long as there is a connection. -/
structure Carries (userId : Uuid) (uploadId : String) (s : StartCall) (row : UploadSession)
    (sts : List Statement) : Prop where
  uploadId : uuid uploadId = some row.id
  session : ∃ r, s.committed.uploadSessions.find? row.id = some r ∧ r.userId = userId
  transaction : s.connected = true → s.transaction = sts

/-- What the position of a call says about its transaction. -/
def Held (userId : Uuid) (uploadId : String) (s : StartCall) : Prop :=
  match s.position with
  | .selecting => s.connected = true → s.transaction = []
  | .orchestrating row (.flush _ tx) =>
      tx.userId = userId ∧ Carries userId uploadId s row []
  | .orchestrating row (.returning _ tx) =>
      tx.userId = userId ∧ Carries userId uploadId s row [.insertTranscription tx]
  | .orchestrating row _ => Carries userId uploadId s row []
  | .consuming row _ tx _ =>
      tx.userId = userId ∧ Carries userId uploadId s row [.insertTranscription tx]
  | .committing _ => ∃ row tx at_, tx.userId = userId ∧
      Carries userId uploadId s row [.insertTranscription tx, .consumeUpload row.id at_]
  | _ => True

section Steps

variable {sv : Service} {userId : Uuid} {uploadId : String} {s s' : StartCall}

theorem published_of_applyAll {row r : UploadSession} {tx : Transcription} {at_ : ℤ}
    {db db' : Database}
    (h : statements.applyAll [.insertTranscription tx, .consumeUpload row.id at_] db = some db')
    (hr : db.uploadSessions.find? row.id = some r) (howner : r.userId = userId)
    (htx : tx.userId = userId) : Published userId row.id tx at_ db db' := by
  obtain ⟨db₁, h₁, h₂⟩ := Option.bind_eq_some_iff.mp h
  obtain ⟨t, ht, rfl⟩ := Option.map_eq_some_iff.mp h₁
  rw [Writes.applyAll_singleton] at h₂
  obtain rfl := Option.some.inj h₂
  obtain ⟨hrows, hfree⟩ := Table.insert?_eq_some ht
  refine ⟨htx, hfree, hrows, ?_, rfl⟩
  have hkey : r.id = row.id := Table.key_of_find? hr
  refine ⟨{ r with status := .consumed, consumedAt := some at_ }, ?_, howner, rfl, rfl⟩
  show (Mcp.consumeUpload row.id at_ db.uploadSessions).find? row.id = _
  rw [Mcp.consumeUpload, Table.find?_update, hr, Option.map_some, if_pos (by simpa using hkey)]

theorem execute_eq_some {st : Statement} (h : s.execute st = some s') :
    s.connected = true ∧ s' = { s with transaction := s.transaction ++ [st] } := by
  unfold StartCall.execute at h
  split at h
  · rename_i hconnected
    obtain ⟨db, -, rfl⟩ := Option.map_eq_some_iff.mp h
    exact ⟨hconnected, rfl⟩
  · cases h

theorem committed_execute {st : Statement} (h : s.execute st = some s') :
    s'.committed = s.committed := by
  obtain ⟨-, rfl⟩ := execute_eq_some h
  rfl

theorem publish_eq_some (h : s.publish = some s') : s.connected = true ∧
    ∃ db, statements.applyAll s.transaction s.committed = some db ∧
      s' = { s with committed := db, transaction := [] } := by
  unfold StartCall.publish at h
  split at h
  · rename_i hconnected
    obtain ⟨db, hdb, rfl⟩ := Option.map_eq_some_iff.mp h
    exact ⟨hconnected, db, hdb, rfl⟩
  · cases h

@[simp] theorem committed_executeIf (executed : Bool) (st : Statement) :
    (s.executeIf executed st).committed = s.committed := by
  unfold StartCall.executeIf
  split
  · cases hexec : s.execute st with
    | none => rfl
    | some s₁ => exact committed_execute hexec
  · rfl

@[simp] theorem committed_abandonStage (executed : Bool) (stage : PipelineAwait) :
    (abandonStage s executed stage).committed = s.committed := by
  cases stage with
  | flush r tx => exact committed_executeIf _ _
  | _ => rfl

theorem Carries.execute {row : UploadSession} {sts : List Statement} {st : Statement}
    (h : Carries userId uploadId s row sts) (hexec : s.execute st = some s') (p : Position) :
    Carries userId uploadId (s'.goto p) row (sts ++ [st]) := by
  obtain ⟨hconnected, rfl⟩ := execute_eq_some hexec
  refine ⟨h.uploadId, h.session, fun _ => ?_⟩
  show s.transaction ++ [st] = sts ++ [st]
  rw [h.transaction hconnected]

/-- What a step of the call does. -/
inductive Effect (userId : Uuid) (uploadId : String) (s s' : StartCall) : Prop
  | quiet (hcommitted : s'.committed = s.committed) (hheld : Held userId uploadId s')
      (hdone : s.position.done = true → s'.position.done = true)
      (hsuccess : s'.position.success = true → s.position.success = true)
  | published (hboth : BothEffects userId uploadId s.committed s'.committed)
      (hbefore : s.position.done = false) (hdone : s'.position.done = true)

/-- An exception commits nothing. -/
theorem effect_raise {s₀ : StartCall} (h : s₀.committed = s.committed) (caught : Bool)
    (e : Failure) : Effect userId uploadId s (s₀.raise caught e) := by
  cases caught with
  | true => exact .quiet h trivial (fun _ => rfl) (fun hs => by cases hs)
  | false => exact .quiet h trivial (fun _ => rfl) (fun hs => by cases hs)

theorem effect_leaveTry {s₀ : StartCall} (h : s₀.committed = s.committed) (caught : Bool)
    (e : Failure) (cleanup : Bool) : Effect userId uploadId s (s₀.leaveTry caught e cleanup) := by
  cases cleanup with
  | true => exact effect_raise h caught e
  | false => exact effect_raise h true .raised

/-- The call moves on, its transaction in order. -/
theorem effect_goto {p : Position} (hcommitted : s'.committed = s.committed)
    (hheld : Held userId uploadId (s'.goto p)) (hbefore : s.position.done = false)
    (hsuccess : p.success = false) : Effect userId uploadId s (s'.goto p) :=
  .quiet hcommitted hheld (fun h => by rw [hbefore] at h; cases h)
    (fun h => by
      have hp : p.success = true := h
      rw [hsuccess] at hp
      cases hp)

theorem resumeSelect_effect {reply : Reply} (hp : s.position = .selecting)
    (hs : Held userId uploadId s) (h : resumeSelect sv userId uploadId s reply = some s') :
    Effect userId uploadId s s' := by
  cases reply with
  | ok now cleanup =>
      simp only [resumeSelect, Option.ite_none_right_eq_some, Option.some.injEq] at h
      obtain ⟨-, rfl⟩ := h
      unfold loadUploadRow
      split
      · exact effect_raise rfl true _
      · rename_i row hselect
        split
        · exact effect_raise rfl true _
        · obtain ⟨huuid, hmem, -, howner⟩ := selectUpload_eq_ok hselect
          rw [Held, hp] at hs
          exact effect_goto rfl ⟨huuid, ⟨row, Table.find?_of_mem hmem, howner⟩, hs⟩
            (by rw [hp]; rfl)
            rfl
  | raised e executed cleanup =>
      cases h
      exact effect_raise rfl true _
  | cancelled executed cleanup =>
      cases h
      exact effect_raise rfl false _
  | payload r txId createdAt => cases h

theorem toFlush_effect {row : UploadSession} {stage : PipelineAwait}
    (hp : s.position = .orchestrating row stage) (hs : Carries userId uploadId s row [])
    (r : TranscriptionResult) (txId : Uuid) (createdAt : ℤ) :
    Effect userId uploadId s (toFlush userId s row r txId createdAt) :=
  effect_goto rfl ⟨rfl, hs.uploadId, hs.session, hs.transaction⟩ (by rw [hp]; rfl) rfl

theorem nextStage_effect {row : UploadSession} {stage : PipelineAwait} {reply : Reply}
    (hp : s.position = .orchestrating row stage) (hs : Held userId uploadId s)
    (h : nextStage userId s row stage reply = some s') : Effect userId uploadId s s' := by
  have hbefore : s.position.done = false := by rw [hp]; rfl
  rw [Held, hp] at hs
  -- the awaits that return something else do not occur
  cases stage with
  | lock =>
      cases reply with
      | ok now cleanup =>
          cases h
          exact effect_goto rfl ⟨hs.uploadId, hs.session, hs.transaction⟩ hbefore rfl
      | _ => cases h
  | normalize =>
      cases reply with
      | ok now cleanup =>
          cases h
          exact effect_goto rfl ⟨hs.uploadId, hs.session, hs.transaction⟩ hbefore rfl
      | payload r txId createdAt =>
          cases h
          exact toFlush_effect hp hs r txId createdAt
      | _ => cases h
  | transcribe =>
      cases reply with
      | ok now cleanup =>
          cases h
          exact effect_goto rfl ⟨hs.uploadId, hs.session, hs.transaction⟩ hbefore rfl
      | payload r txId createdAt =>
          cases h
          exact toFlush_effect hp hs r txId createdAt
      | _ => cases h
  | diarize =>
      cases reply with
      | payload r txId createdAt =>
          cases h
          exact toFlush_effect hp hs r txId createdAt
      | _ => cases h
  | flush r tx =>
      cases reply with
      | ok now cleanup =>
          obtain ⟨s₁, hexec, rfl⟩ := Option.map_eq_some_iff.mp h
          obtain ⟨howner, hs⟩ := hs
          exact effect_goto (committed_execute hexec) ⟨howner, hs.execute hexec _⟩ hbefore rfl
      | _ => cases h
  | returning r tx =>
      cases reply with
      | ok now cleanup =>
          cases h
          obtain ⟨howner, hs⟩ := hs
          exact effect_goto rfl ⟨howner, hs.uploadId, hs.session, hs.transaction⟩ hbefore rfl
      | _ => cases h

theorem resumeStage_effect {row : UploadSession} {stage : PipelineAwait} {reply : Reply}
    (hp : s.position = .orchestrating row stage) (hs : Held userId uploadId s)
    (h : resumeStage sv userId s row stage reply = some s') : Effect userId uploadId s s' := by
  cases reply with
  | raised e executed cleanup =>
      cases h
      exact effect_leaveTry (committed_abandonStage executed stage) true _ cleanup
  | cancelled executed cleanup =>
      cases h
      exact effect_leaveTry (committed_abandonStage executed stage) false _ cleanup
  | _ => exact nextStage_effect hp hs h

theorem resumeConsume_effect {row : UploadSession} {r : TranscriptionResult}
    {tx : Transcription} {at_ : ℤ} {reply : Reply} (hp : s.position = .consuming row r tx at_)
    (hs : Held userId uploadId s) (h : resumeConsume s row r tx at_ reply = some s') :
    Effect userId uploadId s s' := by
  rw [Held, hp] at hs
  obtain ⟨howner, hs⟩ := hs
  cases reply with
  | ok now cleanup =>
      obtain ⟨s₁, hexec, rfl⟩ := Option.map_eq_some_iff.mp h
      have hcommitted : s₁.committed = s.committed := committed_execute hexec
      cases cleanup with
      | true =>
          exact effect_goto hcommitted ⟨row, tx, at_, howner, hs.execute hexec _⟩
            (by rw [hp]; rfl) rfl
      | false => exact effect_raise hcommitted true _
  | raised e executed cleanup =>
      cases h
      exact effect_raise (committed_executeIf executed _) true _
  | cancelled executed cleanup =>
      cases h
      exact effect_leaveTry (committed_executeIf executed _) false _ cleanup
  | payload r txId createdAt => cases h

/-- The COMMIT publishes both writes. -/
theorem publish_bothEffects {answer : StartAnswer} (hp : s.position = .committing answer)
    (hs : Held userId uploadId s) (h : s.publish = some s') :
    BothEffects userId uploadId s.committed s'.committed := by
  rw [Held, hp] at hs
  obtain ⟨row, tx, at_, howner, hs⟩ := hs
  obtain ⟨hconnected, db, hdb, rfl⟩ := publish_eq_some h
  obtain ⟨r, hr, hru⟩ := hs.session
  rw [hs.transaction hconnected] at hdb
  exact ⟨row.id, tx, at_, hs.uploadId, published_of_applyAll hdb hr hru howner⟩

theorem resumeCommit_effect {answer : StartAnswer} {reply : Reply}
    (hp : s.position = .committing answer) (hs : Held userId uploadId s)
    (h : resumeCommit s answer reply = some s') : Effect userId uploadId s s' := by
  have hbefore : s.position.done = false := by rw [hp]; rfl
  -- the await raises, and the server may have committed
  have hraised (executed caught : Bool) : Effect userId uploadId s
      ((if executed then s.publish.getD s else s).raise caught .raised) := by
    have hdone (s₀ : StartCall) : (s₀.raise caught .raised).position.done = true := by
      cases caught with
      | _ => rfl
    cases executed with
    | false => exact effect_raise rfl caught _
    | true =>
        cases hpublish : s.publish with
        | none => exact effect_raise rfl caught _
        | some s₁ =>
            have hboth := publish_bothEffects hp hs hpublish
            exact .published hboth hbefore (hdone s₁)
  cases reply with
  | ok now cleanup =>
      obtain ⟨s₁, hpublish, rfl⟩ := Option.map_eq_some_iff.mp h
      have hboth := publish_bothEffects hp hs hpublish
      exact .published hboth hbefore rfl
  | raised e executed cleanup =>
      cases h
      exact hraised executed true
  | cancelled executed cleanup =>
      cases h
      exact hraised executed false
  | payload r txId createdAt => cases h

theorem resumeRollback_effect {e : Failure} {reply : Reply}
    (h : resumeRollback s e reply = some s') : Effect userId uploadId s s' := by
  cases reply with
  | payload r txId createdAt => cases h
  | _ =>
      cases h
      exact .quiet rfl trivial (fun _ => rfl) (fun hs => by cases hs)

theorem resumeClose_effect {result : Except Failure StartAnswer} {reply : Reply}
    (hp : s.position = .closing result) (h : resumeClose s result reply = some s') :
    Effect userId uploadId s s' := by
  cases reply with
  | ok now cleanup =>
      cases h
      refine .quiet rfl trivial (fun _ => rfl) fun hs => ?_
      rw [hp]
      cases result with
      | ok answer => rfl
      | error e => cases hs
  | payload r txId createdAt => cases h
  | _ =>
      cases h
      exact .quiet rfl trivial (fun _ => rfl) (fun hs => by cases hs)

theorem resumeStart_effect {reply : Reply} (hs : Held userId uploadId s)
    (h : resumeStart sv userId uploadId s reply = some s') : Effect userId uploadId s s' := by
  unfold resumeStart at h
  cases hp : s.position with
  | selecting => exact resumeSelect_effect hp hs (by simpa only [hp] using h)
  | orchestrating row stage => exact resumeStage_effect hp hs (by simpa only [hp] using h)
  | consuming row r tx at_ => exact resumeConsume_effect hp hs (by simpa only [hp] using h)
  | committing answer => exact resumeCommit_effect hp hs (by simpa only [hp] using h)
  | rollingBack e => exact resumeRollback_effect (by simpa only [hp] using h)
  | closing result => exact resumeClose_effect hp (by simpa only [hp] using h)
  | ended result => simp only [hp, reduceCtorEq] at h

/-- What the environment does keeps the transaction in order. -/
theorem Carries.others {row : UploadSession} {sts : List Statement}
    (h : Carries userId uploadId s row sts) (c : Interference) :
    Carries userId uploadId { s with committed := c.apply s.committed } row sts := by
  obtain ⟨r, hr, howner⟩ := h.session
  obtain ⟨r', hr', hleads⟩ := c.leadsTo _ _ _ hr
  exact ⟨h.uploadId, ⟨r', hr', hleads.userId.trans howner⟩, h.transaction⟩

theorem Carries.dropped {row : UploadSession} {sts : List Statement}
    (h : Carries userId uploadId s row sts) :
    Carries userId uploadId { s with transaction := [], connected := false } row sts :=
  ⟨h.uploadId, h.session, fun hconnected => by cases hconnected⟩

/-- A step of the environment that keeps what a transaction carries. -/
theorem held_of_carries (hp : s'.position = s.position)
    (hempty : (s.connected = true → s.transaction = []) → s'.connected = true →
      s'.transaction = [])
    (hcarries : ∀ row sts, Carries userId uploadId s row sts → Carries userId uploadId s' row sts)
    (hs : Held userId uploadId s) : Held userId uploadId s' := by
  unfold Held at hs ⊢
  rw [hp]
  cases hpos : s.position with
  | selecting =>
      simp only [hpos] at hs
      exact hempty hs
  | orchestrating row stage =>
      simp only [hpos] at hs
      cases stage with
      | flush r tx => exact ⟨hs.1, hcarries _ _ hs.2⟩
      | returning r tx => exact ⟨hs.1, hcarries _ _ hs.2⟩
      | _ => exact hcarries _ _ hs
  | consuming row r tx at_ =>
      simp only [hpos] at hs
      exact ⟨hs.1, hcarries _ _ hs.2⟩
  | committing answer =>
      simp only [hpos] at hs
      obtain ⟨row, tx, at_, howner, hs⟩ := hs
      exact ⟨row, tx, at_, howner, hcarries _ _ hs⟩
  | _ => trivial

theorem held_others (hs : Held userId uploadId s) (c : Interference) :
    Held userId uploadId { s with committed := c.apply s.committed } :=
  held_of_carries (s := s) rfl (fun h => h) (fun _ _ h => h.others c) hs

theorem held_dropped (hs : Held userId uploadId s) :
    Held userId uploadId { s with transaction := [], connected := false } :=
  held_of_carries (s := s) rfl (fun _ _ => rfl) (fun _ _ h => h.dropped) hs

/-! ### Runs -/

theorem held_startCall (status : Option RuntimeStatus) (db : Database) :
    Held userId uploadId (startCall status db) := by
  unfold Held startCall
  cases checkModels status with
  | error e => trivial
  | ok _ => exact fun _ => rfl

theorem success_startCall (status : Option RuntimeStatus) (db : Database) :
    (startCall status db).position.success = false := by
  unfold startCall
  cases checkModels status with
  | error e => rfl
  | ok _ => rfl

/-- The steps of a call up to an answer: none of them changes the committed
database and the call does not succeed, or exactly one does, by both effects. -/
def Atomic (sv : Service) (userId : Uuid) (uploadId : String) (s : StartCall)
    (es : List StartEvent) : Prop :=
  (Quiet (ownSteps sv userId uploadId s es) ∧
      ∀ t, (startTranscription sv userId uploadId).run s es = some t →
        t.position.success = true → s.position.success = true) ∨
    ∃ before after db db', ownSteps sv userId uploadId s es = before ++ (db, db') :: after ∧
      Quiet before ∧ Quiet after ∧ BothEffects userId uploadId db db'

theorem held_of_done (hdone : s.position.done = true) : Held userId uploadId s := by
  unfold Held
  cases hp : s.position with
  | rollingBack e => trivial
  | closing result => trivial
  | ended result => trivial
  | _ =>
      rw [hp] at hdone
      cases hdone

/-- Once it is done a call changes nothing. -/
theorem quiet_of_done {es : List StartEvent} (hdone : s.position.done = true) :
    Quiet (ownSteps sv userId uploadId s es) := by
  induction es generalizing s with
  | nil => exact fun d hd => absurd hd List.not_mem_nil
  | cons e es ih =>
      unfold ownSteps
      split
      · exact fun d hd => absurd hd List.not_mem_nil
      · rename_i s' hstep
        cases e with
        | others c =>
            cases hstep
            exact ih hdone
        | dropped =>
            cases hstep
            exact ih hdone
        | resume reply =>
            cases resumeStart_effect (held_of_done hdone) hstep with
            | quiet hcommitted hheld hkeep hsuccess =>
                intro d hd
                rcases List.mem_cons.mp hd with rfl | hd
                · exact hcommitted
                · exact ih (hkeep hdone) d hd
            | published hboth hbefore hafter =>
                rw [hdone] at hbefore
                cases hbefore

/-- A step that leaves the committed database alone, before the others. -/
theorem Atomic.cons_quiet {e : StartEvent} {es : List StartEvent}
    (hstep : startStep sv userId uploadId s e = some s')
    (hown : ∀ reply, e = .resume reply → s'.committed = s.committed)
    (hsuccess : s'.position.success = true → s.position.success = true)
    (h : Atomic sv userId uploadId s' es) : Atomic sv userId uploadId s (e :: es) := by
  have hsteps : ∃ own : List (Database × Database), Quiet own ∧
      ownSteps sv userId uploadId s (e :: es) = own ++ ownSteps sv userId uploadId s' es := by
    cases e with
    | resume reply =>
        refine ⟨[(s.committed, s'.committed)], fun d hd => ?_, by simp only [ownSteps, hstep]; rfl⟩
        obtain rfl := List.mem_singleton.mp hd
        exact hown reply rfl
    | _ =>
        exact ⟨[], fun d hd => absurd hd List.not_mem_nil, by simp only [ownSteps, hstep]; rfl⟩
  obtain ⟨own, hquiet, heq⟩ := hsteps
  have happend {ds : List (Database × Database)} (hds : Quiet ds) : Quiet (own ++ ds) :=
    fun d hd => (List.mem_append.mp hd).elim (hquiet d) (hds d)
  rcases h with ⟨hall, hrun⟩ | ⟨before, after, db, db', hown', hbefore, hafter, hboth⟩
  · refine .inl ⟨heq ▸ happend hall, fun t ht hsucc => ?_⟩
    obtain ⟨s₁, hs₁, ht⟩ := (System.run_cons_eq_some _).mp ht
    rw [show (startTranscription sv userId uploadId).step s e = some s' from hstep] at hs₁
    obtain rfl := Option.some.inj hs₁
    exact hsuccess (hrun t ht hsucc)
  · refine .inr ⟨own ++ before, after, db, db', ?_, happend hbefore, hafter, hboth⟩
    rw [heq, hown', List.append_assoc]

theorem atomic_of_held {es : List StartEvent} (hs : Held userId uploadId s) :
    Atomic sv userId uploadId s es := by
  induction es generalizing s with
  | nil =>
      refine .inl ⟨fun d hd => absurd hd List.not_mem_nil, fun t ht hsucc => ?_⟩
      exact Option.some.inj ht ▸ hsucc
  | cons e es ih =>
      cases hstep : startStep sv userId uploadId s e with
      | none =>
          refine .inl ⟨?_, fun t ht => ?_⟩
          · simp only [ownSteps, hstep]
            exact fun d hd => absurd hd List.not_mem_nil
          · obtain ⟨s', hs', -⟩ := (System.run_cons_eq_some _).mp ht
            rw [show (startTranscription sv userId uploadId).step s e = none from hstep] at hs'
            cases hs'
      | some s' =>
          cases e with
          | others c =>
              obtain rfl := Option.some.inj hstep
              exact (ih (held_others hs c)).cons_quiet hstep (fun _ he => by cases he) (fun h => h)
          | dropped =>
              obtain rfl := Option.some.inj hstep
              exact (ih (held_dropped hs)).cons_quiet hstep (fun _ he => by cases he) (fun h => h)
          | resume reply =>
              cases resumeStart_effect hs hstep with
              | quiet hcommitted hheld hdone hsuccess =>
                  exact (ih hheld).cons_quiet hstep (fun _ _ => hcommitted) hsuccess
              | published hboth hbefore hdone =>
                  refine .inr ⟨[], ownSteps sv userId uploadId s' es, s.committed, s'.committed,
                    ?_, fun d hd => absurd hd List.not_mem_nil, quiet_of_done hdone, hboth⟩
                  simp only [ownSteps, hstep]
                  rfl

end Steps

/-- Every outcome of `start_transcription` publishes both of its effects or
neither, and an answer is only returned once both are published. -/
theorem startTranscription_atomic (sv : Service) (userId : Uuid) (uploadId : String)
    (status : Option RuntimeStatus) (db : Database) (es : List StartEvent) :
    (Quiet (ownSteps sv userId uploadId (startCall status db) es) ∧
        ∀ t answer, (startTranscription sv userId uploadId).run (startCall status db) es = some t →
          t.position ≠ .ended (.ok answer)) ∨
      ∃ before after d d', ownSteps sv userId uploadId (startCall status db) es =
          before ++ (d, d') :: after ∧
        Quiet before ∧ Quiet after ∧ BothEffects userId uploadId d d' := by
  have hatomic : Atomic sv userId uploadId (startCall status db) es :=
    atomic_of_held (held_startCall status db)
  rcases hatomic with ⟨hquiet, hrun⟩ | h
  · refine .inl ⟨hquiet, fun t answer ht hended => ?_⟩
    have hsucc := hrun t ht (by rw [hended]; rfl)
    rw [success_startCall] at hsucc
    cases hsucc
  · exact .inr h

/-- One uploaded audio session of user 1. -/
def uploadedDb : Database :=
  { (default : Database) with
    uploadSessions :=
      ⟨[⟨7, 1, 3, "nonce", "hash", .audio, none, 4, none, .uploaded, 0, 0, some 0, none⟩],
        by decide⟩ }

/-- A cache hit, up to the answer. -/
def answeredCall : List StartEvent :=
  let ok : StartEvent := .resume (.ok 0 true)
  [ok, ok, .resume (.payload pipelineResult 9 0), ok, ok, ok, ok, ok]

example : ((startTranscription plainService 1 "00000000-0000-0000-0000-000000000007").run
    (startCall (some ⟨"ready", none, "ready", none⟩) uploadedDb) answeredCall).map
      (fun t => (t.position.success, t.committed.transcriptions.rows.map (·.userId),
        t.committed.status? 7)) = some (true, [1], some .consumed) := by
  decide +kernel

end TranscriptionApi.Uploads
