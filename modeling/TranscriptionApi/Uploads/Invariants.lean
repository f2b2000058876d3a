import TranscriptionApi.Uploads.Steps

/-!
What holds in every state the service reaches, however its steps interleave.

Handlers act on the row their SELECT returned, which may be long out of date.
What survives is what no statement ever takes back: a row keeps its id, kind and
expiry, it never becomes `requested` again, and `uploaded_at` is never cleared.
`LeadsTo` is that preorder. A state is `Sound` when every snapshot a handler
holds leads to the row the table holds now, and the handler has checked of its
snapshot what its position in the code says.
-/

namespace TranscriptionApi.Uploads

open Api Auth Db Lib Mcp Pipeline Python

/-- Later versions of a row. -/
structure LeadsTo (a b : UploadSession) : Prop where
  id : b.id = a.id
  userId : b.userId = a.userId
  transcriptionId : b.transcriptionId = a.transcriptionId
  kind : b.kind = a.kind
  expiresAt : b.expiresAt = a.expiresAt
  status : a.status ≠ .requested → b.status ≠ .requested
  uploadedAt : a.uploadedAt.isSome → b.uploadedAt.isSome

theorem LeadsTo.refl (a : UploadSession) : LeadsTo a a :=
  ⟨rfl, rfl, rfl, rfl, rfl, fun h => h, fun h => h⟩

theorem LeadsTo.trans {a b c : UploadSession} (hab : LeadsTo a b) (hbc : LeadsTo b c) :
    LeadsTo a c where
  id := hbc.id.trans hab.id
  userId := hbc.userId.trans hab.userId
  transcriptionId := hbc.transcriptionId.trans hab.transcriptionId
  kind := hbc.kind.trans hab.kind
  expiresAt := hbc.expiresAt.trans hab.expiresAt
  status := fun h => hbc.status (hab.status h)
  uploadedAt := fun h => hbc.uploadedAt (hab.uploadedAt h)

/-- The columns a status UPDATE keeps consistent. -/
structure WellFormed (r : UploadSession) : Prop where
  requested : r.status = .requested → r.uploadedAt = none
  uploaded : r.status = .uploaded → r.uploadedAt.isSome

/-- The row of the session with this id. -/
def World.session? (w : World) (i : Uuid) : Option UploadSession := w.db.uploadSessions.find? i

theorem session?_id {w : World} {i : Uuid} {r : UploadSession} (h : w.session? i = some r) :
    r.id = i := Table.key_of_find? h

namespace Write

def rows : Write → List UploadSession
  | .uploaded row _ _ => [row]
  | .imageUploaded row _ _ => [row]
  | .consumed row _ _ _ => [row]
  | .expired rows => rows

theorem ids_eq (wr : Write) : wr.ids = wr.rows.map UploadSession.id := by
  cases wr with
  | _ => rfl

/-- What the UPDATE makes of one row. -/
def set : Write → UploadSession → UploadSession
  | .uploaded _ at_ _, r => { r with status := .uploaded, uploadedAt := some at_ }
  | .imageUploaded _ at_ _, r => { r with status := .uploaded, uploadedAt := some at_ }
  | .consumed _ at_ _ _, r => { r with status := .consumed, consumedAt := some at_ }
  | .expired _, r => { r with status := .expired }

@[simp] theorem set_status (wr : Write) (r : UploadSession) : (wr.set r).status = wr.target := by
  cases wr with
  | _ => rfl

theorem target_ne_requested (wr : Write) : wr.target ≠ .requested := by
  cases wr with
  | _ => simp [target]

theorem leadsTo_set (wr : Write) (r : UploadSession) : LeadsTo r (wr.set r) := by
  cases wr with
  | _ => exact ⟨rfl, rfl, rfl, rfl, rfl, fun _ => by simp [set], fun h => by simp_all [set]⟩

theorem wellFormed_set (wr : Write) (r : UploadSession) : WellFormed (wr.set r) := by
  cases wr with
  | _ => exact ⟨fun h => by simp [set] at h, fun h => by simp [set] at h ⊢⟩

theorem find?_sessions (wr : Write) (t : Table UploadSession UploadSession.id) (i : Uuid) :
    (wr.sessions t).find? i = (t.find? i).map fun r => if i ∈ wr.ids then wr.set r else r := by
  have hset : ∀ r, (wr.set r).id = r.id := fun r => (wr.leadsTo_set r).id
  have hfind (p : UploadSession → Bool) (hp : ∀ r, r.id = i → (p r = true ↔ i ∈ wr.ids)) :
      (t.update p wr.set hset).find? i =
        (t.find? i).map fun r => if i ∈ wr.ids then wr.set r else r := by
    rw [Table.find?_update]
    refine Option.map_congr fun r hr => ?_
    simp only [hp r (Table.key_of_find? hr)]
  cases wr with
  | uploaded row at_ bytes =>
      exact hfind (fun r => r.id = row.id) fun r hr => by simp [hr, ids]
  | imageUploaded row at_ img =>
      exact hfind (fun r => r.id = row.id) fun r hr => by simp [hr, ids]
  | consumed row at_ tx r =>
      exact hfind (fun r => r.id = row.id) fun r hr => by simp [hr, ids]
  | expired rows =>
      exact hfind (fun r => rows.any fun c => c.id = r.id) fun r hr => by simp [hr, ids]

/-- A COMMIT writes the sessions as the UPDATE says, whatever else it writes. -/
theorem apply_sessions {wr : Write} {db db' : Database} (h : wr.apply db = some db') :
    db'.uploadSessions = wr.sessions db.uploadSessions := by
  cases wr with
  | imageUploaded row at_ img =>
      obtain ⟨t, -, rfl⟩ := Option.map_eq_some_iff.mp h
      rfl
  | consumed row at_ tx r =>
      obtain ⟨t, -, rfl⟩ := Option.map_eq_some_iff.mp h
      rfl
  | _ =>
      obtain rfl := Option.some.inj h
      rfl

/-- What a lookup of a session sees after the COMMIT. -/
theorem find?_apply {wr : Write} {db db' : Database} (h : wr.apply db = some db') (i : Uuid) :
    db'.uploadSessions.find? i =
      (db.uploadSessions.find? i).map fun r => if i ∈ wr.ids then wr.set r else r := by
  rw [apply_sessions h]
  exact wr.find?_sessions db.uploadSessions i

end Write

/-! ### The table of sessions over a step -/

/-- How a step changes the table of sessions. -/
inductive SessionsChange (w w' : World) (e : Event) : Prop
  | same (h : w'.db.uploadSessions = w.db.uploadSessions)
  | requested (row : UploadSession) (hfree : w.session? row.id = none)
      (hnonce : ∀ i r, w.session? i = some r → r.nonce ≠ row.nonce)
      (hstatus : row.status = .requested) (huploaded : row.uploadedAt = none)
      (hconsumed : row.consumedAt = none)
      (hbound : ∀ tid, row.transcriptionId = some tid →
        ∃ tx, w.db.transcriptions.find? tid = some tx ∧ tx.userId = row.userId)
      (h : ∀ i, w'.session? i = if row.id = i then some row else w.session? i)
  | committed (p : ℕ) (wr : Write) (hc : Commits w e p wr)
      (h : ∀ i, w'.session? i =
        (w.session? i).map fun r => if i ∈ wr.ids then wr.set r else r)

theorem find?_append {t t' : Table UploadSession UploadSession.id} {row : UploadSession}
    (hfree : t.find? row.id = none) (hrows : t'.rows = t.rows ++ [row]) (i : Uuid) :
    t'.find? i = if row.id = i then some row else t.find? i := by
  split
  · rename_i hi
    exact Table.find?_eq_some_iff.mpr ⟨by simp [hrows], hi⟩
  · rename_i hi
    cases hold : t.find? i with
    | none =>
        rw [Table.find?_eq_none_iff] at hold ⊢
        intro r hr
        rw [hrows, List.mem_append, List.mem_singleton] at hr
        rcases hr with hr | rfl
        · exact hold r hr
        · exact hi
    | some r =>
        obtain ⟨hr, hkey⟩ := Table.find?_eq_some_iff.mp hold
        exact Table.find?_eq_some_iff.mpr ⟨by simp [hrows, hr], hkey⟩

section Moves

variable {sv : Service} {w w' : World} {e : Event}

@[simp] theorem leaveTry_db (rm : Uuid → RmOutcome) (wr : Write) :
    (w.leaveTry rm wr).db = w.db := by
  cases wr with
  | _ => rfl

@[simp] theorem leaveTry_handlers (rm : Uuid → RmOutcome) (wr : Write) :
    (w.leaveTry rm wr).handlers = w.handlers := by
  cases wr with
  | _ => rfl

@[simp] theorem leaveTry_now (rm : Uuid → RmOutcome) (wr : Write) :
    (w.leaveTry rm wr).now = w.now := by
  cases wr with
  | _ => rfl

@[simp] theorem leaveTry_log (rm : Uuid → RmOutcome) (wr : Write) :
    (w.leaveTry rm wr).log = w.log := by
  cases wr with
  | _ => rfl

@[simp] theorem leaveTry_accepted (rm : Uuid → RmOutcome) (wr : Write) :
    (w.leaveTry rm wr).accepted = w.accepted := by
  cases wr with
  | _ => rfl

/-- After a handler moves, it is where it went and the others are where they
were. -/
theorem handlers_goto {p q : ℕ} {h h' : Handler}
    (hq : (w.goto p h).handlers q = some h') :
    q = p ∧ h' = h ∨ q ≠ p ∧ w.handlers q = some h' := by
  change Function.update w.handlers p (some h) q = some h' at hq
  by_cases hqp : q = p
  · subst hqp
    rw [Function.update_self, Option.some.injEq] at hq
    exact .inl ⟨rfl, hq.symm⟩
  · rw [Function.update_of_ne hqp] at hq
    exact .inr ⟨hqp, hq⟩

theorem handlers_finish {p q : ℕ} {es : List Entry} {h' : Handler}
    (hq : (w.finish p es).handlers q = some h') : q ≠ p ∧ w.handlers q = some h' := by
  change Function.update w.handlers p none q = some h' at hq
  by_cases hqp : q = p
  · subst hqp
    rw [Function.update_self] at hq
    cases hq
  · rw [Function.update_of_ne hqp] at hq
    exact ⟨hqp, hq⟩

@[simp] theorem accept_handlers (wr : Write) : (w.accept wr).handlers = w.handlers := by
  cases wr with
  | _ => rfl

@[simp] theorem accept_now (wr : Write) : (w.accept wr).now = w.now := by
  cases wr with
  | _ => rfl

@[simp] theorem accept_log (wr : Write) : (w.accept wr).log = w.log := by
  cases wr with
  | _ => rfl

@[simp] theorem accept_dirs (wr : Write) : (w.accept wr).dirs = w.dirs := by
  cases wr with
  | _ => rfl

theorem Moves.sessions (h : Moves sv w e w') : SessionsChange w w' e := by
  cases h with
  | requested e row t hfree hnonce hrows hstatus huploaded hconsumed hbound =>
      refine .requested row hfree (fun i r hr => hnonce r (Table.mem_of_find? hr)) hstatus
        huploaded hconsumed hbound (find?_append hfree hrows)
  | committed p a rm wr db ha hp hdb =>
      exact .committed p wr ⟨⟨a, rm, rfl, ha⟩, hp⟩ (Write.find?_apply hdb)
  | updated p rm wr locks hp =>
      refine .same ?_
      show (w.leaveTry rm wr).db.uploadSessions = _
      rw [leaveTry_db]
  | _ => exact .same rfl

/-- How a step writes the log: a COMMIT logs what it did and its answer, and any
other step nothing but refusals. -/
inductive LogChange (w w' : World) (e : Event) : Prop
  | refused (es : List Entry) (h : w'.log = w.log ++ es) (hes : ∀ x ∈ es, x.Refusal)
  | committed (p : ℕ) (a : Await) (wr : Write) (hc : Commits w e p wr)
      (hdb : wr.apply w.db = some w'.db) (h : w'.log = w.log ++ wr.entries a)
  | deleted (p : ℕ) (a : Await) (del : Deletion) (found : List Uuid)
      (hc : CommitsDelete w e p del found) (hdb : w'.db = del.apply found w.db)
      (h : w'.log = w.log ++ del.entries a)

theorem Moves.log (h : Moves sv w e w') : LogChange w w' e := by
  have hnone (h : w'.log = w.log) : LogChange w w' e :=
    .refused [] (by rw [h, List.append_nil]) fun x hx => absurd hx List.not_mem_nil
  have hone {entry : Entry} (h : w'.log = w.log ++ [entry]) (hentry : entry.Refusal) :
      LogChange w w' e := .refused [entry] h fun x hx => List.mem_singleton.mp hx ▸ hentry
  cases h with
  | refused e p entry he hp hentry => exact hone rfl hentry
  | openFailed p rm plaintext filename row since hp hcheck => exact hone rfl trivial
  | unlinked p a rm row fh received answer hp hanswer => exact hone rfl hanswer
  | cleaned p a rm row h entry hp hh ha hentry => exact hone rfl hentry
  | purgeStopped p rm rows entry hp hentry => exact hone rfl hentry
  | ended p a rm h entry hp hentry => exact hone rfl hentry
  | updated p rm wr locks hp => exact hnone (leaveTry_log rm wr)
  | committed p a rm wr db ha hp hdb =>
      refine .committed p a wr ⟨⟨a, rm, rfl, ha⟩, hp⟩ hdb ?_
      show (w.accept wr).log ++ wr.entries a = _
      rw [accept_log]
  | deleted p a rm del found ha hp =>
      exact .deleted p a del found ⟨⟨a, rm, rfl, ha⟩, hp⟩ rfl rfl
  | _ => exact hnone rfl

/-- The clock stands still but for `tick`. -/
theorem Moves.now (h : Moves sv w e w') :
    w'.now = w.now ∨ ∃ d : ℕ, e = .tick d ∧ w'.now = w.now + d := by
  cases h with
  | tick d => exact .inr ⟨d, rfl, rfl⟩
  | updated p rm wr locks hp => exact .inl (leaveTry_now rm wr)
  | committed p a rm wr db ha hp hdb => exact .inl (accept_now wr)
  | _ => exact .inl rfl

theorem Moves.now_le (h : Moves sv w e w') : w.now ≤ w'.now := by
  rcases h.now with hsame | ⟨d, -, hd⟩
  · exact Int.le_of_eq hsame.symm
  · rw [hd]
    exact Int.le_add_of_nonneg_right (Int.natCast_nonneg d)

/-- A row the table holds stays in it, in a later version. -/
theorem SessionsChange.leadsTo (h : SessionsChange w w' e) {i : Uuid} {r : UploadSession}
    (hr : w.session? i = some r) : ∃ r', w'.session? i = some r' ∧ LeadsTo r r' := by
  cases h with
  | same h =>
      refine ⟨r, ?_, .refl r⟩
      rw [World.session?, h]
      exact hr
  | requested row hfree _ _ _ _ _ h =>
      have hne : row.id ≠ i := by
        rintro rfl
        rw [hfree] at hr
        cases hr
      exact ⟨r, by rw [h, if_neg hne, hr], .refl r⟩
  | committed p wr hc h =>
      refine ⟨_, by rw [h, hr, Option.map_some], ?_⟩
      split
      · exact wr.leadsTo_set r
      · exact .refl r

theorem SessionsChange.wellFormed (h : SessionsChange w w' e)
    (hw : ∀ i r, w.session? i = some r → WellFormed r) {i : Uuid} {r : UploadSession}
    (hr : w'.session? i = some r) : WellFormed r := by
  cases h with
  | same h =>
      rw [World.session?, h] at hr
      exact hw i r hr
  | requested row hfree hnonce hstatus huploaded _ _ h =>
      rw [h] at hr
      split at hr
      · cases hr
        exact ⟨fun _ => huploaded, fun hup => absurd (hstatus.symm.trans hup) (by decide)⟩
      · exact hw i r hr
  | committed p wr hc h =>
      rw [h] at hr
      obtain ⟨r₀, hr₀, rfl⟩ := Option.map_eq_some_iff.mp hr
      split
      · exact wr.wellFormed_set r₀
      · exact hw i r₀ hr₀

end Moves

/-! ### Handlers and their snapshots -/

/-- The session is past its expiry and the grace period. -/
def PastGrace (sv : Service) (now : ℤ) (r : UploadSession) : Prop :=
  r.expiresAt + sv.settings.grace < now

/-- What `_load_upload_row` has checked. -/
structure Started (row : UploadSession) : Prop where
  kind : row.kind = .audio
  status : row.status = .uploaded
  uploadedAt : row.uploadedAt.isSome

/-- What a handler that reached a write has checked. -/
def Write.Facts (sv : Service) (now : ℤ) : Write → Prop
  | .uploaded row _ _ => row.kind = .audio
  | .imageUploaded row _ img =>
      row.kind = .image ∧ img.deletedAt = none ∧ row.transcriptionId = some img.transcriptionId ∧
        img.userId = row.userId
  | .consumed row _ _ _ => Started row
  | .expired rows => ∀ r ∈ rows, PastGrace sv now r

namespace Handler

def rows : Handler → List UploadSession
  | .selected _ _ _ row _ => [row]
  | .streaming row _ _ => [row]
  | .reading _ row _ => [row]
  | .loading row _ => [row]
  | .orchestrating row _ => [row]
  | .purging _ => []
  | .purgeSelected rows => rows
  | .writing wr => wr.rows
  | .committing wr => wr.rows
  | .deleting _ => []
  | .cascading _ => []
  | .deleted .. => []

/-- What a handler has checked when it is where it is. -/
def Facts (sv : Service) (now : ℤ) : Handler → Prop
  | .selected .. => True
  | .streaming row _ _ => row.kind = .audio
  | .reading _ row _ => row.kind = .image
  | .loading row _ => row.kind = .audio ∧ WellFormed row
  | .orchestrating row _ => Started row
  | .purging cutoff => cutoff + sv.settings.grace ≤ now
  | .purgeSelected rows => ∀ r ∈ rows, PastGrace sv now r
  | .writing wr => wr.Facts sv now
  | .committing wr => wr.Facts sv now
  | .deleting _ => True
  | .cascading _ => True
  | .deleted .. => True

end Handler

/-- The table holds a later version of the row. -/
def Known (w : World) (row : UploadSession) : Prop :=
  ∃ r, w.session? row.id = some r ∧ LeadsTo row r

structure Sound (sv : Service) (w : World) : Prop where
  rows : ∀ i r, w.session? i = some r → WellFormed r
  known : ∀ p h, w.handlers p = some h → ∀ row ∈ h.rows, Known w row
  facts : ∀ p h, w.handlers p = some h → h.Facts sv w.now

theorem PastGrace.mono {sv : Service} {now now' : ℤ} {r : UploadSession}
    (h : PastGrace sv now r) (hle : now ≤ now') : PastGrace sv now' r := Int.lt_of_lt_of_le h hle

theorem Write.Facts.mono {sv : Service} {now now' : ℤ} {wr : Write} (h : wr.Facts sv now)
    (hle : now ≤ now') : wr.Facts sv now' := by
  cases wr with
  | expired rows => exact fun r hr => (h r hr).mono hle
  | _ => exact h

theorem Handler.Facts.mono {sv : Service} {now now' : ℤ} {h : Handler} (hf : h.Facts sv now)
    (hle : now ≤ now') : h.Facts sv now' := by
  cases h with
  | purging cutoff => exact Int.le_trans hf hle
  | purgeSelected rows => exact fun r hr => (hf r hr).mono hle
  | writing wr => exact Write.Facts.mono hf hle
  | committing wr => exact Write.Facts.mono hf hle
  | _ => exact hf

/-- How handler `q` comes to be in position `h'`, where it was not before the
step. -/
inductive Turns (sv : Service) (w : World) (e : Event) (q : ℕ) : Handler → Prop
  | selected (kind : UploadKind) (plaintext : String) (filename : Option String)
      (row : UploadSession) (hold : w.handlers q = none)
      (hrow : w.session? row.id = some row) (hstatus : row.status = .requested) :
      Turns sv w e q (.selected kind plaintext filename row w.now)
  | loading (row : UploadSession) (hold : w.handlers q = none)
      (hrow : w.session? row.id = some row) (hkind : row.kind = .audio) :
      Turns sv w e q (.loading row w.now)
  | purging (hold : w.handlers q = none) :
      Turns sv w e q (.purging (w.now - sv.settings.grace))
  | deleting (u tid : Uuid) (hold : w.handlers q = none) :
      Turns sv w e q (.deleting ⟨u, tid, w.now⟩)
  | streaming (rm : Uuid → RmOutcome) (plaintext : String) (filename : Option String)
      (row : UploadSession) (since : ℤ) (he : e = .resume q .ok rm)
      (hold : w.handlers q = some (.selected .audio plaintext filename row since))
      (hkind : row.kind = .audio)
      (hcheck : checkSession sv.settings sv.sha256Hex .audio w.now plaintext row = .ok ()) :
      Turns sv w e q (.streaming row (openWb (w.dirs row.id) w.nextInode).2 [])
  | reading (rm : Uuid → RmOutcome) (plaintext : String) (filename : Option String)
      (row : UploadSession) (since : ℤ) (he : e = .resume q .ok rm)
      (hold : w.handlers q = some (.selected .image plaintext filename row since))
      (hkind : row.kind = .image) : Turns sv w e q (.reading filename row since)
  | chunk (rm : Uuid → RmOutcome) (row : UploadSession) (fh : Handle) (received bytes : Bytes)
      (he : e = .resume q (.chunk bytes) rm)
      (hold : w.handlers q = some (.streaming row fh received)) :
      Turns sv w e q
        (.streaming row { fh with pos := fh.pos + bytes.length } (received ++ bytes))
  | received (rm : Uuid → RmOutcome) (row : UploadSession) (fh : Handle) (received : Bytes)
      (he : e = .resume q (.chunk []) rm)
      (hold : w.handlers q = some (.streaming row fh received)) :
      Turns sv w e q (.writing (.uploaded row w.now received))
  | image (filename : Option String) (row : UploadSession) (since : ℤ) (img : Image)
      (hold : w.handlers q = some (.reading filename row since)) (hdeleted : img.deletedAt = none)
      (hbound : row.transcriptionId = some img.transcriptionId) (huser : img.userId = row.userId) :
      Turns sv w e q (.writing (.imageUploaded row w.now img))
  | passed (rm : Uuid → RmOutcome) (row : UploadSession) (since : ℤ) (he : e = .resume q .ok rm)
      (hold : w.handlers q = some (.loading row since)) (hstatus : row.status = .uploaded)
      (hnow : w.now ≤ row.expiresAt + sv.settings.grace) :
      Turns sv w e q (.orchestrating row since)
  | orchestrated (row : UploadSession) (since : ℤ) (r : TranscriptionResult) (txId : Uuid)
      (hold : w.handlers q = some (.orchestrating row since)) :
      Turns sv w e q (.writing (.consumed row w.now (transcriptionRow row txId since r) r))
  | candidates (rm : Uuid → RmOutcome) (cutoff : ℤ) (he : e = .resume q .ok rm)
      (hold : w.handlers q = some (.purging cutoff)) :
      Turns sv w e q (.purgeSelected (expiredCandidates w.db cutoff))
  | purged (rows : List UploadSession) (hold : w.handlers q = some (.purgeSelected rows)) :
      Turns sv w e q (.writing (.expired rows))
  | updated (rm : Uuid → RmOutcome) (wr : Write) (he : e = .resume q .ok rm)
      (hold : w.handlers q = some (.writing wr)) : Turns sv w e q (.committing wr)
  | cascading (del : Deletion) (hold : w.handlers q = some (.deleting del))
      (hhits : del.hits w.db ≠ []) : Turns sv w e q (.cascading del)
  | cascaded (rm : Uuid → RmOutcome) (del : Deletion) (he : e = .resume q .ok rm)
      (hold : w.handlers q = some (.cascading del)) :
      Turns sv w e q (.deleted del (del.cascade w.db))

section NewHandler

variable {sv : Service} {w w' : World} {e : Event} {q : ℕ} {h' : Handler}

/-- A handler after the step is where it was, or it has just turned there. -/
theorem Moves.turns (h : Moves sv w e w') (hq : w'.handlers q = some h') :
    w.handlers q = some h' ∨ Turns sv w e q h' := by
  -- only the handler with the event's number can have moved
  have hmoved {p : ℕ} {h₁ : Handler} (w₀ : World) (h₀ : w₀.handlers = w.handlers)
      (hq : (w₀.goto p h₁).handlers q = some h') (hturn : q = p → Turns sv w e p h₁) :
      w.handlers q = some h' ∨ Turns sv w e q h' := by
    rcases handlers_goto hq with ⟨rfl, rfl⟩ | ⟨-, hq⟩
    · exact .inr (hturn rfl)
    · exact .inl (h₀ ▸ hq)
  have hgone {p : ℕ} (es : List Entry) (w₀ : World) (h₀ : w₀.handlers = w.handlers)
      (hq : (w₀.finish p es).handlers q = some h') :
      w.handlers q = some h' ∨ Turns sv w e q h' := .inl (h₀ ▸ (handlers_finish hq).2)
  cases h with
  | tick d => exact .inl hq
  | idle => exact .inl hq
  | requested e row t => exact .inl hq
  | posted e tx t => exact .inl hq
  | refused e p entry he hp hentry => exact hgone _ w rfl hq
  | selected e p kind plaintext filename row he hp hrow hstatus =>
      exact hmoved w rfl hq fun _ => .selected kind plaintext filename row hp hrow hstatus
  | loading e p row he hp hrow hkind =>
      exact hmoved w rfl hq fun _ => .loading row hp hrow hkind
  | purging e p he hp => exact hmoved w rfl hq fun _ => .purging hp
  | deleting e p u tid he hp => exact hmoved w rfl hq fun _ => .deleting u tid hp
  | opened p rm plaintext filename row since hp hnow hkind hcheck =>
      exact hmoved (w.setDir row.id _) rfl hq fun _ =>
        .streaming rm plaintext filename row since rfl hp hkind hcheck
  | openFailed p rm plaintext filename row since hp hcheck => exact hgone _ (w.setDir _ _) rfl hq
  | reading p rm plaintext filename row since hp hkind =>
      exact hmoved w rfl hq fun _ => .reading rm plaintext filename row since rfl hp hkind
  | chunk p rm row fh received bytes hp =>
      exact hmoved (w.setDir _ _) rfl hq fun _ => .chunk rm row fh received bytes rfl hp
  | received p rm row fh received hp =>
      exact hmoved w rfl hq fun _ => .received rm row fh received rfl hp
  | unlinked p a rm row fh received answer hp hanswer => exact hgone _ (w.setDir _ _) rfl hq
  | image p a rm filename row since img blobs hp hdeleted hbound huser =>
      exact hmoved w rfl hq fun _ => .image filename row since img hp hdeleted hbound huser
  | passed p rm row since hp hstatus hnow =>
      exact hmoved w rfl hq fun _ => .passed rm row since rfl hp hstatus hnow
  | orchestrated p rm row since r txId hp =>
      exact hmoved w rfl hq fun _ => .orchestrated row since r txId hp
  | cleaned p a rm row h entry hp hh ha hentry => exact hgone _ (w.setDir _ _) rfl hq
  | candidates p rm cutoff hp => exact hmoved w rfl hq fun _ => .candidates rm cutoff rfl hp
  | purgeStopped p rm rows entry hp hentry =>
      exact hgone _ { w with dirs := (purgeDirs rm rows w.dirs).1 } rfl hq
  | purged p rm rows hp =>
      exact hmoved { w with dirs := (purgeDirs rm rows w.dirs).1 } rfl hq fun _ => .purged rows hp
  | updated p rm wr locks hp =>
      exact hmoved (w.leaveTry rm wr) (leaveTry_handlers rm wr) hq fun _ =>
        .updated rm wr rfl hp
  | committed p a rm wr db ha hp hdb =>
      exact hgone (wr.entries a) (w.accept wr) (accept_handlers wr) hq
  | cascading p rm del deleteLocks hp hhits =>
      exact hmoved w rfl hq fun _ => .cascading del hp hhits
  | cascaded p rm del hp => exact hmoved w rfl hq fun _ => .cascaded rm del rfl hp
  | deleted p a rm del found ha hp => exact hgone (del.entries a) w rfl hq
  | ended p a rm h entry hp hentry => exact hgone _ w rfl hq

/-- A handler that has just turned holds rows it held before, or rows it just
selected, and has checked what its position says. -/
theorem Turns.sound (h : Turns sv w e q h') (hw : Sound sv w) :
    (∀ row ∈ h'.rows, Known w row) ∧ h'.Facts sv w.now := by
  have hknown {row : UploadSession} (hrow : w.session? row.id = some row) : Known w row :=
    ⟨row, hrow, .refl row⟩
  cases h with
  | selected kind plaintext filename row hold hrow hstatus =>
      refine ⟨?_, trivial⟩
      simpa [Handler.rows] using hknown hrow
  | loading row hold hrow hkind =>
      refine ⟨?_, hkind, hw.rows _ _ hrow⟩
      simpa [Handler.rows] using hknown hrow
  | purging hold =>
      refine ⟨by simp [Handler.rows], ?_⟩
      show w.now - sv.settings.grace + sv.settings.grace ≤ w.now
      omega
  | deleting u tid hold => exact ⟨by simp [Handler.rows], trivial⟩
  | streaming rm plaintext filename row since he hold hkind hcheck =>
      have hrows := hw.known q _ hold
      exact ⟨hrows, hkind⟩
  | reading rm plaintext filename row since he hold hkind =>
      have hrows := hw.known q _ hold
      exact ⟨hrows, hkind⟩
  | chunk rm row fh received bytes he hold =>
      have hrows := hw.known q _ hold
      have hfacts := hw.facts q _ hold
      exact ⟨hrows, hfacts⟩
  | received rm row fh received he hold =>
      have hrows := hw.known q _ hold
      have hfacts := hw.facts q _ hold
      exact ⟨hrows, hfacts⟩
  | image filename row since img hold hdeleted hbound huser =>
      have hrows := hw.known q _ hold
      have hfacts := hw.facts q _ hold
      exact ⟨hrows, hfacts, hdeleted, hbound, huser⟩
  | passed rm row since he hold hstatus hnow =>
      have hrows := hw.known q _ hold
      obtain ⟨hkind, hform⟩ := hw.facts q _ hold
      exact ⟨hrows, hkind, hstatus, hform.uploaded hstatus⟩
  | orchestrated row since r txId hold =>
      have hrows := hw.known q _ hold
      have hfacts := hw.facts q _ hold
      exact ⟨hrows, hfacts⟩
  | candidates rm cutoff he hold =>
      have hcutoff : cutoff + sv.settings.grace ≤ w.now := hw.facts q _ hold
      refine ⟨fun row hrow => ?_, fun row hrow => ?_⟩
      · exact hknown (Table.find?_of_mem (mem_expiredCandidates.mp hrow).1)
      · have hexp := (mem_expiredCandidates.mp hrow).2.2
        show row.expiresAt + sv.settings.grace < w.now
        omega
  | purged rows hold =>
      have hrows := hw.known q _ hold
      have hfacts := hw.facts q _ hold
      exact ⟨hrows, hfacts⟩
  | updated rm wr he hold =>
      have hrows := hw.known q _ hold
      have hfacts := hw.facts q _ hold
      exact ⟨hrows, hfacts⟩
  | cascading del hold hhits => exact ⟨by simp [Handler.rows], trivial⟩
  | cascaded rm del he hold => exact ⟨by simp [Handler.rows], trivial⟩

end NewHandler

/-- A step moves no handler but its actor. -/
theorem Moves.handlers_of_ne {sv : Service} {w w' : World} {e : Event} (h : Moves sv w e w')
    {q : ℕ} (hq : e.actor ≠ some q) : w'.handlers q = w.handlers q := by
  have hne {p : ℕ} (he : e.actor = some p) (o : Option Handler) :
      Function.update w.handlers p o q = w.handlers q := by
    refine Function.update_of_ne ?_ _ _
    rintro rfl
    exact hq he
  cases h with
  | tick d => rfl
  | idle => rfl
  | requested e row t => rfl
  | posted e tx t => rfl
  | refused e p entry he hp hentry => exact hne he _
  | selected e p kind plaintext filename row he hp hrow hstatus => exact hne he _
  | loading e p row he hp hrow hkind => exact hne he _
  | purging e p he hp => exact hne he _
  | deleting e p u tid he hp => exact hne he _
  | updated p rm wr locks hp =>
      show Function.update (w.leaveTry rm wr).handlers p _ q = _
      rw [leaveTry_handlers]
      exact hne rfl _
  | committed p a rm wr db ha hp hdb =>
      show Function.update (w.accept wr).handlers p _ q = _
      rw [accept_handlers]
      exact hne rfl _
  | _ => exact hne rfl _

/-- A handler in flight moves by being resumed. -/
theorem resume_of_actor {sv : Service} {w w' : World} {e : Event} {p : ℕ} {h : Handler}
    (hstep : (service sv).step w e = some w') (hp : w.handlers p = some h)
    (hactor : e.actor = some p) : ∃ a rm, e = .resume p a rm := by
  have hbusy {q : ℕ} {w₀ : World} (hq : some q = some p) (h : w.spawn q w₀ = some w') : False := by
    obtain rfl := Option.some.inj hq
    rw [(spawn_eq_some h).1] at hp
    cases hp
  cases e with
  | resume q a rm => exact ⟨a, rm, by rw [Option.some.inj hactor]⟩
  | uploadAudio q req => exact (hbusy hactor hstep).elim
  | uploadImage q req filename => exact (hbusy hactor hstep).elim
  | startTranscription q status userId uploadId => exact (hbusy hactor hstep).elim
  | purge q => exact (hbusy hactor hstep).elim
  | deleteTranscription q userId text => exact (hbusy hactor hstep).elim
  | _ => cases hactor

theorem resume_of_moved {sv : Service} {w w' : World} {e : Event} {q : ℕ} {h₀ h' : Handler}
    (hold : w.handlers q = some h₀) (hq : w'.handlers q = some h') (hne : h' ≠ h₀)
    (h : (service sv).step w e = some w') : ∃ a rm, e = .resume q a rm := by
  refine resume_of_actor h hold ?_
  by_contra hactor
  rw [(step_moves h).handlers_of_ne hactor, hold] at hq
  exact hne (Option.some.inj hq).symm

/-- No handler but `p` is in flight. -/
def Single (p : ℕ) (w : World) : Prop := ∀ q h, w.handlers q = some h → q = p

theorem single_initial {w : World} (h : Initial w) (p : ℕ) : Single p w := by
  intro q handler hq
  rw [h.handlers] at hq
  cases hq

theorem single_step {sv : Service} {w w' : World} {e : Event} {p : ℕ} (hw : Single p w)
    (he : e.actor = none ∨ e.actor = some p) (h : (service sv).step w e = some w') :
    Single p w' := by
  intro q handler hq
  by_contra hqp
  have hactor : e.actor ≠ some q := by
    rcases he with hnone | hsome
    · simp [hnone]
    · simpa [hsome] using Ne.symm hqp
  rw [(step_moves h).handlers_of_ne hactor] at hq
  exact hqp (hw q handler hq)

/-- In a run of events of one handler no other is ever in flight. -/
theorem along_single {sv : Service} {p : ℕ} {w : World} {es : List Event} (hw : Single p w)
    (hes : ∀ e ∈ es, e.actor = none ∨ e.actor = some p) :
    (service sv).Along (fun w _ _ => Single p w) w es := by
  induction es generalizing w with
  | nil => trivial
  | cons e es ih =>
      intro w' hstep
      refine ⟨hw, ih (single_step hw (hes e List.mem_cons_self) hstep) fun e' he' => ?_⟩
      exact hes e' (List.mem_cons_of_mem e he')

theorem single_run {sv : Service} {p : ℕ} {w t : World} {es : List Event} (hw : Single p w)
    (hes : ∀ e ∈ es, e.actor = none ∨ e.actor = some p) (hrun : (service sv).run w es = some t) :
    Single p t := by
  induction es generalizing w with
  | nil => exact Option.some.inj hrun ▸ hw
  | cons e es ih =>
      obtain ⟨w', hstep, hrest⟩ := ((service sv).run_cons_eq_some).mp hrun
      refine ih (single_step hw (hes e List.mem_cons_self) hstep) (fun e' he' => ?_) hrest
      exact hes e' (List.mem_cons_of_mem e he')

/-- Every step of the service keeps `Sound`. -/
theorem sound_step {sv : Service} {w w' : World} {e : Event} (hw : Sound sv w)
    (h : (service sv).step w e = some w') : Sound sv w' := by
  have hmoves := step_moves h
  have hknown {row : UploadSession} (hrow : Known w row) : Known w' row := by
    obtain ⟨r, hr, hlead⟩ := hrow
    obtain ⟨r', hr', hlead'⟩ := hmoves.sessions.leadsTo hr
    exact ⟨r', hr', hlead.trans hlead'⟩
  refine ⟨fun i r => hmoves.sessions.wellFormed hw.rows, fun q h' hq row hrow => ?_,
    fun q h' hq => ?_⟩
  · rcases hmoves.turns hq with hold | hturn
    · exact hknown (hw.known q h' hold row hrow)
    · exact hknown ((hturn.sound hw).1 row hrow)
  · rcases hmoves.turns hq with hold | hturn
    · exact (hw.facts q h' hold).mono hmoves.now_le
    · exact (hturn.sound hw).2.mono hmoves.now_le

theorem session?_initial {w : World} (h : Initial w) (i : Uuid) : w.session? i = none := by
  rw [World.session?, Table.find?_eq_none_iff, h.sessions]
  exact fun r hr => absurd hr (List.not_mem_nil)

theorem sound_initial {sv : Service} {w : World} (h : Initial w) : Sound sv w where
  rows := fun i r hr => by simp [session?_initial h] at hr
  known := fun p handler hp => by simp [h.handlers p] at hp
  facts := fun p handler hp => by simp [h.handlers p] at hp

end TranscriptionApi.Uploads
