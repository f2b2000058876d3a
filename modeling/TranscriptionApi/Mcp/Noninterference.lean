import TranscriptionApi.Mcp.Tools

/-!
What a tool call of one user can see and change.

No tool states the owner of a row: it is the listener that restricts every
query to the caller's rows. So a call is a function of the caller's own rows,
up to the order the server returns them in, and the rows of other users come
out of it as they went in. `AgreeOn u` relates two databases with the same rows
of `u`, whatever else they hold.
-/

namespace TranscriptionApi.Mcp

open Auth Db Lib Python

/-! ### Calls -/

/-- A call of one of the tools, with the arguments the client sends. -/
inductive ToolCall where
  | listMyTranscriptions (limit offset : ℤ) (sort : String)
  | searchMyTranscriptions (query : String) (limit : ℤ)
  | getTranscription (transcriptionId : String)
  | deleteTranscription (transcriptionId : String)
  | requestUploadUrl (kind : String) (fileSizeBytes : ℤ) (mimeType transcriptionId : Option String)
  | imageResource (transcriptionId imageId : String)

inductive ToolResult where
  | page (p : ListPage)
  | hits (hs : List SearchHit)
  | full (f : Full)
  | deleted
  | url (u : UploadUrl)
  | bytes (b : Bytes)

/-- What a call reads besides its arguments and the database. -/
structure Env where
  settings : Settings
  sha256Hex : Bytes → String
  fts : Fts
  files : String → Option Bytes
  now : ℤ
  secrets : UploadSecrets
  bearerId : Uuid
  transcriptionOrder : RowOrder Transcription
  imageOrder : RowOrder Image

def outcome {α : Type*} (f : α → ToolResult) (r : Except Failure α × Database) :
    Except Failure ToolResult × Database := (r.1.map f, r.2)

def ToolCall.run (env : Env) (u : Uuid) : ToolCall → Database → Except Failure ToolResult × Database
  | .listMyTranscriptions limit offset sort, db =>
      outcome .page (Mcp.listMyTranscriptions env.transcriptionOrder u limit offset sort db)
  | .searchMyTranscriptions query limit, db =>
      outcome .hits (Mcp.searchMyTranscriptions env.fts env.transcriptionOrder u query limit db)
  | .getTranscription tid, db => outcome .full (Mcp.getTranscription env.imageOrder u tid db)
  | .deleteTranscription tid, db =>
      outcome (fun _ => .deleted) (Mcp.deleteTranscription env.now u tid db)
  | .requestUploadUrl kind size mime tid, db =>
      outcome .url (Mcp.requestUploadUrl env.settings env.sha256Hex env.now env.secrets u
        env.bearerId kind size mime tid db)
  | .imageResource tid iid, db => outcome .bytes (Mcp.imageResource env.files u tid iid db)

/-- The identifiers the call may draw are in use nowhere. -/
def Env.FreshIn (env : Env) (db : Database) : Prop :=
  ∀ r ∈ db.uploadSessions.rows, r.id ≠ env.secrets.uploadId ∧ r.nonce ≠ env.secrets.nonce

/-! ### A user's rows -/

section Own

variable {α κ : Type*} {key : α → κ}

/-- The rows of `u`. -/
def ownRows (t : Table α key) (userId : α → Uuid) (u : Uuid) : List α :=
  t.select fun r => userId r = u

/-- The rows of everyone else. -/
def otherRows (t : Table α key) (userId : α → Uuid) (u : Uuid) : List α :=
  t.select fun r => userId r ≠ u

theorem scopedSelect_eq (t : Table α key) (userId : α → Uuid) (u : Uuid) (p : α → Bool) :
    scopedSelect t userId u p = (ownRows t userId u).filter p := by
  simp only [scopedSelect, ownRows, Table.select, List.filter_filter]
  rfl

theorem scopedSelect_perm {t₁ t₂ : Table α key} {userId : α → Uuid} {u : Uuid}
    (h : (ownRows t₁ userId u).Perm (ownRows t₂ userId u)) (p : α → Bool) :
    (scopedSelect t₁ userId u p).Perm (scopedSelect t₂ userId u p) := by
  rw [scopedSelect_eq, scopedSelect_eq]
  exact h.filter p

/-- An update of the caller's rows is a map over them. -/
theorem ownRows_scopedUpdate (t : Table α key) {userId : α → Uuid} (u : Uuid) (p : α → Bool)
    (f : α → α) (hf : ∀ r, key (f r) = key r) (howner : ∀ r, userId (f r) = userId r) :
    ownRows (scopedUpdate t userId u p f hf) userId u =
      (ownRows t userId u).map fun r => if p r then f r else r := by
  have hcomp : (fun r => decide (userId r = u)) ∘
      (fun r => if scopedTo userId u p r then f r else r) = fun r => decide (userId r = u) := by
    funext r
    simp only [Function.comp_apply]
    split
    · rw [howner r]
    · rfl
  simp only [ownRows, scopedUpdate, Table.select, Table.update, List.filter_map, hcomp]
  refine List.map_congr_left fun r hr => ?_
  have hu : userId r = u := by simpa using (List.mem_filter.mp hr).2
  simp [scopedTo, hu]

theorem otherRows_scopedUpdate (t : Table α key) {userId : α → Uuid} (u : Uuid) (p : α → Bool)
    (f : α → α) (hf : ∀ r, key (f r) = key r) (howner : ∀ r, userId (f r) = userId r) :
    otherRows (scopedUpdate t userId u p f hf) userId u = otherRows t userId u := by
  have hcomp : (fun r => decide (userId r ≠ u)) ∘
      (fun r => if scopedTo userId u p r then f r else r) = fun r => decide (userId r ≠ u) := by
    funext r
    simp only [Function.comp_apply]
    split
    · rw [howner r]
    · rfl
  simp only [otherRows, scopedUpdate, Table.select, Table.update, List.filter_map, hcomp]
  conv_rhs => rw [← List.map_id (List.filter _ t.rows)]
  refine List.map_congr_left fun r hr => ?_
  have hu : userId r ≠ u := by simpa using (List.mem_filter.mp hr).2
  simp [scopedTo, hu]

end Own

/-- The two databases hold the same rows of `u`. -/
structure AgreeOn (u : Uuid) (db₁ db₂ : Database) : Prop where
  oauthTokens : (ownRows db₁.oauthTokens OAuthToken.userId u).Perm
    (ownRows db₂.oauthTokens OAuthToken.userId u)
  mcpBearers : (ownRows db₁.mcpBearers McpBearer.userId u).Perm
    (ownRows db₂.mcpBearers McpBearer.userId u)
  transcriptions : (ownRows db₁.transcriptions Transcription.userId u).Perm
    (ownRows db₂.transcriptions Transcription.userId u)
  images : (ownRows db₁.images Image.userId u).Perm (ownRows db₂.images Image.userId u)
  uploadSessions : (ownRows db₁.uploadSessions UploadSession.userId u).Perm
    (ownRows db₂.uploadSessions UploadSession.userId u)

/-- Every row of every user but `u` is the same, and so are the users. -/
structure OthersKept (u : Uuid) (db db' : Database) : Prop where
  users : db'.users = db.users
  oauthTokens : otherRows db'.oauthTokens OAuthToken.userId u =
    otherRows db.oauthTokens OAuthToken.userId u
  mcpBearers : otherRows db'.mcpBearers McpBearer.userId u =
    otherRows db.mcpBearers McpBearer.userId u
  transcriptions : otherRows db'.transcriptions Transcription.userId u =
    otherRows db.transcriptions Transcription.userId u
  images : otherRows db'.images Image.userId u = otherRows db.images Image.userId u
  uploadSessions : otherRows db'.uploadSessions UploadSession.userId u =
    otherRows db.uploadSessions UploadSession.userId u

theorem OthersKept.refl (u : Uuid) (db : Database) : OthersKept u db db :=
  ⟨rfl, rfl, rfl, rfl, rfl, rfl⟩

/-! ### Reading calls

Each leaves the database alone, and its answer is a function of the caller's
rows and of the order they come in. -/

/-- Whatever order the server picks for one list of rows, it can pick for
another list of the same rows. -/
theorem RowOrder.exists_eq {α : Type*} (ord : RowOrder α) {l₁ l₂ : List α} (h : l₁.Perm l₂) :
    ∃ ord' : RowOrder α, ord'.order l₂ = ord.order l₁ := by
  classical
  refine ⟨⟨fun l => if l = l₂ then ord.order l₁ else l, fun l => ?_⟩, if_pos rfl⟩
  by_cases hl : l = l₂
  · rw [if_pos hl, hl]
    exact (ord.perm l₁).trans h
  · rw [if_neg hl]

section Reading

variable {u : Uuid} {db₁ db₂ : Database}

theorem listMyTranscriptions_snd (ord : RowOrder Transcription) (limit offset : ℤ)
    (sort : String) (db : Database) :
    (listMyTranscriptions ord u limit offset sort db).2 = db := by
  unfold listMyTranscriptions
  cases listSorts sort with
  | none => rfl
  | some sortClause =>
      dsimp only
      cases clampOrRaise limit 1 100 "limit" with
      | error e => rfl
      | ok limit =>
          dsimp only
          split
          · rfl
          · rfl

theorem listMyTranscriptions_agree (h : AgreeOn u db₁ db₂) (ord : RowOrder Transcription)
    (limit offset : ℤ) (sort : String) :
    ∃ ord' : RowOrder Transcription, (listMyTranscriptions ord u limit offset sort db₁).1 =
      (listMyTranscriptions ord' u limit offset sort db₂).1 := by
  have hrows := scopedSelect_perm h.transcriptions fun r => r.deletedAt.isNone
  obtain ⟨ord', hord⟩ := ord.exists_eq hrows
  refine ⟨ord', ?_⟩
  unfold listMyTranscriptions
  cases listSorts sort with
  | none => rfl
  | some sortClause =>
      dsimp only
      cases clampOrRaise limit 1 100 "limit" with
      | error e => rfl
      | ok limit =>
          dsimp only
          split
          · rfl
          · simp only [mcpRequestSession, hord, hrows.length_eq]

theorem searchMyTranscriptions_snd (fts : Fts) (ord : RowOrder Transcription) (query : String)
    (limit : ℤ) (db : Database) :
    (searchMyTranscriptions fts ord u query limit db).2 = db := by
  simp only [searchMyTranscriptions]
  split
  · rfl
  · split
    · rfl
    · cases clampOrRaise limit 1 50 "limit" with
      | error e => rfl
      | ok limit => rfl

theorem searchMyTranscriptions_agree (h : AgreeOn u db₁ db₂) (fts : Fts)
    (ord : RowOrder Transcription) (query : String) (limit : ℤ) :
    ∃ ord' : RowOrder Transcription, (searchMyTranscriptions fts ord u query limit db₁).1 =
      (searchMyTranscriptions fts ord' u query limit db₂).1 := by
  have hrows := scopedSelect_perm h.transcriptions
    fun r => r.deletedAt.isNone && fts.matches_ r.textContent (strip query)
  obtain ⟨ord', hord⟩ := ord.exists_eq hrows
  refine ⟨ord', ?_⟩
  simp only [searchMyTranscriptions]
  split
  · rfl
  · split
    · rfl
    · cases clampOrRaise limit 1 50 "limit" with
      | error e => rfl
      | ok limit => simp only [mcpRequestSession, hord]

/-- A query by primary key finds the same row in both. -/
theorem scopedSelect_key_eq {α κ : Type*} {key : α → κ} {t₁ t₂ : Table α key} {userId : α → Uuid}
    (h : (ownRows t₁ userId u).Perm (ownRows t₂ userId u)) {p : α → Bool} {k : κ}
    (hp : ∀ r, p r = true → key r = k) :
    scopedSelect t₁ userId u p = scopedSelect t₂ userId u p := by
  have hperm := scopedSelect_perm h p
  have hone : (scopedSelect t₁ userId u p).length ≤ 1 :=
    Table.length_select_le_one fun r hr => hp r (scopedTo_eq_true.mp hr).1
  match hrows : scopedSelect t₁ userId u p with
  | [] =>
      rw [hrows] at hperm
      exact (List.nil_perm.mp hperm).symm
  | [row] =>
      rw [hrows] at hperm
      exact List.singleton_perm.mp hperm
  | a :: b :: rest =>
      rw [hrows, List.length_cons, List.length_cons] at hone
      omega

theorem lookupTranscription_agree (h : AgreeOn u db₁ db₂) (tid : Uuid) :
    lookupTranscription db₁ u tid = lookupTranscription db₂ u tid := by
  unfold lookupTranscription lookupOwnedOr404
  rw [scopedSelect_key_eq h.transcriptions (k := tid)]
  intro r hr
  simp only [Bool.and_eq_true, decide_eq_true_eq] at hr
  exact hr.1

theorem getTranscription_snd (ord : RowOrder Image) (transcriptionId : String) (db : Database) :
    (getTranscription ord u transcriptionId db).2 = db := by
  unfold getTranscription
  cases uuid transcriptionId with
  | none => rfl
  | some tid =>
      simp only [mcpRequestSession]
      cases lookupTranscription db u tid with
      | error e => rfl
      | ok row => rfl

theorem getTranscription_agree (h : AgreeOn u db₁ db₂) (ord : RowOrder Image)
    (transcriptionId : String) :
    ∃ ord' : RowOrder Image, (getTranscription ord u transcriptionId db₁).1 =
      (getTranscription ord' u transcriptionId db₂).1 := by
  unfold getTranscription
  cases uuid transcriptionId with
  | none => exact ⟨ord, rfl⟩
  | some tid =>
      have hrows := scopedSelect_perm h.images (liveImageOf tid)
      obtain ⟨ord', hord⟩ := ord.exists_eq hrows
      refine ⟨ord', ?_⟩
      simp only [mcpRequestSession, lookupTranscription_agree h tid]
      cases lookupTranscription db₂ u tid with
      | error e => rfl
      | ok row => simp only [hord]

theorem imageResource_snd (files : String → Option Bytes) (transcriptionId imageId : String)
    (db : Database) : (imageResource files u transcriptionId imageId db).2 = db := by
  unfold imageResource
  cases uuid transcriptionId with
  | none => rfl
  | some tid =>
      cases uuid imageId with
      | none => rfl
      | some iid =>
          simp only [mcpRequestSession]
          cases scopedSelect db.images Image.userId u fun r =>
              r.id = iid && r.transcriptionId = tid && r.deletedAt.isNone with
          | nil => rfl
          | cons row rest =>
              dsimp only
              cases files row.filePath with
              | none => rfl
              | some bytes => rfl

theorem imageResource_agree (h : AgreeOn u db₁ db₂) (files : String → Option Bytes)
    (transcriptionId imageId : String) :
    (imageResource files u transcriptionId imageId db₁).1 =
      (imageResource files u transcriptionId imageId db₂).1 := by
  unfold imageResource
  cases uuid transcriptionId with
  | none => rfl
  | some tid =>
      cases uuid imageId with
      | none => rfl
      | some iid =>
          have hrows : scopedSelect db₁.images Image.userId u (fun r =>
                r.id = iid && r.transcriptionId = tid && r.deletedAt.isNone) =
              scopedSelect db₂.images Image.userId u (fun r =>
                r.id = iid && r.transcriptionId = tid && r.deletedAt.isNone) := by
            refine scopedSelect_key_eq h.images (k := iid) fun r hr => ?_
            simp only [Bool.and_eq_true, decide_eq_true_eq] at hr
            exact hr.1.1
          simp only [mcpRequestSession, hrows]
          cases scopedSelect db₂.images Image.userId u fun r =>
              r.id = iid && r.transcriptionId = tid && r.deletedAt.isNone with
          | nil => rfl
          | cons row rest =>
              dsimp only
              cases files row.filePath with
              | none => rfl
              | some bytes => rfl

end Reading

/-! ### Changing calls -/

section Changing

variable {u : Uuid} {db₁ db₂ : Database}

theorem perm_scopedUpdate {α κ : Type*} {key : α → κ} {t₁ t₂ : Table α key}
    {userId : α → Uuid} (h : (ownRows t₁ userId u).Perm (ownRows t₂ userId u)) (p : α → Bool)
    (f : α → α) (hf : ∀ r, key (f r) = key r) (howner : ∀ r, userId (f r) = userId r) :
    (ownRows (scopedUpdate t₁ userId u p f hf) userId u).Perm
      (ownRows (scopedUpdate t₂ userId u p f hf) userId u) := by
  rw [ownRows_scopedUpdate t₁ u p f hf howner, ownRows_scopedUpdate t₂ u p f hf howner]
  exact h.map _

theorem softDelete_agree (h : AgreeOn u db₁ db₂) (at_ : ℤ) (tid : Uuid) :
    AgreeOn u (softDelete at_ u tid db₁) (softDelete at_ u tid db₂) where
  oauthTokens := h.oauthTokens
  mcpBearers := h.mcpBearers
  transcriptions :=
    perm_scopedUpdate h.transcriptions _ (softDeleteTranscription at_) (fun _ => rfl) fun _ => rfl
  images := perm_scopedUpdate h.images _ (softDeleteImage at_) (fun _ => rfl) fun _ => rfl
  uploadSessions := h.uploadSessions

theorem softDelete_othersKept (at_ : ℤ) (tid : Uuid) (db : Database) :
    OthersKept u db (softDelete at_ u tid db) where
  users := rfl
  oauthTokens := rfl
  mcpBearers := rfl
  transcriptions :=
    otherRows_scopedUpdate _ u _ (softDeleteTranscription at_) (fun _ => rfl) fun _ => rfl
  images := otherRows_scopedUpdate _ u _ (softDeleteImage at_) (fun _ => rfl) fun _ => rfl
  uploadSessions := rfl

/-- Both deletions answer alike and reach the same rows of the caller. -/
theorem deleteTranscription_agree (h : AgreeOn u db₁ db₂) (at_ : ℤ) (transcriptionId : String) :
    (deleteTranscription at_ u transcriptionId db₁).1 =
        (deleteTranscription at_ u transcriptionId db₂).1 ∧
      AgreeOn u (deleteTranscription at_ u transcriptionId db₁).2
        (deleteTranscription at_ u transcriptionId db₂).2 := by
  cases htid : uuid transcriptionId with
  | none =>
      simp only [deleteTranscription, htid]
      exact ⟨trivial, h⟩
  | some tid =>
      have hcount := (scopedSelect_perm h.transcriptions (liveTranscription tid)).length_eq
      simp only [deleteTranscription_eq htid, hcount]
      split
      · exact ⟨rfl, h⟩
      · exact ⟨rfl, softDelete_agree h at_ tid⟩

theorem deleteTranscription_othersKept (at_ : ℤ) (transcriptionId : String) (db : Database) :
    OthersKept u db (deleteTranscription at_ u transcriptionId db).2 := by
  cases htid : uuid transcriptionId with
  | none =>
      simp only [deleteTranscription, htid]
      exact .refl u db
  | some tid =>
      rw [deleteTranscription_eq htid]
      split
      · exact .refl u db
      · exact softDelete_othersKept at_ tid db

/-- A fresh row goes in, after the rows that are there. -/
theorem insertUploadSession_fresh {t : Table UploadSession UploadSession.id}
    (row : UploadSession) (h : ∀ r ∈ t.rows, r.id ≠ row.id ∧ r.nonce ≠ row.nonce) :
    ∃ t', insertUploadSession t row = some t' ∧ t'.rows = t.rows ++ [row] := by
  have hnonce : (t.rows.any fun r => decide (r.nonce = row.nonce)) = false := by
    rw [List.any_eq_false]
    intro r hr
    simpa using (h r hr).2
  have hid : (t.insert? row).isSome := by
    rw [Table.insert?_isSome_iff, Table.find?_eq_none_iff]
    exact fun r hr => (h r hr).1
  obtain ⟨t', ht'⟩ := Option.isSome_iff_exists.mp hid
  refine ⟨t', ?_, (Table.insert?_eq_some ht').1⟩
  rw [insertUploadSession, hnonce, ht']
  rfl

theorem bindTranscription_agree (h : AgreeOn u db₁ db₂) (kind : UploadKind)
    (transcriptionId : Option String) :
    bindTranscription db₁ u kind transcriptionId =
      bindTranscription db₂ u kind transcriptionId := by
  cases kind with
  | audio => rfl
  | image =>
      simp only [bindTranscription]
      cases uuid (transcriptionId.getD "") with
      | none => rfl
      | some tid => simp only [lookupTranscription_agree h tid]

/-- The ways `request_upload_url` ends: an error, with nothing changed, that
the caller's rows decide; or the row that the arguments describe goes in. -/
theorem requestUploadUrl_cases (env : Env) (u : Uuid) (db₁ : Database) (kind : String) (size : ℤ)
    (mime transcriptionId : Option String) :
    (∃ e, ∀ db, AgreeOn u db₁ db → env.FreshIn db →
        requestUploadUrl env.settings env.sha256Hex env.now env.secrets u env.bearerId kind size
          mime transcriptionId db = (.error e, db)) ∨
      ∃ (answer : UploadUrl) (row : UploadSession), row.userId = u ∧
        ∀ db, AgreeOn u db₁ db → env.FreshIn db → ∃ sessions,
          sessions.rows = db.uploadSessions.rows ++ [row] ∧
          requestUploadUrl env.settings env.sha256Hex env.now env.secrets u env.bearerId kind size
            mime transcriptionId db = (.ok answer, { db with uploadSessions := sessions }) := by
  cases hkind : checkUploadRequest env.settings kind size mime transcriptionId with
  | error e =>
      refine .inl ⟨e, fun db _ _ => ?_⟩
      simp only [requestUploadUrl, hkind]
  | ok uploadKind =>
      cases hbind : bindTranscription db₁ u uploadKind transcriptionId with
      | error e =>
          refine .inl ⟨e, fun db hdb _ => ?_⟩
          simp only [requestUploadUrl, hkind, mcpRequestSession,
            ← bindTranscription_agree hdb, hbind]
      | ok tid =>
          cases hhash : hashBearer env.sha256Hex env.secrets.bearerForUpload with
          | none =>
              refine .inl ⟨.raised, fun db hdb _ => ?_⟩
              simp only [requestUploadUrl, hkind, mcpRequestSession,
                ← bindTranscription_agree hdb, hbind, hhash]
          | some hash =>
              let row := uploadSessionRow env.settings env.now u env.bearerId env.secrets hash
                uploadKind tid size mime
              refine .inr ⟨uploadUrlAnswer env.settings kind env.secrets row, row, rfl,
                fun db hdb hfresh => ?_⟩
              obtain ⟨sessions, hinsert, hrows⟩ := insertUploadSession_fresh row hfresh
              refine ⟨sessions, hrows, ?_⟩
              simp only [requestUploadUrl, hkind, mcpRequestSession,
                ← bindTranscription_agree hdb, hbind, hhash]
              rw [hinsert]

end Changing

/-! ### Noninterference -/

/-- `AgreeOn` sees only the caller's rows, so both databases that result from
appending a row of the caller agree again. -/
theorem AgreeOn.append_session {u : Uuid} {db₁ db₂ : Database} (h : AgreeOn u db₁ db₂)
    {row : UploadSession} {s₁ s₂ : Table UploadSession UploadSession.id}
    (h₁ : s₁.rows = db₁.uploadSessions.rows ++ [row])
    (h₂ : s₂.rows = db₂.uploadSessions.rows ++ [row]) :
    AgreeOn u { db₁ with uploadSessions := s₁ } { db₂ with uploadSessions := s₂ } where
  oauthTokens := h.oauthTokens
  mcpBearers := h.mcpBearers
  transcriptions := h.transcriptions
  images := h.images
  uploadSessions := by
    simp only [ownRows, Table.select, h₁, h₂, List.filter_append]
    exact h.uploadSessions.append_right _

theorem OthersKept.append_session {u : Uuid} {db : Database} {row : UploadSession}
    {s : Table UploadSession UploadSession.id} (hrow : row.userId = u)
    (h : s.rows = db.uploadSessions.rows ++ [row]) :
    OthersKept u db { db with uploadSessions := s } where
  users := rfl
  oauthTokens := rfl
  mcpBearers := rfl
  transcriptions := rfl
  images := rfl
  uploadSessions := by
    simp [otherRows, Table.select, h, List.filter_append, hrow]

/-- On `db₂` the call can answer as it does on `db₁`, it leaves the same rows
of the caller in both, and every row of everyone else as it was. The server may
order the rows of a result differently in the second database. -/
def SameForCaller (c : ToolCall) (env : Env) (u : Uuid) (db₁ db₂ : Database) : Prop :=
  ∃ (transcriptionOrder : RowOrder Transcription) (imageOrder : RowOrder Image),
    let env' := { env with transcriptionOrder := transcriptionOrder, imageOrder := imageOrder }
    (c.run env u db₁).1 = (c.run env' u db₂).1 ∧
      AgreeOn u (c.run env u db₁).2 (c.run env' u db₂).2 ∧
      OthersKept u db₁ (c.run env u db₁).2 ∧ OthersKept u db₂ (c.run env' u db₂).2

/-- A call of `u` cannot tell two databases with the same rows of `u` apart. -/
theorem run_noninterference (c : ToolCall) (env : Env) (u : Uuid) {db₁ db₂ : Database}
    (hagree : AgreeOn u db₁ db₂) (h₁ : env.FreshIn db₁) (h₂ : env.FreshIn db₂) :
    SameForCaller c env u db₁ db₂ := by
  cases c with
  | listMyTranscriptions limit offset sort =>
      obtain ⟨ord, hres⟩ := listMyTranscriptions_agree hagree env.transcriptionOrder limit offset
        sort
      refine ⟨ord, env.imageOrder, ?_⟩
      simp only [ToolCall.run, outcome, hres, listMyTranscriptions_snd]
      exact ⟨trivial, hagree, .refl u db₁, .refl u db₂⟩
  | searchMyTranscriptions query limit =>
      obtain ⟨ord, hres⟩ := searchMyTranscriptions_agree hagree env.fts env.transcriptionOrder
        query limit
      refine ⟨ord, env.imageOrder, ?_⟩
      simp only [ToolCall.run, outcome, hres, searchMyTranscriptions_snd]
      exact ⟨trivial, hagree, .refl u db₁, .refl u db₂⟩
  | getTranscription tid =>
      obtain ⟨ord, hres⟩ := getTranscription_agree hagree env.imageOrder tid
      refine ⟨env.transcriptionOrder, ord, ?_⟩
      simp only [ToolCall.run, outcome, hres, getTranscription_snd]
      exact ⟨trivial, hagree, .refl u db₁, .refl u db₂⟩
  | deleteTranscription tid =>
      obtain ⟨hres, hafter⟩ := deleteTranscription_agree hagree env.now tid
      refine ⟨env.transcriptionOrder, env.imageOrder, ?_⟩
      simp only [ToolCall.run, outcome, hres]
      exact ⟨trivial, hafter, deleteTranscription_othersKept env.now tid db₁,
        deleteTranscription_othersKept env.now tid db₂⟩
  | requestUploadUrl kind size mime tid =>
      have hself : AgreeOn u db₁ db₁ := ⟨.refl _, .refl _, .refl _, .refl _, .refl _⟩
      refine ⟨env.transcriptionOrder, env.imageOrder, ?_⟩
      rcases requestUploadUrl_cases env u db₁ kind size mime tid with
        ⟨e, he⟩ | ⟨answer, row, hrow, hok⟩
      · simp only [ToolCall.run, outcome, he db₁ hself h₁, he db₂ hagree h₂]
        exact ⟨trivial, hagree, .refl u db₁, .refl u db₂⟩
      · obtain ⟨s₁, hs₁, heq₁⟩ := hok db₁ hself h₁
        obtain ⟨s₂, hs₂, heq₂⟩ := hok db₂ hagree h₂
        simp only [ToolCall.run, outcome, heq₁, heq₂]
        exact ⟨trivial, hagree.append_session hs₁ hs₂, .append_session hrow hs₁,
          .append_session hrow hs₂⟩
  | imageResource tid iid =>
      refine ⟨env.transcriptionOrder, env.imageOrder, ?_⟩
      simp only [ToolCall.run, outcome, imageResource_snd,
        imageResource_agree hagree env.files tid iid]
      exact ⟨trivial, hagree, .refl u db₁, .refl u db₂⟩

/-- An environment in which nothing is on disk and no text matches a query. -/
def bareEnv : Env where
  settings := default
  sha256Hex := fun _ => ""
  fts := ⟨fun _ _ => false, fun _ _ => 0, fun _ _ => ""⟩
  files := fun _ => none
  now := 0
  secrets := ⟨1, "nonce", "bearer"⟩
  bearerId := 2
  transcriptionOrder := .stored
  imageOrder := .stored

def otherUsersTranscription : Transcription where
  id := 5
  userId := 2
  audioHash := "hash"
  originalFilename := "talk.mp3"
  originalSizeBytes := 4
  durationSeconds := 1
  language := "es"
  numSpeakers := 1
  textContent := "text"
  segments := .null
  extraMetadata := .null
  createdAt := 0
  deletedAt := none

/-- User 1 deletes a transcription that only the second database holds, as a
row of user 2. -/
theorem run_noninterference_foreign :
    SameForCaller (.deleteTranscription "00000000-0000-0000-0000-000000000005") bareEnv 1 default
      { (default : Database) with
        transcriptions := ⟨[otherUsersTranscription], List.nodup_singleton _⟩ } :=
  run_noninterference _ bareEnv 1
    ⟨.refl _, .refl _, by rw [show ownRows _ _ _ = [] from by decide]; exact .refl _, .refl _,
      .refl _⟩
    (fun _ h => absurd h (List.not_mem_nil)) fun _ h => absurd h (List.not_mem_nil)

end TranscriptionApi.Mcp
