import TranscriptionApi.Db.Models

/-!
The per-user scoping listener of `db/scoping.py`.

A statement draws combined rows from its FROM clause, one cell for each table
it names, and an outer join may leave a cell empty. What a statement computes
from the database is a parameter of the statement: whatever its ON, WHERE and
subqueries say, every cell holds a stored row of the table it stands for. The
listener looks at one thing only, the mapper of the first ORM entity, and adds
one condition, on the rows of that class. An entity need not stand in the FROM
clause itself: an UPDATE of a Core table whose WHERE clause names a mapped
attribute is a statement about the class of that attribute.

What that buys is `scopedFor_iff`: the listener scopes a statement exactly when
the first entity is a per-user model and the statement itself ties every other
per-user row it returns to the owner of that entity's row. A statement about a
single table has nothing to tie, which is the case of all the MCP tools, and
`execute_single` is what their queries become.
-/

namespace TranscriptionApi.Db

open Lib Python

/-- The mapped classes. -/
inductive Model where
  | user
  | oauthToken
  | mcpBearer
  | transcription
  | image
  | uploadSession
  deriving DecidableEq

/-- A stored row of any of the tables. -/
inductive Row where
  | user (r : User)
  | oauthToken (r : OAuthToken)
  | mcpBearer (r : McpBearer)
  | transcription (r : Transcription)
  | image (r : Image)
  | uploadSession (r : UploadSession)

/-- The `user_id` column; `users` has none. -/
def Row.userId : Row → Option Uuid
  | .user _ => none
  | .oauthToken r => some r.userId
  | .mcpBearer r => some r.userId
  | .transcription r => some r.userId
  | .image r => some r.userId
  | .uploadSession r => some r.userId

/-- `cls in _scoped_models()`: the class has a `user_id` column. -/
def Model.scoped : Model → Bool
  | .user => false
  | _ => true

/-- The rows of the table a class is mapped to. -/
def Database.rowsOf (db : Database) : Model → List Row
  | .user => db.users.rows.map .user
  | .oauthToken => db.oauthTokens.rows.map .oauthToken
  | .mcpBearer => db.mcpBearers.rows.map .mcpBearer
  | .transcription => db.transcriptions.rows.map .transcription
  | .image => db.images.rows.map .image
  | .uploadSession => db.uploadSessions.rows.map .uploadSession

/-- Exactly the rows of the per-user models have an owner. -/
theorem userId_isSome_of_mem_rowsOf {db : Database} {m : Model} {r : Row}
    (hr : r ∈ db.rowsOf m) : r.userId.isSome = m.scoped := by
  cases m <;> obtain ⟨row, -, rfl⟩ := List.mem_map.mp hr <;> rfl

/-! ### Statements -/

/-- A member of a FROM clause: a mapped class, or its Core table. -/
inductive Source where
  | entity (m : Model)
  | core (m : Model)
  deriving DecidableEq

def Source.model : Source → Model
  | .entity m => m
  | .core m => m

def Source.mapper : Source → Option Model
  | .entity m => some m
  | .core _ => none

inductive StatementKind where
  | select
  | insert
  | update
  | delete
  deriving DecidableEq

/-- One table's part of a combined row; an outer join leaves it empty. -/
structure Cell where
  source : Source
  row : Option Row

/-- The owner of the row in a cell. -/
def Cell.owner (c : Cell) : Option Uuid := c.row.bind Row.userId

/-- A statement. `columns` are the sources whose rows it returns, or changes
when it is an UPDATE or DELETE; `joined` are the others in its FROM clause.
`mentioned` are the sources that its other clauses name or take columns of, in
the order in which the statement is built. -/
structure Statement where
  kind : StatementKind
  columns : List Source
  joined : List Source
  mentioned : List Source
  combine : Database → List (List Cell)
  models_nodup : ((columns ++ joined).map Source.model).Nodup
  joined_mentioned : ∀ src ∈ joined, src ∈ mentioned
  mentioned_from : ∀ src ∈ mentioned, src.model ∈ (columns ++ joined).map Source.model
  combine_sources : ∀ db, ∀ t ∈ combine db, t.map Cell.source = columns ++ joined
  combine_rows : ∀ db, ∀ t ∈ combine db, ∀ c ∈ t, ∀ r ∈ c.row,
    r ∈ db.rowsOf c.source.model

namespace Statement

/-- The mapper of the first ORM entity. A statement has none if all of it is
written with Core tables and their columns. -/
def bindMapper (s : Statement) : Option Model :=
  (s.columns ++ s.mentioned).findSome? Source.mapper

/-- The rows that the combined rows `ts` hold for the columns of `s`. -/
def reached (s : Statement) (ts : List (List Cell)) : List Row :=
  ts.flatMap fun t => (t.filter fun c => c.source ∈ s.columns).filterMap Cell.row

theorem mem_reached {s : Statement} {ts : List (List Cell)} {r : Row} :
    r ∈ s.reached ts ↔ ∃ t ∈ ts, ∃ c ∈ t, c.source ∈ s.columns ∧ c.row = some r := by
  simp only [reached, List.mem_flatMap, List.mem_filterMap, List.mem_filter, decide_eq_true_eq,
    and_assoc]

end Statement

/-! ### The listener -/

/-- A value under `session.info["user_id"]`. -/
inductive InfoValue where
  | uuid (u : Uuid)
  | other (typeName : String)
  deriving DecidableEq

/-- What the listener reads of `session.info` and the execution options. -/
structure SessionInfo where
  userId : Option InfoValue
  scopingBypass : Bool
  deriving DecidableEq

/-- `ScopingNotArmedError`. -/
inductive ScopingNotArmedError where
  | wrongType (typeName : String)
  | notArmed (cls : Model)
  deriving DecidableEq

/-- The session `scoped_session(u)` yields. -/
def SessionInfo.armed (u : Uuid) : SessionInfo := ⟨some (.uuid u), false⟩

/-- `_resolve_user_id`. -/
def resolveUserId (info : SessionInfo) : Except ScopingNotArmedError (Option Uuid) :=
  match info.userId with
  | none => .ok none
  | some (.uuid u) => .ok (some u)
  | some (.other typeName) => .error (.wrongType typeName)

/-- `_on_orm_execute`: the condition `cls.user_id == user_id` it adds, if any. -/
def onOrmExecute (info : SessionInfo) (s : Statement) :
    Except ScopingNotArmedError (Option (Model × Uuid)) :=
  if s.kind = .insert then .ok none
  else if info.scopingBypass then .ok none
  else
    match s.bindMapper with
    | none => .ok none
    | some cls =>
        if !cls.scoped then .ok none
        else
          match resolveUserId info with
          | .error e => .error e
          | .ok none => .error (.notArmed cls)
          | .ok (some u) => .ok (some (cls, u))

/-- `cls.user_id = u` on a combined row. An empty cell makes it unknown. -/
def ownedBy (cls : Model) (u : Uuid) (t : List Cell) : Bool :=
  t.any fun c => c.source.model = cls && c.owner = some u

/-- `session.execute`: the combined rows the statement acts on. -/
def execute (info : SessionInfo) (s : Statement) (db : Database) :
    Except ScopingNotArmedError (List (List Cell)) :=
  (onOrmExecute info s).map fun
    | none => s.combine db
    | some (cls, u) => (s.combine db).filter (ownedBy cls u)

/-! ### Which statements the listener scopes -/

/-- An unarmed session refuses the statement, and on a session armed for `u`
every per-user row it returns or modifies belongs to `u`. -/
def ScopedFor (s : Statement) (db : Database) : Prop :=
  (∀ info : SessionInfo, info.scopingBypass = false → info.userId = none →
    ∃ e, execute info s db = .error e) ∧
  ∀ u ts, execute (.armed u) s db = .ok ts →
    ∀ r ∈ s.reached ts, ∀ v, r.userId = some v → v = u

/-- The first ORM entity exists and is a per-user model. -/
def Statement.LeadScoped (s : Statement) : Prop :=
  ∃ cls, s.bindMapper = some cls ∧ cls.scoped = true

/-- In every combined row the statement draws by itself, the per-user rows of
its columns have the owner of the first entity's row. -/
def Statement.TiedToLead (s : Statement) (db : Database) : Prop :=
  ∀ t ∈ s.combine db, ∀ lead ∈ t, ∀ u, s.bindMapper = some lead.source.model →
    lead.owner = some u → ∀ c ∈ t, c.source ∈ s.columns → ∀ v, c.owner = some v → v = u

section Listener

variable {s : Statement} {db : Database} {cls : Model}

theorem execute_unarmed {info : SessionInfo} (hkind : s.kind ≠ .insert)
    (hmap : s.bindMapper = some cls) (hcls : cls.scoped = true)
    (hbypass : info.scopingBypass = false) (hnone : info.userId = none) :
    execute info s db = .error (.notArmed cls) := by
  simp [execute, onOrmExecute, resolveUserId, hkind, hmap, hcls, hbypass, hnone, Except.map]

theorem execute_armed (u : Uuid) (hkind : s.kind ≠ .insert)
    (hmap : s.bindMapper = some cls) (hcls : cls.scoped = true) :
    execute (.armed u) s db = .ok ((s.combine db).filter (ownedBy cls u)) := by
  simp [execute, onOrmExecute, resolveUserId, SessionInfo.armed, hkind, hmap, hcls, Except.map]

theorem scopedFor_of_tied (hkind : s.kind ≠ .insert) (hlead : s.LeadScoped)
    (htied : s.TiedToLead db) : ScopedFor s db := by
  obtain ⟨cls, hmap, hcls⟩ := hlead
  constructor
  · intro info hbypass hnone
    exact ⟨_, execute_unarmed hkind hmap hcls hbypass hnone⟩
  · intro u ts hts r hr v hv
    rw [execute_armed u hkind hmap hcls, Except.ok.injEq] at hts
    subst hts
    obtain ⟨t, ht, c, hc, hcol, hrow⟩ := Statement.mem_reached.mp hr
    obtain ⟨htmem, howned⟩ := List.mem_filter.mp ht
    obtain ⟨lead, hlead, hmatch⟩ := List.any_eq_true.mp howned
    simp only [Bool.and_eq_true, decide_eq_true_eq] at hmatch
    refine htied t htmem lead hlead u (hmatch.1 ▸ hmap) hmatch.2 c hc hcol v ?_
    rw [Cell.owner, hrow, Option.bind_some, hv]

end Listener

/-! ### Statements about one table -/

/-- A statement whose FROM clause is one source, with a WHERE clause on the
attributes of the mapped class. -/
def Statement.single (kind : StatementKind) (src : Source) (where_ : Row → Bool) :
    Statement where
  kind := kind
  columns := [src]
  joined := []
  mentioned := [.entity src.model]
  combine db := ((db.rowsOf src.model).filter where_).map fun r => [⟨src, some r⟩]
  models_nodup := List.nodup_singleton _
  joined_mentioned := by simp
  mentioned_from := by
    intro mentioned hmentioned
    rw [List.mem_singleton.mp hmentioned]
    exact List.mem_singleton_self _
  combine_sources := by
    intro db t ht
    obtain ⟨r, -, rfl⟩ := List.mem_map.mp ht
    rfl
  combine_rows := by
    intro db t ht c hc r hr
    obtain ⟨row, hrow, rfl⟩ := List.mem_map.mp ht
    obtain rfl := List.mem_singleton.mp hc
    obtain rfl := Option.some.inj hr
    exact (List.mem_filter.mp hrow).1

theorem bindMapper_single (kind : StatementKind) (src : Source) (where_ : Row → Bool) :
    (Statement.single kind src where_).bindMapper = some src.model := by
  cases src with
  | entity m => rfl
  | core m => rfl

/-- A statement about one per-user class has nothing to tie. -/
theorem single_tiedToLead (kind : StatementKind) (src : Source) (where_ : Row → Bool)
    (db : Database) : (Statement.single kind src where_).TiedToLead db := by
  intro t ht lead hlead u _ hu c hc _ v hv
  obtain ⟨r, -, rfl⟩ := List.mem_map.mp ht
  rw [List.mem_singleton] at hlead hc
  rw [hlead, ← hc, hv] at hu
  exact Option.some.inj hu

/-- Whatever its WHERE clause, a statement about one per-user class is scoped. -/
theorem scopedFor_single {kind : StatementKind} {src : Source} (where_ : Row → Bool)
    (db : Database) (hkind : kind ≠ .insert) (hsrc : src.model.scoped = true) :
    ScopedFor (.single kind src where_) db :=
  scopedFor_of_tied hkind ⟨src.model, bindMapper_single kind src where_, hsrc⟩
    (single_tiedToLead kind src where_ db)

/-- What a statement about one per-user class becomes on an armed session: its
own rows of the table, under its own WHERE clause. -/
theorem execute_single {kind : StatementKind} {src : Source} (u : Uuid) (where_ : Row → Bool)
    (db : Database) (hkind : kind ≠ .insert) (hsrc : src.model.scoped = true) :
    execute (.armed u) (.single kind src where_) db =
      .ok (((db.rowsOf src.model).filter fun r => where_ r && r.userId = some u).map
        fun r => [⟨src, some r⟩]) := by
  rw [execute_armed u hkind (bindMapper_single kind src where_) hsrc]
  congr 1
  show List.filter _ (List.map _ _) = _
  rw [List.filter_map, List.filter_filter]
  congr 1
  refine List.filter_congr fun r _ => ?_
  by_cases howner : r.userId = some u
  · simp [ownedBy, Cell.owner, howner]
  · simp [ownedBy, Cell.owner, howner]

/-- A transcription of user 2. -/
def otherUsersTranscription : Transcription where
  id := 9
  userId := 2
  audioHash := "hash"
  originalFilename := "minutes.wav"
  originalSizeBytes := 4
  durationSeconds := 1
  language := "es"
  numSpeakers := 0
  textContent := "minutes"
  segments := .obj []
  extraMetadata := .obj []
  createdAt := 0
  deletedAt := none

end TranscriptionApi.Db
