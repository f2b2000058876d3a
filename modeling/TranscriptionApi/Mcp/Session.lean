import TranscriptionApi.Db.Scoping

/-!
What the MCP tools share: their errors, the armed session they run in, the
queries they issue on it, and the lookup that turns a missing row into a 404.

A query about one model on a session armed for `u` is what the scoping
listener makes of it: `execute_transcriptions` and `execute_images` say that
`scopedSelect` is that statement. The order in which a SELECT without
ORDER BY yields its rows is the server's choice, a `RowOrder`; the tools take
it as an argument wherever more than one row can come back.
-/

namespace TranscriptionApi.Mcp

open Db Lib Python

/-! ### Errors -/

/-- `McpError`: the JSON-RPC code and the payload of `raise_tool_error`. -/
structure ToolError where
  rpcCode : ℤ
  errorCode : String
  reason : String
  httpStatus : ℕ
  extra : List (String × Json)

def invalidParams : ℤ := -32602

def internalError : ℤ := -32603

/-- How a tool call fails: a typed error, or any other exception. -/
inductive Failure where
  | mcp (e : ToolError)
  | raised

def raiseToolError (code reason : String) (httpStatus : ℕ)
    (extra : List (String × Json) := []) : Failure :=
  .mcp
    { rpcCode := if 400 ≤ httpStatus ∧ httpStatus < 500 then invalidParams else internalError
      errorCode := code
      reason := reason
      httpStatus := httpStatus
      extra := extra }

/-- `clamp_or_raise`. -/
def clampOrRaise (value lo hi : ℤ) (name : String) : Except Failure ℤ :=
  if value < lo then
    .error (raiseToolError "INVALID_PARAMETER" (name ++ " must be >= " ++ toString lo) 400
      [("min", .num lo)])
  else if value ≤ hi then .ok value
  else if value ≤ hi * 2 then .ok hi
  else
    .error (raiseToolError "INVALID_PARAMETER" (name ++ " must be <= " ++ toString hi) 400
      [("max_limit", .num hi)])

/-- What `clamp_or_raise` lets through is in the band. -/
theorem clampOrRaise_ok {value lo hi limit : ℤ} {name : String} (hband : lo ≤ hi)
    (h : clampOrRaise value lo hi name = .ok limit) : lo ≤ limit ∧ limit ≤ hi := by
  unfold clampOrRaise at h
  split at h
  · cases h
  · split at h
    · cases h
      omega
    · split at h
      · cases h
        omega
      · cases h

/-! ### Sessions and queries -/

/-- `scoped_session`: commit on the happy path, roll back on any exception. -/
def mcpRequestSession {α : Type*} (body : Database → Except Failure (α × Database))
    (db : Database) : Except Failure α × Database :=
  match body db with
  | .ok (result, db') => (.ok result, db')
  | .error e => (.error e, db)

/-- The order in which the server returns the rows of a result. -/
structure RowOrder (α : Type*) where
  order : List α → List α
  perm : ∀ l, (order l).Perm l

/-- The rows as the table stores them. -/
def RowOrder.stored {α : Type*} : RowOrder α := ⟨id, fun _ => .refl _⟩

instance {α : Type*} : Inhabited (RowOrder α) := ⟨.stored⟩

section Queries

variable {α κ : Type*} {key : α → κ}

/-- A row that a statement with the condition `p` reaches on a session armed
for `u`. -/
def scopedTo (userId : α → Uuid) (u : Uuid) (p : α → Bool) (r : α) : Bool :=
  p r && userId r = u

/-- `select(Model).where(p)`. -/
def scopedSelect (t : Table α key) (userId : α → Uuid) (u : Uuid) (p : α → Bool) : List α :=
  t.select (scopedTo userId u p)

/-- `update(Model).where(p).values(f)`. -/
def scopedUpdate (t : Table α key) (userId : α → Uuid) (u : Uuid) (p : α → Bool) (f : α → α)
    (hf : ∀ r, key (f r) = key r) : Table α key :=
  t.update (scopedTo userId u p) f hf

@[simp] theorem scopedTo_eq_true {userId : α → Uuid} {u : Uuid} {p : α → Bool} {r : α} :
    scopedTo userId u p r = true ↔ p r = true ∧ userId r = u := by
  simp [scopedTo]

theorem mem_scopedSelect {t : Table α key} {userId : α → Uuid} {u : Uuid} {p : α → Bool}
    {r : α} : r ∈ scopedSelect t userId u p ↔ r ∈ t.rows ∧ p r = true ∧ userId r = u := by
  rw [scopedSelect, Table.mem_select, scopedTo_eq_true]

end Queries

/-- The WHERE clause of a query about transcriptions. -/
def onTranscriptions (p : Transcription → Bool) : Row → Bool
  | .transcription r => p r
  | _ => false

/-- The WHERE clause of a query about images. -/
def onImages (p : Image → Bool) : Row → Bool
  | .image r => p r
  | _ => false

/-- `scopedSelect` on the table of a model is what the listener makes of a query about it. -/
theorem execute_table {α κ : Type*} {key : α → κ} {kind : StatementKind} {m : Model} (u : Uuid)
    (where_ : Row → Bool) (db : Database) (hkind : kind ≠ .insert) (hm : m.scoped = true)
    {t : Table α key} {row : α → Row} {userId : α → Uuid} {p : α → Bool}
    (hrows : db.rowsOf m = t.rows.map row) (hwhere : ∀ r, where_ (row r) = p r)
    (howner : ∀ r, (row r).userId = some (userId r)) :
    execute (.armed u) (.single kind (.entity m) where_) db =
      .ok ((scopedSelect t userId u p).map fun r => [⟨.entity m, some (row r)⟩]) := by
  have hexec : execute (.armed u) (.single kind (.entity m) where_) db =
      .ok (((db.rowsOf m).filter fun r => where_ r && r.userId = some u).map
        fun r => [⟨.entity m, some r⟩]) := execute_single u where_ db hkind hm
  rw [hexec, hrows, List.filter_map, List.map_map]
  have hselected : t.rows.filter ((fun r => where_ r && r.userId = some u) ∘ row) =
      scopedSelect t userId u p := by
    refine List.filter_congr fun r _ => ?_
    simp [scopedTo, hwhere r, howner r]
  rw [hselected]
  rfl

theorem execute_transcriptions {kind : StatementKind} (u : Uuid) (p : Transcription → Bool)
    (db : Database) (hkind : kind ≠ .insert) :
    execute (.armed u) (.single kind (.entity .transcription) (onTranscriptions p)) db =
      .ok ((scopedSelect db.transcriptions Transcription.userId u p).map
        fun r => [⟨.entity .transcription, some (.transcription r)⟩]) :=
  execute_table u _ db hkind rfl rfl (fun _ => rfl) fun _ => rfl

theorem execute_images {kind : StatementKind} (u : Uuid) (p : Image → Bool) (db : Database)
    (hkind : kind ≠ .insert) :
    execute (.armed u) (.single kind (.entity .image) (onImages p)) db =
      .ok ((scopedSelect db.images Image.userId u p).map
        fun r => [⟨.entity .image, some (.image r)⟩]) :=
  execute_table u _ db hkind rfl rfl (fun _ => rfl) fun _ => rfl

/-- `lookup_owned_or_404`, for a model with a `deleted_at` column. The id is a
primary key, so at most one row comes back. -/
def lookupOwnedOr404 {α κ : Type*} {key : α → κ} [DecidableEq κ] (t : Table α key)
    (userId : α → Uuid) (deletedAt : α → Option ℤ) (u : Uuid) (idValue : κ)
    (errorCode errorMessage : String) : Except Failure α :=
  match scopedSelect t userId u fun r => key r = idValue && (deletedAt r).isNone with
  | [] => .error (raiseToolError errorCode errorMessage 404)
  | row :: _ => .ok row

theorem lookupOwnedOr404_ok {α κ : Type*} {key : α → κ} [DecidableEq κ] {t : Table α key}
    {userId : α → Uuid} {deletedAt : α → Option ℤ} {u : Uuid} {idValue : κ}
    {errorCode errorMessage : String} {row : α}
    (h : lookupOwnedOr404 t userId deletedAt u idValue errorCode errorMessage = .ok row) :
    t.find? idValue = some row ∧ userId row = u ∧ deletedAt row = none := by
  unfold lookupOwnedOr404 at h
  split at h
  · cases h
  · rename_i r rest hrows
    cases h
    have hmem := mem_scopedSelect.mp (hrows ▸ List.mem_cons_self)
    simp only [Bool.and_eq_true, decide_eq_true_eq, Option.isNone_iff_eq_none] at hmem
    exact ⟨Table.find?_eq_some_iff.mpr ⟨hmem.1, hmem.2.1.1⟩, hmem.2.2, hmem.2.1.2⟩

end TranscriptionApi.Mcp
