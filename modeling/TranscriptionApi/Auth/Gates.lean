import Mathlib.Data.List.TakeWhile
import TranscriptionApi.Auth.Bearer
import TranscriptionApi.Db.Models

/-!
The two gates that ask for an MCP bearer: the middleware before the MCP
transport, and the dependency `get_current_user_mcp`. They read the header with
a parser each and the tables with a query each; that they agree is proved from
what both come down to, a stored hash of an active bearer.

Both note the time of use, and neither depends on whether that UPDATE is
committed.
-/

namespace TranscriptionApi.Auth

open Db Lib Python

/-- How a gate ends: it lets the request through, answers 401, or an exception
leaves it. -/
inductive GateAnswer (α : Type) where
  | accepted (a : α)
  | unauthorized (errorCode reason : String)
  | raised

/-- `UPDATE mcp_bearers SET last_used_at = at WHERE id = i`. -/
def bumpLastUsedAt (at_ : ℤ) (i : Uuid) (db : Database) : Database :=
  { db with
    mcpBearers := db.mcpBearers.update (fun b => b.id = i)
      (fun b => { b with lastUsedAt := some at_ }) fun _ => rfl }

section Gates

variable (sha256Hex : Bytes → String) (now : ℤ) (bumped : Bool) (db : Database)

/-- `_authenticate`; `bumped` says whether the UPDATE is committed. -/
def authenticate (plaintext : String) : GateAnswer (Uuid × Uuid) × Database :=
  if plaintext.isEmpty then (.unauthorized "MCP_BEARER_INVALID" "empty bearer token", db)
  else
    match hashBearer sha256Hex plaintext with
    -- `encode("ascii")` raises
    | none => (.raised, db)
    | some tokenHash =>
        match db.mcpBearers.select fun b => b.tokenHash = tokenHash with
        | [] => (.unauthorized "MCP_BEARER_INVALID" "bearer not found", db)
        | [row] =>
            if row.revokedAt ≠ none then
              (.unauthorized "MCP_BEARER_REVOKED" "bearer was revoked", db)
            else
              (.accepted (row.userId, row.id), if bumped then bumpLastUsedAt now row.id db else db)
        -- `scalar_one_or_none` raises on a second row
        | _ => (.raised, db)

/-- `BearerAuthMiddleware.dispatch` up to `call_next`. -/
def bearerAuthMiddleware (authorization : Option String) : GateAnswer (Uuid × Uuid) × Database :=
  if (authorization.getD "").isEmpty then
    (.unauthorized "MCP_BEARER_INVALID" "missing Authorization header", db)
  else
    match parseBearer authorization with
    | none =>
        (.unauthorized "MCP_BEARER_INVALID" "Authorization header must be `Bearer <token>`", db)
    | some plaintext => authenticate sha256Hex now bumped db plaintext

/-- The rows of `users JOIN mcp_bearers` with an active bearer of this hash. -/
def joinActive (tokenHash : String) : List (User × McpBearer) :=
  db.users.rows.flatMap fun user =>
    (db.mcpBearers.select fun b =>
      b.userId = user.id ∧ b.tokenHash = tokenHash ∧ b.revokedAt = none).map fun b => (user, b)

/-- `verify_bearer`: the user, and the tables with the UPDATE it queues; `none`
is an exception. -/
def verifyBearer (plaintext : String) : Option (Option User × Database) :=
  if plaintext.isEmpty then some (none, db)
  else
    match hashBearer sha256Hex plaintext with
    | none => none
    | some tokenHash =>
        match joinActive db tokenHash with
        | [] => some (none, db)
        | (user, bearer) :: _ => some (some user, bumpLastUsedAt now bearer.id db)

/-- The token of the header, as `get_current_user_mcp` reads it, or the reason
of its 401. -/
def tokenOfHeader (authorization : Option String) : Except String String :=
  if (authorization.getD "").isEmpty then .error "missing Authorization header"
  else
    match splitSpace (authorization.getD "") with
    | [scheme, rest] =>
        if lower scheme ≠ "bearer" then
          .error "Authorization header must be `Bearer <token>`"
        else if (strip rest).isEmpty then .error "empty bearer token"
        else .ok (strip rest)
    | _ => .error "Authorization header must be `Bearer <token>`"

/-- `get_current_user_mcp`. -/
def getCurrentUserMcp (authorization : Option String) : GateAnswer User × Database :=
  match tokenOfHeader authorization with
  | .error reason => (.unauthorized "AUTH_NOT_AUTHENTICATED" reason, db)
  | .ok plaintext =>
      match verifyBearer sha256Hex now db plaintext with
      | none => (.raised, db)
      | some (none, db) =>
          (.unauthorized "AUTH_NOT_AUTHENTICATED" "bearer not found or revoked", db)
      | some (some user, db') => (.accepted user, if bumped then db' else db)

end Gates

/-! ### The two parsers -/

/-- Without a blank nothing follows the first one. -/
theorem partitionSpace_of_notMem {s : String} (h : ' ' ∉ s.toList) :
    (partitionSpace s).2 = "" := by
  have hall : s.toList.dropWhile (· ≠ ' ') = [] := by
    rw [List.dropWhile_eq_nil_iff]
    intro c hc
    have hne : c ≠ ' ' := by
      rintro rfl
      exact h hc
    simpa using hne
  simp only [partitionSpace, hall]
  rfl

theorem strip_empty : strip "" = "" := rfl

theorem parseBearer_ne_empty {authorization : Option String} {token : String}
    (h : parseBearer authorization = some token) : token.isEmpty = false := by
  cases authorization with
  | none => cases h
  | some header =>
      simp only [parseBearer] at h
      split at h
      · cases h
      · split at h
        · cases h
        · split at h
          · cases h
          · rename_i hnonempty
            rw [← Option.some.inj h]
            exact Bool.eq_false_iff.mpr hnonempty

/-- `partition` with `strip` and `split` with `strip` read the same token. -/
theorem tokenOfHeader_ok_iff {authorization : Option String} {token : String} :
    tokenOfHeader authorization = .ok token ↔ parseBearer authorization = some token := by
  cases authorization with
  | none => simp [tokenOfHeader, parseBearer]
  | some header =>
      by_cases hempty : header.isEmpty = true
      · simp [tokenOfHeader, parseBearer, hempty]
      · by_cases hblank : ' ' ∈ header.toList
        · have hsplit : splitSpace header =
              [(partitionSpace header).1, (partitionSpace header).2] := if_pos hblank
          by_cases hbearer : lower (partitionSpace header).1 = "bearer"
          · by_cases htoken : (strip (partitionSpace header).2).isEmpty = true
            · simp [tokenOfHeader, parseBearer, hempty, hsplit, hbearer, htoken]
            · simp [tokenOfHeader, parseBearer, hempty, hsplit, hbearer, htoken]
          · simp [tokenOfHeader, parseBearer, hempty, hsplit, hbearer]
        · have hsplit : splitSpace header = [header] := if_neg hblank
          simp [tokenOfHeader, parseBearer, hempty, hsplit, partitionSpace_of_notMem hblank,
            strip_empty]

/-! ### The two queries -/

/-- The token of the header belongs to this bearer. -/
def Presents (sha256Hex : Bytes → String) (authorization : Option String) (b : McpBearer) : Prop :=
  ∃ token, parseBearer authorization = some token ∧ hashBearer sha256Hex token = some b.tokenHash

/-- The unique constraint on `mcp_bearers.token_hash`. -/
def HashesUnique (db : Database) : Prop :=
  ∀ a ∈ db.mcpBearers.rows, ∀ b ∈ db.mcpBearers.rows, a.tokenHash = b.tokenHash → a = b

/-- The foreign key `mcp_bearers.user_id`. -/
def BearersOwned (db : Database) : Prop :=
  ∀ b ∈ db.mcpBearers.rows, ∃ user ∈ db.users.rows, user.id = b.userId

section Agreement

variable {sha256Hex : Bytes → String} {now : ℤ} {bumped : Bool} {db : Database}

theorem select_tokenHash (hunique : HashesUnique db) {b : McpBearer}
    (hb : b ∈ db.mcpBearers.rows) :
    (db.mcpBearers.select fun r => r.tokenHash = b.tokenHash) = [b] := by
  apply Table.select_eq_singleton hb
  · simp
  · exact fun r hr heq => hunique r hr b hb (by simpa using heq)

theorem bearerAuthMiddleware_eq {authorization : Option String} {token : String}
    (h : parseBearer authorization = some token) :
    bearerAuthMiddleware sha256Hex now bumped db authorization =
      authenticate sha256Hex now bumped db token := by
  have hheader : (authorization.getD "").isEmpty = false := by
    cases authorization with
    | none => cases h
    | some header =>
        simp only [parseBearer] at h
        split at h
        · cases h
        · rename_i hempty
          exact Bool.eq_false_iff.mpr hempty
  simp only [bearerAuthMiddleware, hheader, h, Bool.false_eq_true, if_false]

/-- What the middleware answers by the bearer the header presents. -/
theorem bearerAuthMiddleware_presents (hunique : HashesUnique db) {authorization : Option String}
    {b : McpBearer} (hb : b ∈ db.mcpBearers.rows)
    (hpresents : Presents sha256Hex authorization b) :
    (bearerAuthMiddleware sha256Hex now bumped db authorization).1 =
      if b.revokedAt ≠ none then .unauthorized "MCP_BEARER_REVOKED" "bearer was revoked"
      else .accepted (b.userId, b.id) := by
  obtain ⟨token, hparse, hhash⟩ := hpresents
  rw [bearerAuthMiddleware_eq hparse]
  simp only [authenticate, parseBearer_ne_empty hparse, hhash, select_tokenHash hunique hb,
    Bool.false_eq_true, if_false]
  split
  · rfl
  · rfl

/-- Without such a bearer the middleware neither accepts nor finds it revoked. -/
theorem bearerAuthMiddleware_unknown {authorization : Option String}
    (hnone : ∀ b ∈ db.mcpBearers.rows, ¬ Presents sha256Hex authorization b) :
    (∀ a, (bearerAuthMiddleware sha256Hex now bumped db authorization).1 ≠ .accepted a) ∧
      ∀ reason, (bearerAuthMiddleware sha256Hex now bumped db authorization).1 ≠
        .unauthorized "MCP_BEARER_REVOKED" reason := by
  cases hparse : parseBearer authorization with
  | none =>
      simp only [bearerAuthMiddleware, hparse]
      split
      · simp
      · simp
  | some token =>
      rw [bearerAuthMiddleware_eq hparse]
      cases hhash : hashBearer sha256Hex token with
      | none => simp [authenticate, parseBearer_ne_empty hparse, hhash]
      | some tokenHash =>
          have hselect : (db.mcpBearers.select fun r => r.tokenHash = tokenHash) = [] := by
            rw [Table.select, List.filter_eq_nil_iff]
            intro b hb heq
            exact hnone b hb ⟨token, hparse, by rw [hhash, of_decide_eq_true heq]⟩
          simp [authenticate, parseBearer_ne_empty hparse, hhash, hselect]

theorem mem_joinActive {tokenHash : String} {user : User} {b : McpBearer} :
    (user, b) ∈ joinActive db tokenHash ↔
      user ∈ db.users.rows ∧ b ∈ db.mcpBearers.rows ∧ b.userId = user.id ∧
        b.tokenHash = tokenHash ∧ b.revokedAt = none := by
  simp only [joinActive, List.mem_flatMap, List.mem_map, Table.mem_select, decide_eq_true_eq,
    Prod.mk.injEq]
  constructor
  · rintro ⟨u, hu, r, ⟨hr, hactive⟩, rfl, rfl⟩
    exact ⟨hu, hr, hactive⟩
  · rintro ⟨hu, hb, hactive⟩
    exact ⟨user, hu, b, ⟨hb, hactive⟩, rfl, rfl⟩

/-- The dependency accepts the owner of an active bearer that the header
presents, and nobody else. -/
theorem getCurrentUserMcp_accepted_iff (hunique : HashesUnique db)
    {authorization : Option String} {user : User} :
    (getCurrentUserMcp sha256Hex now bumped db authorization).1 = .accepted user ↔
      user ∈ db.users.rows ∧ ∃ b ∈ db.mcpBearers.rows, Presents sha256Hex authorization b ∧
        b.revokedAt = none ∧ b.userId = user.id := by
  cases hparse : tokenOfHeader authorization with
  | error reason =>
      have hnone : ¬ ∃ token, parseBearer authorization = some token := by
        rintro ⟨token, htoken⟩
        cases hparse.symm.trans (tokenOfHeader_ok_iff.mpr htoken)
      simp only [getCurrentUserMcp, hparse, reduceCtorEq, false_iff]
      rintro ⟨-, b, -, ⟨token, htoken, -⟩, -⟩
      exact hnone ⟨token, htoken⟩
  | ok token =>
      have htoken := tokenOfHeader_ok_iff.mp hparse
      have hpresents : ∀ b, Presents sha256Hex authorization b ↔
          hashBearer sha256Hex token = some b.tokenHash := by
        intro b
        simp [Presents, htoken]
      simp only [getCurrentUserMcp, hparse, verifyBearer, parseBearer_ne_empty htoken, hpresents,
        Bool.false_eq_true, if_false]
      cases hhash : hashBearer sha256Hex token with
      | none => simp
      | some tokenHash =>
          simp only [Option.some.injEq]
          cases hjoin : joinActive db tokenHash with
          | nil =>
              simp only [reduceCtorEq, false_iff]
              rintro ⟨huser, b, hb, rfl, hactive, howner⟩
              have hmem := mem_joinActive.mpr ⟨huser, hb, howner, rfl, hactive⟩
              rw [hjoin] at hmem
              cases hmem
          | cons found rest =>
              obtain ⟨huser₀, hb₀, howner₀, hhash₀, hactive₀⟩ :=
                mem_joinActive.mp (hjoin ▸ List.mem_cons_self : (found.1, found.2) ∈ _)
              simp only [GateAnswer.accepted.injEq]
              constructor
              · rintro rfl
                exact ⟨huser₀, found.2, hb₀, hhash₀.symm, hactive₀, howner₀⟩
              · rintro ⟨huser, b, hb, hbhash, hactive, howner⟩
                obtain rfl := hunique _ hb₀ _ hb (hhash₀.trans hbhash)
                exact Table.eq_of_key_eq huser₀ huser (howner₀.symm.trans howner)

/-- The middleware accepts the owner of an active bearer that the header
presents, and nobody else. -/
theorem bearerAuthMiddleware_accepted_iff (hunique : HashesUnique db)
    {authorization : Option String} {u i : Uuid} :
    (bearerAuthMiddleware sha256Hex now bumped db authorization).1 = .accepted (u, i) ↔
      ∃ b ∈ db.mcpBearers.rows, Presents sha256Hex authorization b ∧ b.revokedAt = none ∧
        b.userId = u ∧ b.id = i := by
  constructor
  · intro haccepted
    by_contra hnone
    by_cases hpresented : ∃ b ∈ db.mcpBearers.rows, Presents sha256Hex authorization b
    · obtain ⟨b, hb, hpresents⟩ := hpresented
      rw [bearerAuthMiddleware_presents hunique hb hpresents] at haccepted
      split at haccepted
      · cases haccepted
      · rename_i hactive
        obtain ⟨hu, hi⟩ := Prod.mk.inj (GateAnswer.accepted.inj haccepted)
        exact hnone ⟨b, hb, hpresents, not_not.mp hactive, hu, hi⟩
    · exact (bearerAuthMiddleware_unknown fun b hb hpresents =>
        hpresented ⟨b, hb, hpresents⟩).1 _ haccepted
  · rintro ⟨b, hb, hpresents, hactive, rfl, rfl⟩
    rw [bearerAuthMiddleware_presents hunique hb hpresents, if_neg (not_not.mpr hactive)]

/-- The middleware reports a revoked bearer when the header presents one. -/
theorem bearerAuthMiddleware_revoked_iff (hunique : HashesUnique db)
    {authorization : Option String} :
    (∃ reason, (bearerAuthMiddleware sha256Hex now bumped db authorization).1 =
        .unauthorized "MCP_BEARER_REVOKED" reason) ↔
      ∃ b ∈ db.mcpBearers.rows, Presents sha256Hex authorization b ∧ b.revokedAt ≠ none := by
  constructor
  · rintro ⟨reason, hanswer⟩
    by_contra hnone
    by_cases hpresented : ∃ b ∈ db.mcpBearers.rows, Presents sha256Hex authorization b
    · obtain ⟨b, hb, hpresents⟩ := hpresented
      rw [bearerAuthMiddleware_presents hunique hb hpresents] at hanswer
      split at hanswer
      · rename_i hrevoked
        exact hnone ⟨b, hb, hpresents, hrevoked⟩
      · cases hanswer
    · exact (bearerAuthMiddleware_unknown fun b hb hpresents =>
        hpresented ⟨b, hb, hpresents⟩).2 reason hanswer
  · rintro ⟨b, hb, hpresents, hrevoked⟩
    exact ⟨_, (bearerAuthMiddleware_presents hunique hb hpresents).trans (if_pos hrevoked)⟩

/-- Both gates let a request through as the owner of the active bearer whose
hash its token has, and the middleware reports a revoked bearer when the token
has the hash of one. -/
theorem gates_agree (hunique : HashesUnique db) (howned : BearersOwned db) (at₁ at₂ : ℤ)
    (bumped₁ bumped₂ : Bool) (authorization : Option String) :
    (∀ u, (∃ i, (bearerAuthMiddleware sha256Hex at₁ bumped₁ db authorization).1 =
        .accepted (u, i)) ↔
      ∃ user, user.id = u ∧
        (getCurrentUserMcp sha256Hex at₂ bumped₂ db authorization).1 = .accepted user) ∧
    (∀ u, (∃ i, (bearerAuthMiddleware sha256Hex at₁ bumped₁ db authorization).1 =
        .accepted (u, i)) ↔
      ∃ b ∈ db.mcpBearers.rows, Presents sha256Hex authorization b ∧ b.revokedAt = none ∧
        b.userId = u) ∧
    ((∃ reason, (bearerAuthMiddleware sha256Hex at₁ bumped₁ db authorization).1 =
        .unauthorized "MCP_BEARER_REVOKED" reason) ↔
      ∃ b ∈ db.mcpBearers.rows, Presents sha256Hex authorization b ∧ b.revokedAt ≠ none) := by
  have hmiddleware : ∀ u, (∃ i, (bearerAuthMiddleware sha256Hex at₁ bumped₁ db authorization).1 =
      .accepted (u, i)) ↔ ∃ b ∈ db.mcpBearers.rows, Presents sha256Hex authorization b ∧
        b.revokedAt = none ∧ b.userId = u := by
    intro u
    simp only [bearerAuthMiddleware_accepted_iff hunique]
    constructor
    · rintro ⟨-, b, hb, hpresents, hactive, howner, -⟩
      exact ⟨b, hb, hpresents, hactive, howner⟩
    · rintro ⟨b, hb, hpresents, hactive, howner⟩
      exact ⟨b.id, b, hb, hpresents, hactive, howner, rfl⟩
  refine ⟨fun u => (hmiddleware u).trans ?_, hmiddleware, bearerAuthMiddleware_revoked_iff hunique⟩
  simp only [getCurrentUserMcp_accepted_iff hunique]
  constructor
  · rintro ⟨b, hb, hpresents, hactive, rfl⟩
    obtain ⟨user, huser, hid⟩ := howned b hb
    exact ⟨user, hid, huser, b, hb, hpresents, hactive, hid.symm⟩
  · rintro ⟨user, rfl, -, b, hb, hpresents, hactive, howner⟩
    exact ⟨b, hb, hpresents, hactive, howner⟩

end Agreement

/-- One user with a bearer, stored under the hash that the identity gives. -/
def storedUser : User := ⟨1, 1, "user@x", "User", 0, 0⟩

def storedBearer : McpBearer := ⟨2, 1, "abc", none, 0, none, none⟩

def storedDb : Database :=
  { (default : Database) with
    users := ⟨[storedUser], List.nodup_singleton _⟩
    mcpBearers := ⟨[storedBearer], List.nodup_singleton _⟩ }

/-- Stands for SHA-256 in concrete runs. -/
def plainHash (bytes : Bytes) : String := String.ofList (bytes.map fun b => Char.ofNat b.toNat)

theorem gates_agree_stored :
    ∃ user, user.id = 1 ∧
      (getCurrentUserMcp plainHash 0 true storedDb (some "bearer  abc ")).1 = .accepted user := by
  have hunique : HashesUnique storedDb := by
    intro a ha b hb _
    rw [List.mem_singleton.mp ha, List.mem_singleton.mp hb]
  have howned : BearersOwned storedDb := by
    intro b hb
    rw [List.mem_singleton.mp hb]
    exact ⟨storedUser, List.mem_singleton_self _, rfl⟩
  have hagree := @gates_agree plainHash storedDb hunique howned 0 0 true true (some "bearer  abc ")
  apply (hagree.1 1).mp
  apply (hagree.2.1 1).mpr
  exact ⟨storedBearer, List.mem_singleton_self _, ⟨"abc", by decide +kernel, by decide +kernel⟩,
    rfl, rfl⟩

end TranscriptionApi.Auth
