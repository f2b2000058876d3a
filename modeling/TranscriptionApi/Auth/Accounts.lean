import TranscriptionApi.Auth.Bearer
import TranscriptionApi.Db.Models

/-!
Users and their MCP bearers: the transactions of a login and of
`regenerate-mcp-token`, over the three tables and their unique constraints. A
violated constraint rolls the transaction back.

What the constraints keep, `Accounts`, is that no hash is stored twice, that a
user has at most one bearer that is not revoked, and, as the transactions
insert one in time, that every user has one.
-/

namespace TranscriptionApi.Auth

open Db Lib Python

/-- What `secrets.token_urlsafe` draws. -/
structure Token where
  text : String
  ascii : text.toList.all (fun c => c.toNat < 128) = true
  nonempty : text ≠ ""
  deriving DecidableEq

/-- The hash `generate_bearer` returns with the token. -/
def Token.hash (sha256Hex : Bytes → String) (t : Token) : String :=
  sha256Hex (t.text.toList.map fun c => UInt8.ofNat c.toNat)

theorem hashBearer_token (sha256Hex : Bytes → String) (t : Token) :
    hashBearer sha256Hex t.text = some (t.hash sha256Hex) := by
  simp [hashBearer, encodeAscii, t.ascii, Token.hash]

/-- What the provider says of the person who logs in, its tokens encrypted. -/
structure Identity where
  oid : Uuid
  email : String
  displayName : String
  accessToken : Bytes
  refreshToken : Bytes
  expiresIn : ℤ
  deriving DecidableEq

/-- What a first login draws. -/
structure LoginDraws where
  userId : Uuid
  tokenId : Uuid
  bearerId : Uuid
  bearer : Token
  deriving DecidableEq

/-- What one attempt to regenerate draws. -/
structure BearerDraw where
  id : Uuid
  bearer : Token

/-! ### Unique constraints -/

/-- `microsoft_oid` and `email` are unique. -/
def insertUser (t : Table User User.id) (row : User) : Option (Table User User.id) :=
  if t.rows.any fun r => r.microsoftOid = row.microsoftOid ∨ r.email = row.email then none
  else t.insert? row

/-- `user_id` is unique. -/
def insertOAuthToken (t : Table OAuthToken OAuthToken.id) (row : OAuthToken) :
    Option (Table OAuthToken OAuthToken.id) :=
  if t.rows.any fun r => r.userId = row.userId then none else t.insert? row

/-- Two bearers that cannot both be stored: `token_hash` is unique, and
`uq_mcp_bearers_active_per_user` is a unique index on the bearers that are not
revoked. -/
def clash (a b : McpBearer) : Bool :=
  a.tokenHash = b.tokenHash ∨ a.userId = b.userId ∧ a.revokedAt = none ∧ b.revokedAt = none

def insertBearer (t : Table McpBearer McpBearer.id) (row : McpBearer) :
    Option (Table McpBearer McpBearer.id) :=
  if t.rows.any fun r => clash r row then none else t.insert? row

/-! ### Transactions -/

/-- The row of a new bearer. -/
def bearerRow (sha256Hex : Bytes → String) (now : ℤ) (userId id : Uuid) (bearer : Token)
    (name : String) : McpBearer where
  id := id
  userId := userId
  tokenHash := bearer.hash sha256Hex
  name := some name
  createdAt := now
  lastUsedAt := none
  revokedAt := none

/-- The first login of an identity: a user, the provider's tokens, a bearer. -/
def createUser (sha256Hex : Bytes → String) (now : ℤ) (who : Identity) (draws : LoginDraws)
    (db : Database) : Option (User × Database) :=
  let user : User :=
    { id := draws.userId
      microsoftOid := who.oid
      email := who.email
      displayName := who.displayName
      createdAt := now
      lastLoginAt := now }
  let token : OAuthToken :=
    { id := draws.tokenId
      userId := draws.userId
      msAccessTokenEncrypted := who.accessToken
      msRefreshTokenEncrypted := who.refreshToken
      msAccessExpiresAt := now + seconds who.expiresIn
      createdAt := now
      updatedAt := now }
  let bearer := bearerRow sha256Hex now draws.userId draws.bearerId draws.bearer "initial"
  match insertUser db.users user, insertOAuthToken db.oauthTokens token,
      insertBearer db.mcpBearers bearer with
  | some users, some oauthTokens, some mcpBearers =>
      some (user, { db with users, oauthTokens, mcpBearers })
  | _, _, _ => none

/-- A later login: `last_login_at` and the provider's tokens. -/
def refreshUser (now : ℤ) (who : Identity) (user : User) (db : Database) : Database :=
  { db with
    users := db.users.update (fun r => r.id = user.id) (fun r => { r with lastLoginAt := now })
      fun _ => rfl
    oauthTokens := db.oauthTokens.update (fun r => r.userId = user.id)
      (fun r =>
        { r with
          msAccessTokenEncrypted := who.accessToken
          msRefreshTokenEncrypted := who.refreshToken
          msAccessExpiresAt := now + seconds who.expiresIn
          updatedAt := now })
      fun _ => rfl }

/-- Step 5 of `callback`: the user, and the bearer of a first login. -/
def upsertUser (sha256Hex : Bytes → String) (now : ℤ) (who : Identity) (draws : LoginDraws)
    (db : Database) : Option (User × Option Token × Database) :=
  match db.users.select fun r => r.microsoftOid = who.oid with
  | user :: _ => some (user, none, refreshUser now who user db)
  | [] => (createUser sha256Hex now who draws db).map fun r => (r.1, some draws.bearer, r.2)

/-- The UPDATE that revokes the user's active bearer. -/
def revokeActive (now : ℤ) (userId : Uuid) (t : Table McpBearer McpBearer.id) :
    Table McpBearer McpBearer.id :=
  t.update (fun b => b.userId = userId ∧ b.revokedAt = none)
    (fun b => { b with revokedAt := some now }) fun _ => rfl

/-- One attempt of `regenerate_mcp_token`. -/
def regenerateOnce (sha256Hex : Bytes → String) (now : ℤ) (userId : Uuid) (draw : BearerDraw)
    (db : Database) : Option (McpBearer × Database) :=
  let row := bearerRow sha256Hex now userId draw.id draw.bearer "regenerated"
  (insertBearer (revokeActive now userId db.mcpBearers) row).map fun t =>
    (row, { db with mcpBearers := t })

/-- `regenerate_mcp_token`: a second attempt after an `IntegrityError`. -/
def regenerateMcpToken (sha256Hex : Bytes → String) (now : ℤ) (userId : Uuid)
    (first second : BearerDraw) (db : Database) : Option (McpBearer × Token × Database) :=
  match regenerateOnce sha256Hex now userId first db with
  | some (row, db') => some (row, first.bearer, db')
  | none =>
      (regenerateOnce sha256Hex now userId second db).map fun r => (r.1, second.bearer, r.2)

/-! ### What the constraints keep -/

structure Accounts (db : Database) : Prop where
  /-- the unique hash -/
  hashes : ∀ a ∈ db.mcpBearers.rows, ∀ b ∈ db.mcpBearers.rows, a.tokenHash = b.tokenHash → a = b
  /-- the partial unique index -/
  oneActive : ∀ a ∈ db.mcpBearers.rows, ∀ b ∈ db.mcpBearers.rows, a.userId = b.userId →
    a.revokedAt = none → b.revokedAt = none → a = b
  active : ∀ u ∈ db.users.rows, ∃ b ∈ db.mcpBearers.rows, b.userId = u.id ∧ b.revokedAt = none

section

variable {t t' : Table McpBearer McpBearer.id} {row : McpBearer}

theorem insertBearer_eq_some (h : insertBearer t row = some t') :
    t'.rows = t.rows ++ [row] ∧ ∀ r ∈ t.rows, r.tokenHash ≠ row.tokenHash ∧
      ¬ (r.userId = row.userId ∧ r.revokedAt = none ∧ row.revokedAt = none) := by
  unfold insertBearer at h
  split at h
  · cases h
  · rename_i hfree
    refine ⟨(Table.insert?_eq_some h).1, fun r hr => ?_⟩
    have hclash : clash r row = false := by
      rw [List.any_eq_true] at hfree
      exact Bool.eq_false_iff.mpr fun hclash => hfree ⟨r, hr, hclash⟩
    rw [clash, decide_eq_false_iff_not, not_or] at hclash
    exact hclash

/-- No two bearers in the table clash. -/
theorem pairwise_insertBearer (h : insertBearer t row = some t')
    (hashes : ∀ a ∈ t.rows, ∀ b ∈ t.rows, a.tokenHash = b.tokenHash → a = b)
    (oneActive : ∀ a ∈ t.rows, ∀ b ∈ t.rows, a.userId = b.userId → a.revokedAt = none →
      b.revokedAt = none → a = b) :
    (∀ a ∈ t'.rows, ∀ b ∈ t'.rows, a.tokenHash = b.tokenHash → a = b) ∧
      ∀ a ∈ t'.rows, ∀ b ∈ t'.rows, a.userId = b.userId → a.revokedAt = none →
        b.revokedAt = none → a = b := by
  obtain ⟨hrows, hfree⟩ := insertBearer_eq_some h
  simp only [hrows, List.mem_append, List.mem_singleton]
  constructor
  · rintro a (ha | rfl) b (hb | rfl) hab
    · exact hashes a ha b hb hab
    · exact absurd hab (hfree a ha).1
    · exact absurd hab.symm (hfree b hb).1
    · rfl
  · rintro a (ha | rfl) b (hb | rfl) hab hna hnb
    · exact oneActive a ha b hb hab hna hnb
    · exact absurd ⟨hab, hna, hnb⟩ (hfree a ha).2
    · exact absurd ⟨hab.symm, hnb, hna⟩ (hfree b hb).2
    · rfl

end

section

variable {sha256Hex : Bytes → String} {now : ℤ} {db db' : Database}

/-- What the UPDATE makes of one bearer. -/
def revoked (now : ℤ) (userId : Uuid) (b : McpBearer) : McpBearer :=
  if b.userId = userId ∧ b.revokedAt = none then { b with revokedAt := some now } else b

theorem revokeActive_rows (u : Uuid) (t : Table McpBearer McpBearer.id) :
    (revokeActive now u t).rows = t.rows.map (revoked now u) := by
  simp only [revokeActive, Table.update, decide_eq_true_eq]
  rfl

@[simp] theorem revoked_userId (u : Uuid) (b : McpBearer) :
    (revoked now u b).userId = b.userId := by
  unfold revoked
  split
  · rfl
  · rfl

@[simp] theorem revoked_tokenHash (u : Uuid) (b : McpBearer) :
    (revoked now u b).tokenHash = b.tokenHash := by
  unfold revoked
  split
  · rfl
  · rfl

/-- After the UPDATE a bearer is active if it was so and is another user's. -/
theorem revoked_revokedAt (u : Uuid) (b : McpBearer) :
    (revoked now u b).revokedAt = none ↔ b.revokedAt = none ∧ b.userId ≠ u := by
  unfold revoked
  split
  · rename_i h
    simp [h.1]
  · rename_i h
    simp only [not_and] at h
    exact ⟨fun hb => ⟨hb, fun hu => h hu hb⟩, fun hb => hb.1⟩

/-- What one attempt that succeeds leaves in the tables. -/
theorem regenerateOnce_eq_some {u : Uuid} {draw : BearerDraw} {row : McpBearer}
    (h : regenerateOnce sha256Hex now u draw db = some (row, db')) :
    row = bearerRow sha256Hex now u draw.id draw.bearer "regenerated" ∧
      db'.users = db.users ∧
      db'.mcpBearers.rows = db.mcpBearers.rows.map (revoked now u) ++ [row] := by
  obtain ⟨t, ht, heq⟩ := Option.map_eq_some_iff.mp h
  obtain ⟨rfl, rfl⟩ := Prod.mk.inj heq
  refine ⟨rfl, rfl, ?_⟩
  rw [(insertBearer_eq_some ht).1, revokeActive_rows]

theorem accounts_regenerateOnce (hdb : Accounts db) {u : Uuid} {draw : BearerDraw}
    {row : McpBearer} (h : regenerateOnce sha256Hex now u draw db = some (row, db')) :
    Accounts db' := by
  obtain ⟨hrow, husers, hrows⟩ := regenerateOnce_eq_some h
  obtain ⟨t, ht, heq⟩ := Option.map_eq_some_iff.mp h
  obtain ⟨rfl, rfl⟩ := Prod.mk.inj heq
  obtain ⟨hhashes, honeActive⟩ := pairwise_insertBearer ht
    (by
      simp only [revokeActive_rows, List.mem_map]
      rintro _ ⟨a, ha, rfl⟩ _ ⟨b, hb, rfl⟩ hab
      rw [revoked_tokenHash, revoked_tokenHash] at hab
      rw [hdb.hashes a ha b hb hab])
    (by
      simp only [revokeActive_rows, List.mem_map]
      rintro _ ⟨a, ha, rfl⟩ _ ⟨b, hb, rfl⟩ hab hna hnb
      rw [revoked_userId, revoked_userId] at hab
      rw [revoked_revokedAt] at hna hnb
      rw [hdb.oneActive a ha b hb hab hna.1 hnb.1])
  refine ⟨hhashes, honeActive, fun user huser => ?_⟩
  obtain ⟨b, hb, hid, hactive⟩ := hdb.active user huser
  rw [hrows]
  by_cases hu : user.id = u
  · exact ⟨_, List.mem_append_right _ List.mem_cons_self, hu.symm, rfl⟩
  · refine ⟨revoked now u b, ?_, ?_, ?_⟩
    · exact List.mem_append_left _ (List.mem_map_of_mem hb)
    · rw [revoked_userId, hid]
    · exact (revoked_revokedAt u b).mpr ⟨hactive, hid ▸ hu⟩

/-- What a first login leaves in the tables. -/
theorem createUser_eq_some {who : Identity} {draws : LoginDraws} {user : User}
    (h : createUser sha256Hex now who draws db = some (user, db')) :
    user.id = draws.userId ∧ db'.users.rows = db.users.rows ++ [user] ∧
      insertBearer db.mcpBearers
        (bearerRow sha256Hex now draws.userId draws.bearerId draws.bearer "initial") =
          some db'.mcpBearers := by
  simp only [createUser] at h
  split at h
  · rename_i users tokens bearers hu ht hb
    cases h
    refine ⟨rfl, ?_, hb⟩
    unfold insertUser at hu
    split at hu
    · cases hu
    · exact (Table.insert?_eq_some hu).1
  · cases h

/-- The draws and the rows that are there leave room for a first login. -/
structure Registrable (sha256Hex : Bytes → String) (oid : Uuid) (email : String)
    (draws : LoginDraws) (db : Database) : Prop where
  person : ∀ r ∈ db.users.rows, ¬ (r.microsoftOid = oid ∨ r.email = email) ∧ r.id ≠ draws.userId
  token : ∀ r ∈ db.oauthTokens.rows, r.userId ≠ draws.userId ∧ r.id ≠ draws.tokenId
  bearer : ∀ r ∈ db.mcpBearers.rows, ¬ (r.tokenHash = draws.bearer.hash sha256Hex ∨
    r.userId = draws.userId ∧ r.revokedAt = none) ∧ r.id ≠ draws.bearerId

/-- The user that a first login stores. -/
theorem user_of_createUser {who : Identity} {draws : LoginDraws} {user : User}
    (h : createUser sha256Hex now who draws db = some (user, db')) :
    user = ⟨draws.userId, who.oid, who.email, who.displayName, now, now⟩ := by
  simp only [createUser] at h
  split at h
  · cases h
    rfl
  · cases h

theorem isSome_insertUser_iff (t : Table User User.id) (row : User) :
    (insertUser t row).isSome ↔
      ∀ r ∈ t.rows, ¬ (r.microsoftOid = row.microsoftOid ∨ r.email = row.email) ∧
        r.id ≠ row.id := by
  simp only [insertUser, Table.isSome_insert?_unless_iff, decide_eq_false_iff_not]

theorem isSome_insertOAuthToken_iff (t : Table OAuthToken OAuthToken.id) (row : OAuthToken) :
    (insertOAuthToken t row).isSome ↔ ∀ r ∈ t.rows, r.userId ≠ row.userId ∧ r.id ≠ row.id := by
  simp only [insertOAuthToken, Table.isSome_insert?_unless_iff, decide_eq_false_iff_not]

theorem isSome_insertBearer_iff (t : Table McpBearer McpBearer.id) (row : McpBearer) :
    (insertBearer t row).isSome ↔ ∀ r ∈ t.rows, clash r row = false ∧ r.id ≠ row.id :=
  Table.isSome_insert?_unless_iff

theorem isSome_createUser_iff {who : Identity} {draws : LoginDraws} :
    (createUser sha256Hex now who draws db).isSome ↔
      Registrable sha256Hex who.oid who.email draws db := by
  have hbearer := isSome_insertBearer_iff db.mcpBearers
    (bearerRow sha256Hex now draws.userId draws.bearerId draws.bearer "initial")
  simp only [clash, bearerRow, and_true, decide_eq_false_iff_not] at hbearer
  simp only [createUser]
  split
  · rename_i hu ht hb
    refine iff_of_true rfl ⟨?_, ?_, ?_⟩
    · exact (isSome_insertUser_iff ..).mp (Option.isSome_of_eq_some hu)
    · exact (isSome_insertOAuthToken_iff ..).mp (Option.isSome_of_eq_some ht)
    · exact hbearer.mp (Option.isSome_of_eq_some hb)
  · rename_i hnone
    refine iff_of_false Bool.false_ne_true fun h => ?_
    have huser := (isSome_insertUser_iff db.users
      ⟨draws.userId, who.oid, who.email, who.displayName, now, now⟩).mpr h.person
    have htoken := (isSome_insertOAuthToken_iff db.oauthTokens
      ⟨draws.tokenId, draws.userId, who.accessToken, who.refreshToken,
        now + seconds who.expiresIn, now, now⟩).mpr h.token
    obtain ⟨users, hu⟩ := Option.isSome_iff_exists.mp huser
    obtain ⟨tokens, ht⟩ := Option.isSome_iff_exists.mp htoken
    obtain ⟨bearers, hb⟩ := Option.isSome_iff_exists.mp (hbearer.mpr h.bearer)
    exact hnone users tokens bearers hu ht hb

theorem accounts_createUser (hdb : Accounts db) {who : Identity} {draws : LoginDraws}
    {user : User} (h : createUser sha256Hex now who draws db = some (user, db')) :
    Accounts db' := by
  obtain ⟨hid, husers, hbearer⟩ := createUser_eq_some h
  obtain ⟨hhashes, honeActive⟩ := pairwise_insertBearer hbearer hdb.hashes hdb.oneActive
  refine ⟨hhashes, honeActive, fun u hu => ?_⟩
  rw [husers, List.mem_append, List.mem_singleton] at hu
  rw [(insertBearer_eq_some hbearer).1]
  rcases hu with hu | rfl
  · obtain ⟨b, hb, hown, hactive⟩ := hdb.active u hu
    exact ⟨b, List.mem_append_left _ hb, hown, hactive⟩
  · exact ⟨_, List.mem_append_right _ List.mem_cons_self, hid.symm, rfl⟩

theorem accounts_refreshUser (hdb : Accounts db) (who : Identity) (user : User) :
    Accounts (refreshUser now who user db) where
  hashes := hdb.hashes
  oneActive := hdb.oneActive
  active := fun u hu => by
    obtain ⟨u₀, hu₀, rfl⟩ :=
      (Table.mem_update (f := fun r : User => { r with lastLoginAt := now }) fun _ => rfl).mp hu
    obtain ⟨b, hb, hown, hactive⟩ := hdb.active u₀ hu₀
    refine ⟨b, hb, hown.trans ?_, hactive⟩
    split
    · rfl
    · rfl

/-- The two ways a login can go. -/
theorem upsertUser_eq_some {who : Identity} {draws : LoginDraws} {user : User}
    {bearer : Option Token} (h : upsertUser sha256Hex now who draws db = some (user, bearer, db')) :
    (bearer = none ∧ db' = refreshUser now who user db) ∨
      (bearer = some draws.bearer ∧ createUser sha256Hex now who draws db = some (user, db')) := by
  unfold upsertUser at h
  split at h
  · cases h
    exact .inl ⟨rfl, rfl⟩
  · obtain ⟨r, hr, heq⟩ := Option.map_eq_some_iff.mp h
    cases heq
    exact .inr ⟨rfl, hr⟩

/-- The attempt that succeeded. -/
theorem regenerateMcpToken_eq_some {u : Uuid} {first second : BearerDraw} {row : McpBearer}
    {bearer : Token}
    (h : regenerateMcpToken sha256Hex now u first second db = some (row, bearer, db')) :
    ∃ draw : BearerDraw, bearer = draw.bearer ∧
      regenerateOnce sha256Hex now u draw db = some (row, db') := by
  unfold regenerateMcpToken at h
  split at h
  · rename_i hfirst
    cases h
    exact ⟨first, rfl, hfirst⟩
  · obtain ⟨r, hr, heq⟩ := Option.map_eq_some_iff.mp h
    cases heq
    exact ⟨second, rfl, hr⟩

end

end TranscriptionApi.Auth
