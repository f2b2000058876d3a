import TranscriptionApi.Auth.Accounts
import TranscriptionApi.Lib.ReadCommitted
import TranscriptionApi.Lib.Transition

/-!
`/auth/callback` and `/auth/regenerate-mcp-token` side by side, statement by
statement, as PostgreSQL runs them under READ COMMITTED.

An UPDATE takes its candidates from the rows committed when it starts. It then
locks one after the other, waiting for whoever has changed it, and looks at it
once more; a bearer that came in the meantime is none of its candidates. An
INSERT waits for an open transaction that holds one of its unique keys, inserted
or revoked. A violated constraint rolls the transaction back: a callback then
fails, `regenerate_mcp_token` tries a second time.

Any await may also raise for other reasons: a deadlock, a lost connection, a
cancelled request. The await of the COMMIT may do so before or after the COMMIT
has taken effect. And after it a request is not through: `regenerate_mcp_token`
reads the new row back, and a callback signs its session cookie. Where these
raise, the request fails and what it has committed stays.
-/

namespace TranscriptionApi.Auth

open Db Lib Python

/-- Rows, by their primary key, and entries of unique indexes. -/
inductive Key where
  | user (i : Uuid)
  | oid (i : Uuid)
  | email (text : String)
  | token (i : Uuid)
  | tokenOf (u : Uuid)
  | bearer (i : Uuid)
  | hash (text : String)
  /-- the entry in `uq_mcp_bearers_active_per_user` -/
  | active (u : Uuid)
  deriving DecidableEq

/-- What the statements write, row by row. -/
inductive AccountWrite where
  | insertUser (row : User)
  | insertOAuthToken (row : OAuthToken)
  | insertBearer (row : McpBearer)
  | revoke (i u : Uuid) (at_ : ℤ)
  | touchUser (i : Uuid) (at_ : ℤ)
  | touchTokens (u : Uuid) (who : Identity) (at_ : ℤ)
  deriving DecidableEq

/-- Revoke bearer `i` of user `u`. -/
def revokeBearer (i u : Uuid) (at_ : ℤ) (b : McpBearer) : McpBearer :=
  if b.id = i ∧ b.userId = u ∧ b.revokedAt = none then { b with revokedAt := some at_ } else b

namespace AccountWrite

/-! The UPDATEs of a login keep the keys. -/

theorem id_touchUser (at_ : ℤ) (r : User) : { r with lastLoginAt := at_ }.id = r.id := rfl

theorem id_touchTokens (who : Identity) (at_ : ℤ) (r : OAuthToken) :
    { r with
      msAccessTokenEncrypted := who.accessToken
      msRefreshTokenEncrypted := who.refreshToken
      msAccessExpiresAt := at_ + seconds who.expiresIn
      updatedAt := at_ }.id = r.id := rfl

def apply : AccountWrite → Database → Option Database
  | .insertUser row, db => (Auth.insertUser db.users row).map fun t => { db with users := t }
  | .insertOAuthToken row, db =>
      (Auth.insertOAuthToken db.oauthTokens row).map fun t => { db with oauthTokens := t }
  | .insertBearer row, db =>
      (Auth.insertBearer db.mcpBearers row).map fun t => { db with mcpBearers := t }
  | .revoke i u at_, db =>
      some { db with
        mcpBearers := db.mcpBearers.update (fun _ => true) (revokeBearer i u at_) fun b => by
          unfold revokeBearer
          split
          · rfl
          · rfl }
  | .touchUser i at_, db =>
      some { db with
        users := db.users.update (fun r => r.id = i) (fun r => { r with lastLoginAt := at_ })
          (id_touchUser at_) }
  | .touchTokens u who at_, db =>
      some { db with
        oauthTokens := db.oauthTokens.update (fun r => r.userId = u)
          (fun r =>
            { r with
              msAccessTokenEncrypted := who.accessToken
              msRefreshTokenEncrypted := who.refreshToken
              msAccessExpiresAt := at_ + seconds who.expiresIn
              updatedAt := at_ })
          (id_touchTokens who at_) }

def keys : AccountWrite → List Key
  | .insertUser row => [.user row.id, .oid row.microsoftOid, .email row.email]
  | .insertOAuthToken row => [.token row.id, .tokenOf row.userId]
  | .insertBearer row => [.bearer row.id, .hash row.tokenHash, .active row.userId]
  | .revoke i u _ => [.bearer i, .active u]
  | .touchUser i _ => [.user i]
  | .touchTokens u _ _ => [.tokenOf u]

end AccountWrite

def accounts : Writes Database AccountWrite Key := ⟨AccountWrite.apply, AccountWrite.keys⟩

/-- What the SELECT of a callback finds. -/
inductive Login where
  | first (who : Identity) (draws : LoginDraws) (at_ : ℤ)
  | later (who : Identity) (user : User) (at_ : ℤ)
  deriving DecidableEq

/-- The rows of a first login. -/
def userRow (who : Identity) (draws : LoginDraws) (at_ : ℤ) : User where
  id := draws.userId
  microsoftOid := who.oid
  email := who.email
  displayName := who.displayName
  createdAt := at_
  lastLoginAt := at_

def tokenRow (who : Identity) (draws : LoginDraws) (at_ : ℤ) : OAuthToken where
  id := draws.tokenId
  userId := draws.userId
  msAccessTokenEncrypted := who.accessToken
  msRefreshTokenEncrypted := who.refreshToken
  msAccessExpiresAt := at_ + seconds who.expiresIn
  createdAt := at_
  updatedAt := at_

/-- The statements of a callback, in order. -/
def Login.statements (sha256Hex : Bytes → String) : Login → List AccountWrite
  | .first who draws at_ =>
      [.insertUser (userRow who draws at_), .insertOAuthToken (tokenRow who draws at_),
        .insertBearer
          (bearerRow sha256Hex at_ draws.userId draws.bearerId draws.bearer "initial")]
  | .later who user at_ => [.touchUser user.id at_, .touchTokens user.id who at_]

inductive AuthAnswer where
  /-- 200 with the plaintext of the new bearer -/
  | bearer (u : Uuid) (plaintext : Token)
  /-- 302 to `/mcp-setup` -/
  | redirect (login : Login)
  /-- an error, or an exception that leaves the handler -/
  | failed
  deriving DecidableEq

/-- Where a request is. -/
inductive RequestPhase where
  /-- before the UPDATE of an attempt to regenerate -/
  | revoke (u : Uuid) (last : Bool)
  /-- the UPDATE has yet to lock these bearers -/
  | revoking (u : Uuid) (last : Bool) (found : List Uuid)
  /-- the new bearer is inserted -/
  | regenerated (u : Uuid) (plaintext : Token)
  /-- a callback with these statements left -/
  | login (how : Login) (left : List AccountWrite)
  /-- the COMMIT is done, the answer is still to be made -/
  | committed (answer : AuthAnswer)
  | ended (answer : AuthAnswer)
  deriving DecidableEq

/-- What a request that is before its COMMIT is going to answer. -/
def RequestPhase.commits : RequestPhase → Option AuthAnswer
  | .regenerated u plaintext => some (.bearer u plaintext)
  | .login how [] => some (.redirect how)
  | _ => none

structure Traffic where
  tables : Transactions Database AccountWrite Key
  requests : ℕ → Option RequestPhase

inductive TrafficEvent where
  /-- a callback up to its SELECT -/
  | callback (p : ℕ) (at_ : ℤ) (who : Identity) (draws : LoginDraws)
  /-- `regenerate_mcp_token` up to its UPDATE -/
  | regenerate (p : ℕ) (u : Uuid)
  /-- the next statement; an INSERT of a new bearer uses the draw -/
  | turn (p : ℕ) (at_ : ℤ) (draw : BearerDraw)
  /-- the await the request is in raises -/
  | fail (p : ℕ)
  /-- the COMMIT takes effect, and its await raises -/
  | lostCommit (p : ℕ)

/-- The request the event is about. -/
def TrafficEvent.actor : TrafficEvent → ℕ
  | .callback p _ _ _ => p
  | .regenerate p _ => p
  | .turn p _ _ => p
  | .fail p => p
  | .lostCommit p => p

namespace Traffic

def goto (s : Traffic) (p : ℕ) (phase : RequestPhase) : Traffic :=
  { s with requests := Function.update s.requests p (some phase) }

/-- The transaction is rolled back. -/
def rollback (s : Traffic) (p : ℕ) (phase : RequestPhase) : Traffic :=
  ⟨s.tables.rollback p, Function.update s.requests p (some phase)⟩

/-- One statement of request `p`, which goes on in `phase` and on a violated
constraint in `violated`. -/
def execute (s : Traffic) (p : ℕ) (w : AccountWrite) (phase violated : RequestPhase) :
    Option Traffic :=
  (s.tables.execute accounts p w).map fun result =>
    match result with
    | some tables => ⟨tables, Function.update s.requests p (some phase)⟩
    | none => s.rollback p violated

def commit (s : Traffic) (p : ℕ) (phase : RequestPhase) : Option Traffic :=
  (s.tables.commit accounts p).map fun tables =>
    ⟨tables, Function.update s.requests p (some phase)⟩

end Traffic

section Step

variable (sha256Hex : Bytes → String) (s : Traffic) (p : ℕ)

/-- The bearers an UPDATE that starts now is going to revoke. -/
def activeBearers (u : Uuid) : List Uuid :=
  (s.tables.committed.mcpBearers.select fun b => b.userId = u ∧ b.revokedAt = none).map
    McpBearer.id

def turn (at_ : ℤ) (draw : BearerDraw) : RequestPhase → Option Traffic
  | .revoke u last => some (s.goto p (.revoking u last (activeBearers s u)))
  | .revoking u last (i :: found) =>
      if s.tables.free accounts p (.revoke i u at_) then
        -- the condition is tested again on the row as it is now
        if (s.tables.committed.mcpBearers.find? i).any fun b =>
            b.userId = u ∧ b.revokedAt = none then
          some ⟨s.tables.write accounts p (.revoke i u at_),
            Function.update s.requests p (some (.revoking u last found))⟩
        else some (s.goto p (.revoking u last found))
      else none
  | .revoking u last [] =>
      s.execute p (.insertBearer (bearerRow sha256Hex at_ u draw.id draw.bearer "regenerated"))
        (.regenerated u draw.bearer) (if last then .ended .failed else .revoke u true)
  | .regenerated u plaintext => s.commit p (.committed (.bearer u plaintext))
  | .login how (w :: left) => s.execute p w (.login how left) (.ended .failed)
  | .login how [] => s.commit p (.committed (.redirect how))
  | .committed answer => some (s.goto p (.ended answer))
  | .ended _ => none

def Traffic.step : TrafficEvent → Option Traffic
  | .callback p at_ who draws =>
      if (s.requests p).isNone then
        let how :=
          match s.tables.committed.users.select fun r => r.microsoftOid = who.oid with
          | user :: _ => Login.later who user at_
          | [] => Login.first who draws at_
        some (s.goto p (.login how (how.statements sha256Hex)))
      else none
  | .regenerate p u =>
      if (s.requests p).isNone ∧ (s.tables.committed.users.find? u).isSome then
        some (s.goto p (.revoke u false))
      else none
  | .turn p at_ draw => (s.requests p).bind (turn sha256Hex s p at_ draw)
  | .fail p =>
      match s.requests p with
      | none => none
      | some (.ended _) => none
      | some _ => some (s.rollback p (.ended .failed))
  | .lostCommit p =>
      ((s.requests p).bind RequestPhase.commits).bind fun _ => s.commit p (.ended .failed)

end Step

def traffic (sha256Hex : Bytes → String) : System Traffic TrafficEvent :=
  ⟨Traffic.step sha256Hex⟩

end TranscriptionApi.Auth
