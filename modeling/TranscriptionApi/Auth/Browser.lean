import TranscriptionApi.Auth.Accounts
import TranscriptionApi.Lib.Transition
import TranscriptionApi.Mcp.Session

/-!
The `/auth` endpoints and one browser that talks to them: the requests of one
cookie jar, one after the other, with the time that passes in between.

A signed cookie is represented by its payload, which only the service can have
written. What Microsoft Entra answers during a callback, up to the identity or
the error code that comes of it, is part of the request.

`flashUser` and `regenerated` are history: whose first login set the flash
cookie last, and whether that user has regenerated the bearer since.
-/

namespace TranscriptionApi.Auth

open Db Lib Mcp Python

structure Cookie (α : Type) where
  value : α
  expires : ℤ

/-- What the browser sends of a cookie it has. -/
def sent {α : Type} (now : ℤ) (cookie : Option (Cookie α)) : Option α :=
  (cookie.filter fun c => now < c.expires).map Cookie.value

/-- The claims of the session JWT; its times are in seconds. -/
structure SessionToken where
  sub : Uuid
  oid : Uuid
  email : String
  iat : ℤ
  exp : ℤ

/-- `int(time.time())`. -/
def wholeSeconds (now : ℤ) : ℤ := now / 1000000

def createSessionToken (settings : Settings) (now : ℤ) (user : User) : SessionToken where
  sub := user.id
  oid := user.microsoftOid
  email := user.email
  iat := wholeSeconds now
  exp := wholeSeconds now + settings.sessionTtlSeconds

/-- `decode_session_token` accepts it. -/
def SessionToken.valid (t : SessionToken) (now : ℤ) : Bool := wholeSeconds now ≤ t.exp

structure Jar where
  oauthState : Option (Cookie String)
  session : Option (Cookie SessionToken)
  /-- `mcp_bearer_flash` -/
  flash : Option (Cookie Token)

structure Browser where
  now : ℤ
  db : Database
  jar : Jar
  flashUser : Option Uuid
  regenerated : Bool

structure Site where
  settings : Settings
  sha256Hex : Bytes → String

structure BearerInfo where
  id : String
  plaintext : Option String
  createdAt : String
  name : Option String

structure MeAnswer where
  userId : String
  email : String
  displayName : String
  bearer : Option BearerInfo
  mcpUrl : String

inductive Response where
  | redirect (location : String)
  /-- to the authorize URL of the provider -/
  | authorize (state : String)
  | notAuthenticated (reason : String)
  | me (answer : MeAnswer)
  | bearer (info : BearerInfo)
  | internalError

inductive Request where
  | login (state : String)
  | callback (state : String) (who : Except String Identity) (draws : LoginDraws)
  | me
  | regenerate (first second : BearerDraw)
  | logout

inductive BrowserEvent where
  | tick (d : ℕ)
  | request (r : Request)

section Endpoints

variable (site : Site) (b : Browser)

/-- `get_current_user_web`. -/
def currentUserWeb : Except String User :=
  match sent b.now b.jar.session with
  | none => .error "session cookie missing"
  | some token =>
      if token.valid b.now = false then .error "session token invalid or expired"
      else
        match b.db.users.find? token.sub with
        | none => .error "user not found"
        | some user => .ok user

def login (state : String) : Browser × Response :=
  match sent b.now b.jar.session with
  | some token =>
      if token.valid b.now then (b, .redirect "/mcp-setup")
      else ({ b with jar.oauthState := some ⟨state, b.now + seconds 300⟩ }, .authorize state)
  | none => ({ b with jar.oauthState := some ⟨state, b.now + seconds 300⟩ }, .authorize state)

/-- Steps 6 and 7 of `callback`. -/
def loggedIn (user : User) (bearer : Option Token) (db : Database) : Browser :=
  let session : Cookie SessionToken :=
    ⟨createSessionToken site.settings b.now user, b.now + seconds 86400⟩
  match bearer with
  | none => { b with db := db, jar := { b.jar with oauthState := none, session := some session } }
  | some token =>
      { b with
        db := db
        jar := ⟨none, some session, some ⟨token, b.now + seconds 60⟩⟩
        flashUser := some user.id
        regenerated := false }

def callback (state : String) (who : Except String Identity) (draws : LoginDraws) :
    Browser × Response :=
  if sent b.now b.jar.oauthState ≠ some state then
    (b, .redirect "/login?error=AUTH_INVALID_STATE")
  else
    match who with
    | .error code => (b, .redirect ("/login?error=" ++ code))
    | .ok who =>
        match upsertUser site.sha256Hex b.now who draws b.db with
        | none => (b, .internalError)
        | some (user, bearer, db) => (loggedIn site b user bearer db, .redirect "/mcp-setup")

/-- The SELECT of `me`. -/
def activeBearer (db : Database) (userId : Uuid) : Option McpBearer :=
  ((scopedSelect db.mcpBearers McpBearer.userId userId fun r =>
    r.userId = userId && r.revokedAt.isNone).mergeSort fun r r' =>
      r'.createdAt ≤ r.createdAt).head?

def bearerInfo (row : McpBearer) (plaintext : Option Token) : BearerInfo where
  id := uuidStr row.id
  plaintext := plaintext.map Token.text
  createdAt := isoformat row.createdAt
  name := row.name

def meAnswer (user : User) (flash : Option Token) : MeAnswer where
  userId := uuidStr user.id
  email := user.email
  displayName := user.displayName
  bearer := (activeBearer b.db user.id).map fun row => bearerInfo row flash
  mcpUrl := rstripChar '/' site.settings.publicBaseUrl ++ "/mcp"

def me : Browser × Response :=
  match currentUserWeb b with
  | .error reason => (b, .notAuthenticated reason)
  | .ok user =>
      let flash := sent b.now b.jar.flash
      ({ b with jar.flash := if flash.isSome then none else b.jar.flash },
        .me (meAnswer site b user flash))

def regenerate (first second : BearerDraw) : Browser × Response :=
  match currentUserWeb b with
  | .error reason => (b, .notAuthenticated reason)
  | .ok user =>
      match regenerateMcpToken site.sha256Hex b.now user.id first second b.db with
      | none => (b, .internalError)
      | some (row, bearer, db) =>
          ({ b with db := db, regenerated := b.regenerated || b.flashUser = some user.id },
            .bearer (bearerInfo row (some bearer)))

def logout : Browser × Response := ({ b with jar.session := none }, .redirect "/login")

def handle : Request → Browser × Response
  | .login state => login b state
  | .callback state who draws => callback site b state who draws
  | .me => me site b
  | .regenerate first second => regenerate site b first second
  | .logout => logout b

end Endpoints

/-- The browser and the service. -/
def browsing (site : Site) : System Browser BrowserEvent where
  step b
    | .tick d => some { b with now := b.now + d }
    | .request r => some (handle site b r).1

/-- A browser without cookies. -/
structure Fresh (b : Browser) : Prop where
  accounts : Accounts b.db
  oauthState : b.jar.oauthState = none
  session : b.jar.session = none
  flash : b.jar.flash = none

end TranscriptionApi.Auth
