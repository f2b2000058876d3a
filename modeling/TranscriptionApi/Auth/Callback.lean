import TranscriptionApi.Auth.Browser
import TranscriptionApi.Lib.Json.Unchecked

/-!
`GET /auth/callback` from the bytes of Microsoft Entra on: the exchange of the
code, the key set and its cache, the validation of the id_token, the identity
in its claims, the upsert and the session cookie. `Auth.callback` takes the
identity or the error code that comes of it as given.

A body is what `r.json()` makes of it, any JSON value or an exception. The JOSE
library, the cipher of `encrypt_token` and the index of PostgreSQL on the email
column are parameters. Another request may refresh the key set while this one
waits for the lock of `fetch_jwks`; the cache is the one it finds when it holds
the lock.
-/

namespace TranscriptionApi.Auth.OAuth

open Db Lib Lib.Json Python

/-- A text literal as a JSON text. -/
abbrev text (s : String) : Str := Str.ofString s

/-! ### What the callback calls -/

/-- One entry of `claims.options`. -/
structure ClaimOption where
  claim : String
  essential : Bool
  values : Option (List String)

/-- The libraries: `authlib.jose`, AES-GCM and the driver of PostgreSQL. -/
structure Libraries (φ : Type) where
  runtime : Runtime φ
  KeySet : Type
  /-- `JsonWebKey.import_key_set` -/
  importKeySet : Value φ → Except PyError KeySet
  /-- the signature of a token, under the key of its `kid` -/
  verify : Value φ → KeySet → Except PyError Unit
  /-- the JSON object a token carries -/
  payload : Value φ → Option (Fields φ)
  /-- `claims.validate()` at an instant -/
  validate : List ClaimOption → ℤ → Fields φ → Except PyError Unit
  /-- `JsonWebToken.encode` signs the payload; it refuses one with sensitive data -/
  encodes : SessionToken → Bool
  /-- `AESGCM.encrypt` of a nonce and a plaintext -/
  encrypt : Bytes → Bytes → Option Bytes
  /-- an entry of the unique index on the email can be this long -/
  indexable : String → Bool

/-- The settings that the provider's answers are checked against. -/
structure Entra extends Site where
  msTenantId : String
  msClientId : String

/-- What one HTTP request comes to. -/
inductive HttpAnswer (φ : Type) where
  /-- `httpx.TimeoutException` or `httpx.NetworkError` -/
  | unreachable
  /-- another exception of `httpx`, such as `RemoteProtocolError` or `DecodingError` -/
  | broken
  /-- the status, and what `r.json()` returns, `none` if it raises -/
  | response (status : ℕ) (body : Option (Value φ))

/-- What Microsoft Entra answers during a callback. -/
structure Provider (φ : Type) where
  /-- `POST /token` -/
  token : HttpAnswer φ
  /-- the first `GET` of the key set, if there is one -/
  jwks : HttpAnswer φ
  /-- the forced `GET` of the key set, if there is one -/
  refreshed : HttpAnswer φ

/-- `_JWKS_CACHE`, where `None` is `null`, and `_JWKS_CACHE_AT`. -/
structure JwksCache (φ : Type) where
  jwks : Value φ
  cachedAt : ℤ

/-- The exceptions of `oauth_client`, and the ones it lets through. -/
inductive Raised where
  | oauthCodeInvalid
  | oauthProviderUnavailable
  | idTokenInvalid
  | tenantNotAllowed
  | py (e : PyError)
  deriving DecidableEq

/-! ### `oauth_client` -/

section OAuthClient

variable {φ : Type}

/-- The answer to a request, where `refused` is raised on a 4xx. -/
def readJson (refused : Raised) : HttpAnswer φ → Except Raised (Value φ)
  | .unreachable => .error .oauthProviderUnavailable
  | .broken => .error (.py .other)
  | .response status body =>
      if 500 ≤ status then .error .oauthProviderUnavailable
      else if 400 ≤ status then .error refused
      else body.elim (.error (.py .valueError)) .ok

def exchangeCode (answer : HttpAnswer φ) : Except Raised (Value φ) :=
  readJson .oauthCodeInvalid answer

/-- `_JWKS_TTL_SECONDS`. -/
def jwksTtlSeconds : ℤ := 24 * 3600

def cacheIsFresh (now : ℤ) (cache : JwksCache φ) : Bool :=
  match cache.jwks with
  | .null => false
  | _ => now - cache.cachedAt < seconds jwksTtlSeconds

def fetchJwks (forceRefresh : Bool) (now : ℤ) (answer : HttpAnswer φ) (cache : JwksCache φ) :
    Except Raised (Value φ) × JwksCache φ :=
  if !forceRefresh && cacheIsFresh now cache then (.ok cache.jwks, cache)
  else
    match readJson .idTokenInvalid answer with
    | .error e => (.error e, cache)
    | .ok jwks => (.ok jwks, ⟨jwks, now⟩)

variable (lib : Libraries φ) (site : Entra) (now : ℤ)

/-- `_expected_issuer()`. -/
def expectedIssuer : String :=
  "https://login.microsoftonline.com/" ++ site.msTenantId ++ "/v2.0"

def claimsOptions : List ClaimOption :=
  [⟨"iss", true, some [expectedIssuer site]⟩, ⟨"aud", true, some [site.msClientId]⟩,
    ⟨"exp", true, none⟩]

/-- The `try` block of `validate_id_token`. A token that carries no object is a
`DecodeError`, which is a `JoseError`. -/
def decodeIdToken (idToken jwks : Value φ) : Except PyError (Fields φ) :=
  (lib.importKeySet jwks).bind fun keySet =>
    (lib.verify idToken keySet).bind fun _ =>
      match lib.payload idToken with
      | none => .error .joseError
      | some claims => (lib.validate (claimsOptions site) now claims).map fun _ => claims

/-- `claims.get("tid") == settings.ms_tenant_id`. -/
def tenantAllowed (claims : Fields φ) : Bool :=
  match claims.getD (text "tid") .null with
  | .str s => s = text site.msTenantId
  | _ => false

def validateIdToken (idToken jwks : Value φ) : Except Raised (Fields φ) :=
  match decodeIdToken lib site now idToken jwks with
  | .error .joseError => .error .idTokenInvalid
  | .error e => .error (.py e)
  | .ok claims => if tenantAllowed site claims then .ok claims else .error .tenantNotAllowed

end OAuthClient

/-! ### `callback` -/

/-- `RedirectResponse("/login?error=…")`. -/
def loginError (code : String) : Response := .redirect ("/login?error=" ++ code)

/-- What a callback draws. -/
structure Draws extends LoginDraws where
  accessNonce : Bytes
  refreshNonce : Bytes

/-- The module state and the browser of one client. -/
structure Service (φ : Type) where
  browser : Browser
  jwksCache : JwksCache φ

/-- The fields of the token response that step 2 reads. -/
structure Tokens (φ : Type) where
  response : Fields φ
  idToken : Value φ
  accessToken : Value φ
  refreshToken : Value φ

/-- What step 4 takes from the claims. -/
@[ext] structure Person (φ : Type) where
  msOid : Uuid
  email : Value φ
  displayName : Value φ

section Callback

variable {φ : Type}

/-- The three subscriptions of step 2. -/
def readTokens (tokenResponse : Value φ) : Except PyError (Tokens φ) :=
  (tokenResponse.subscript (text "id_token")).bind fun idToken =>
    (tokenResponse.subscript (text "access_token")).bind fun accessToken =>
      (tokenResponse.subscript (text "refresh_token")).map fun refreshToken =>
        ⟨tokenResponse.fields?.getD [], idToken, accessToken, refreshToken⟩

/-- Step 2. -/
def tokenStep (answer : HttpAnswer φ) : Except Response (Tokens φ) :=
  match exchangeCode answer with
  | .error .oauthProviderUnavailable => .error (loginError "AUTH_PROVIDER_UNAVAILABLE")
  | .error .oauthCodeInvalid => .error (loginError "AUTH_INVALID_OAUTH_CODE")
  | .error _ => .error .internalError
  | .ok tokenResponse =>
      match readTokens tokenResponse with
      | .error .keyError => .error (loginError "AUTH_PROVIDER_UNAVAILABLE")
      | .error _ => .error .internalError
      | .ok tokens => .ok tokens

section

variable (lib : Libraries φ) (site : Entra) (now : ℤ)

/-- `fetch_jwks` and `validate_id_token`, one after the other. -/
def attempt (forceRefresh : Bool) (answer : HttpAnswer φ) (idToken : Value φ)
    (cache : JwksCache φ) : Except Raised (Fields φ) × JwksCache φ :=
  match fetchJwks forceRefresh now answer cache with
  | (.error e, cache) => (.error e, cache)
  | (.ok jwks, cache) => (validateIdToken lib site now idToken jwks, cache)

/-- What the retry of step 3 answers. -/
def retryAnswer : Except Raised (Fields φ) → Except Response (Fields φ)
  | .ok claims => .ok claims
  | .error .tenantNotAllowed => .error (loginError "AUTH_TENANT_NOT_ALLOWED")
  | .error .idTokenInvalid => .error (loginError "AUTH_PROVIDER_UNAVAILABLE")
  | .error .oauthProviderUnavailable => .error (loginError "AUTH_PROVIDER_UNAVAILABLE")
  | .error _ => .error .internalError

/-- Step 3. -/
def authenticate (provider : Provider φ) (idToken : Value φ) (cache : JwksCache φ) :
    Except Response (Fields φ) × JwksCache φ :=
  match attempt lib site now false provider.jwks idToken cache with
  | (.ok claims, cache) => (.ok claims, cache)
  | (.error .tenantNotAllowed, cache) => (.error (loginError "AUTH_TENANT_NOT_ALLOWED"), cache)
  | (.error .idTokenInvalid, cache) =>
      let retry := attempt lib site now true provider.refreshed idToken cache
      (retryAnswer retry.1, retry.2)
  | (.error .oauthProviderUnavailable, cache) =>
      (.error (loginError "AUTH_PROVIDER_UNAVAILABLE"), cache)
  | (.error _, cache) => (.error .internalError, cache)

/-- The email that step 4 settles on. -/
def emailOf (claims : Fields φ) : Value φ :=
  (claims.getD (text "email") .null).or lib.runtime
    (claims.getD (text "preferred_username") .null)

/-- The name that step 4 settles on. -/
def displayNameOf (claims : Fields φ) (msOid : Uuid) : Value φ :=
  ((claims.getD (text "name") .null).or lib.runtime (emailOf lib claims)).or lib.runtime
    (.str (text (uuidStr msOid)))

/-- Step 4. -/
def identify (claims : Fields φ) : Except Response (Person φ) :=
  match ((Value.obj claims).subscript (text "oid")).bind Value.toUuid with
  | .error .keyError => .error (loginError "AUTH_PROVIDER_UNAVAILABLE")
  | .error .valueError => .error (loginError "AUTH_PROVIDER_UNAVAILABLE")
  | .error _ => .error .internalError
  | .ok msOid =>
      let email := emailOf lib claims
      if email.truth lib.runtime.isZero then .ok ⟨msOid, email, displayNameOf lib claims msOid⟩
      else .error (loginError "AUTH_PROVIDER_UNAVAILABLE")

def encryptToken (nonce : Bytes) (plaintext : Value φ) : Except PyError Bytes :=
  plaintext.encode.bind fun bytes =>
    (lib.encrypt nonce bytes).elim (.error .overflowError) fun ciphertext =>
      .ok (nonce ++ ciphertext)

/-- `datetime.min` and `datetime.max`, in UTC. -/
def datetimeMin : ℤ := -62135596800 * 1000000

def datetimeMax : ℤ := 253402300799 * 1000000 + 999999

/-- The seconds of `expires_in`; a `datetime` that far away has to exist. -/
def expiresIn (response : Fields φ) : Except PyError ℤ :=
  ((response.getD (text "expires_in") (.int 3600)).toInt lib.runtime).bind fun n =>
    if datetimeMin ≤ now + seconds n ∧ now + seconds n ≤ datetimeMax then .ok n
    else .error .overflowError

/-- A bound value of a `Text` column: the driver takes texts, and PostgreSQL no
NUL in them. -/
def bindText : Value φ → Except PyError String
  | .str s =>
      match s.chars? with
      | none => .error .other
      | some cs => if '\x00' ∈ cs then .error .other else .ok (String.ofList cs)
  | _ => .error .other

/-- The branch of step 5 for somebody new. -/
def createLogin (tokens : Tokens φ) (who : Person φ) (n : ℤ) (draws : Draws) (db : Database) :
    Except PyError (User × Option Token × Database) :=
  (bindText who.email).bind fun email =>
    (bindText who.displayName).bind fun displayName =>
      if lib.indexable email then
        (encryptToken lib draws.accessNonce tokens.accessToken).bind fun access =>
          (encryptToken lib draws.refreshNonce tokens.refreshToken).bind fun refresh =>
            match createUser site.sha256Hex now ⟨who.msOid, email, displayName, access, refresh, n⟩
                draws.toLoginDraws db with
            | none => .error .other
            | some (user, db) => .ok (user, some draws.bearer, db)
      else .error .other

/-- The branch of step 5 for somebody known, whose email and name stay. -/
def refreshLogin (tokens : Tokens φ) (user : User) (n : ℤ) (draws : Draws) (db : Database) :
    Except PyError (User × Option Token × Database) :=
  (encryptToken lib draws.accessNonce tokens.accessToken).bind fun access =>
    (encryptToken lib draws.refreshNonce tokens.refreshToken).map fun refresh =>
      let who : Identity := ⟨user.microsoftOid, user.email, user.displayName, access, refresh, n⟩
      (user, none, refreshUser now who user db)

/-- Step 5. -/
def upsert (tokens : Tokens φ) (who : Person φ) (draws : Draws) (db : Database) :
    Except PyError (User × Option Token × Database) :=
  (expiresIn lib now tokens.response).bind fun n =>
    match db.users.select fun r => r.microsoftOid = who.msOid with
    | user :: _ => refreshLogin lib now tokens user n draws db
    | [] => createLogin lib site now tokens who n draws db

end

variable (lib : Libraries φ) (site : Entra)

/-- Steps 5 to 7. An exception before the commit rolls back; the session token
is signed after it. -/
def finishLogin (tokens : Tokens φ) (who : Person φ) (draws : Draws) (b : Browser) :
    Browser × Response :=
  match upsert lib site b.now tokens who draws b.db with
  | .error _ => (b, .internalError)
  | .ok (user, bearer, db) =>
      if lib.encodes (createSessionToken site.settings b.now user) then
        (loggedIn site.toSite b user bearer db, .redirect "/mcp-setup")
      else ({ b with db := db }, .internalError)

/-- Steps 4 to 7. -/
def enter (tokens : Tokens φ) (claims : Fields φ) (draws : Draws) (b : Browser) :
    Browser × Response :=
  match identify lib claims with
  | .error answer => (b, answer)
  | .ok who => finishLogin lib site tokens who draws b

def callback (provider : Provider φ) (state : String) (draws : Draws) (s : Service φ) :
    Service φ × Response :=
  if sent s.browser.now s.browser.jar.oauthState ≠ some state then
    (s, loginError "AUTH_INVALID_STATE")
  else
    match tokenStep provider.token with
    | .error answer => (s, answer)
    | .ok tokens =>
        match authenticate lib site s.browser.now provider tokens.idToken s.jwksCache with
        | (.error answer, cache) => ({ s with jwksCache := cache }, answer)
        | (.ok claims, cache) =>
            let out := enter lib site tokens claims draws s.browser
            (⟨out.1, cache⟩, out.2)

end Callback

end TranscriptionApi.Auth.OAuth
