import TranscriptionApi.Auth.Crypto
import TranscriptionApi.Auth.Flash
import TranscriptionApi.Auth.Vault

/-!
Logging in, with any number of clients and with the provider.

`/auth/login` draws a state and a PKCE verifier and signs both into a cookie. Someone
signs in at an authorize URL and a code comes of it. `/auth/callback` redeems a code
with the verifier of the cookie it is sent.

The provider is a parameter: two functions on a state of its own. What the service
relies on is what the protocol asks of such a provider, `Provider.Lawful`, and it speaks
of the calls that the provider has had, nothing else of it.

Anyone may sign in at any URL, whoever made it, and any client may bring any code and
any state: codes leak and callbacks are forged. A client sends whichever of its cookies
it likes, also one that a browser would have dropped. It cannot write a signed one, so
a cookie is its payload and belongs to the client it was set for.
-/

namespace TranscriptionApi.Auth.LoginFlow

open Db Lib Lib.Base64 Crypto Python

/-! ### `generate_pkce` and the state cookie -/

/-- `urlsafe_b64encode(data).rstrip(b"=").decode("ascii")`. -/
def urlsafeB64 (data : Bytes) : String := rstripChar '=' (String.ofList (encode urlsafe data))

/-- The challenge of a verifier, by the method S256. -/
def s256 (sha256 : Bytes → Bytes) (verifier : String) : String :=
  urlsafeB64 (sha256 (encodeUtf8 verifier.toList))

/-- `secrets.token_urlsafe(64)` encodes 64 drawn bytes. -/
def generatePkce (sha256 : Bytes → Bytes) (draw : Bytes) : String × String :=
  let verifier := urlsafeB64 draw
  (verifier, s256 sha256 verifier)

/-- The payload of the `oauth_state` cookie, and the timestamp of its signature. -/
structure StateCookie where
  state : String
  codeVerifier : String
  signedAt : ℤ

/-- `DEFAULT_MAX_AGE`. -/
def defaultMaxAge : ℤ := 300

/-- `verify_state` of a cookie with a good signature. -/
def verifyState (now : ℤ) (cookie : StateCookie) : Option StateCookie :=
  let age := wholeSeconds now - cookie.signedAt
  if age > defaultMaxAge then none else if age < 0 then none else some cookie

/-! ### The provider -/

/-- The provider, on a state `σ` of its own. -/
structure Provider (σ : Type) where
  start : σ
  /-- someone signs in at a URL with this challenge: the code that comes of it, if any -/
  authorize : σ → ℤ → String → Identity → Option (String × σ)
  /-- `POST /token` with a code and a verifier, up to the claims of the id_token -/
  token : σ → ℤ → String → String → Except String Identity × σ

/-- What a provider has done. -/
inductive Entry where
  | issued (code challenge : String) (who : Identity)
  | redeemed (code : String)

/-- What comes of the request to the provider and of its answer. -/
inductive Exchange where
  | delivered
  /-- the provider has the request, and its answer cannot be used -/
  | lost (error : String)
  /-- the provider has not got the request -/
  | down (error : String)

section Provider

variable {σ : Type} (P : Provider σ)

/-- The entry of an answer. -/
def accepted (code : String) : Except String Identity → List Entry
  | .ok _ => [.redeemed code]
  | .error _ => []

/-- The states of the provider and what it has done on the way. -/
inductive Provider.Reached : List Entry → σ → Prop
  | start : Reached [] P.start
  | authorize {log : List Entry} {st st' : σ} {now : ℤ} {challenge code : String} {who : Identity}
      (h : Reached log st) (hcode : P.authorize st now challenge who = some (code, st')) :
      Reached (log ++ [.issued code challenge who]) st'
  | token {log : List Entry} {st : σ} {now : ℤ} {code codeVerifier : String} (h : Reached log st) :
      Reached (log ++ accepted code (P.token st now code codeVerifier).1)
        (P.token st now code codeVerifier).2

/-- The authorization code grant with PKCE. -/
structure Provider.Lawful (sha256 : Bytes → Bytes) : Prop where
  /-- a code is redeemed for the one who signed in, with the verifier of that challenge -/
  bound : ∀ {log st now code codeVerifier who}, P.Reached log st →
    (P.token st now code codeVerifier).1 = .ok who →
      .issued code (s256 sha256 codeVerifier) who ∈ log
  /-- a code is redeemed once -/
  once : ∀ {log st now code codeVerifier who}, P.Reached log st →
    (P.token st now code codeVerifier).1 = .ok who → .redeemed code ∉ log

/-- `exchange_code`, and the provider after it with what it has done. -/
def exchangeCode (outcome : Exchange) (now : ℤ) (code codeVerifier : String) (st : σ) :
    Except String Identity × List Entry × σ :=
  let answer := P.token st now code codeVerifier
  match outcome with
  | .down error => (.error error, [], st)
  | .lost error => (.error error, accepted code answer.1, answer.2)
  | .delivered => (answer.1, accepted code answer.1, answer.2)

end Provider

/-! ### The clients and the service -/

/-- A session token that a client has got, and the code it brought for it. -/
structure Session where
  client : ℕ
  token : SessionToken
  code : String

structure World (σ : Type) where
  now : ℤ
  db : Database
  stateCookies : List (ℕ × StateCookie)
  sessions : List Session
  provider : σ
  /-- what the provider has done -/
  log : List Entry

/-- What becomes of a login that the tables take. -/
inductive LoginEnd where
  | answered
  | rolledBack
  /-- the COMMIT takes effect, and it raises or what comes after it does -/
  | unanswered

/-- The requests of a session. -/
inductive Visit where
  | me
  | regenerate (first second : BearerDraw)
  | logout

def Visit.request : Visit → Request
  | .me => .me
  | .regenerate first second => .regenerate first second
  | .logout => .logout

/-- A client picks the cookies that it sends by their place in the lists. -/
inductive FlowEvent where
  | tick (d : ℕ)
  | login (client : ℕ) (session : Option ℕ) (state : String) (draw : Bytes)
  /-- someone signs in at a URL with this challenge -/
  | signIn (challenge : String) (who : Identity)
  | callback (client : ℕ) (cookie : Option ℕ) (code state : String) (outcome : Exchange)
      (draws : LoginDraws) (ending : LoginEnd)
  | visit (client : ℕ) (session : Option ℕ) (v : Visit)

section Service

variable {σ : Type} (P : Provider σ) (site : Site) (sha256 : Bytes → Bytes) (s : World σ)

/-- The cookie at a place, if it is the client's. -/
def pick {α : Type} (owner : α → ℕ) (xs : List α) (client : ℕ) (place : Option ℕ) : Option α :=
  (place.bind fun i => xs[i]?).filter fun x => owner x = client

/-- The service and the cookies of one request. -/
def visitor (oauthState : Option String) (session : Option SessionToken) : Browser where
  now := s.now
  db := s.db
  jar :=
    { oauthState := oauthState.map fun state => ⟨state, s.now + 1⟩
      session := session.map fun token => ⟨token, s.now + 1⟩
      flash := none }
  flashUser := none
  regenerated := false

def login (client : ℕ) (session : Option SessionToken) (state : String) (draw : Bytes) :
    World σ :=
  let pkce := generatePkce sha256 draw
  match (Auth.login (visitor s none session) state).1.jar.oauthState with
  | none => s
  | some cookie =>
      { s with
        stateCookies :=
          s.stateCookies ++ [(client, ⟨cookie.value, pkce.1, wholeSeconds s.now⟩)] }

/-- The service and the client after the browser `b` of a callback. -/
def conclude (client : ℕ) (code : String) (b : Browser) : LoginEnd → World σ
  | .answered =>
      { s with
        db := b.db
        sessions := s.sessions ++ (b.jar.session.map fun k => ⟨client, k.value, code⟩).toList }
  | .rolledBack => s
  | .unanswered => { s with db := b.db }

def callback (client : ℕ) (cookie : Option StateCookie) (code state : String)
    (outcome : Exchange) (draws : LoginDraws) (ending : LoginEnd) : World σ :=
  match cookie.bind (verifyState s.now) with
  | none => s
  | some payload =>
      if payload.state ≠ state then s
      else
        let exchanged := exchangeCode P outcome s.now code payload.codeVerifier s.provider
        let b := (Auth.callback site (visitor s (some payload.state) none) state exchanged.1
          draws).1
        conclude { s with provider := exchanged.2.2, log := s.log ++ exchanged.2.1 } client code b
          ending

def World.step : FlowEvent → Option (World σ)
  | .tick d => some { s with now := s.now + d }
  | .login client session state draw =>
      let token := (pick Session.client s.sessions client session).map Session.token
      some (login sha256 s client token state draw)
  | .signIn challenge who =>
      (P.authorize s.provider s.now challenge who).map fun issued =>
        { s with
          provider := issued.2
          log := s.log ++ [.issued issued.1 challenge who] }
  | .callback client cookie code state outcome draws ending =>
      let cookie := (pick Prod.fst s.stateCookies client cookie).map Prod.snd
      some (callback P site s client cookie code state outcome draws ending)
  | .visit client session v =>
      let token := (pick Session.client s.sessions client session).map Session.token
      some { s with db := (handle site (visitor s none token) v.request).1.db }

end Service

section Requests

variable {σ : Type} {P : Provider σ} {site : Site} {sha256 : Bytes → Bytes} {s : World σ}

end Requests

/-! ### Where a session comes from -/

/-- The cookie behind a session, and who has signed in for it. -/
structure Evidence {σ : Type} (site : Site) (sha256 : Bytes → Bytes) (s : World σ) (m : Session)
    (k : StateCookie) (who : Identity) : Prop where
  cookie : (m.client, k) ∈ s.stateCookies
  issued : .issued m.code (s256 sha256 k.codeVerifier) who ∈ s.log
  redeemed : .redeemed m.code ∈ s.log
  early : k.signedAt ≤ m.token.iat
  late : m.token.iat ≤ k.signedAt + defaultMaxAge
  exp : m.token.exp = m.token.iat + site.settings.sessionTtlSeconds
  user : ∃ r ∈ s.db.users.rows, r.id = m.token.sub ∧ r.microsoftOid = who.oid

/-- What a step leaves alone, and the session it may start, with a code that was not
redeemed before. -/
structure Advances {σ : Type} (P : Provider σ) (site : Site) (sha256 : Bytes → Bytes)
    (s s' : World σ) : Prop where
  cookies : ∀ ck ∈ s.stateCookies, ck ∈ s'.stateCookies
  log : ∀ x ∈ s.log, x ∈ s'.log
  reached : P.Reached s'.log s'.provider
  users : UsersKept s.db s'.db
  sessions : s'.sessions = s.sessions ∨ ∃ m k who, s'.sessions = s.sessions ++ [m] ∧
    Evidence site sha256 s' m k who ∧ .redeemed m.code ∉ s.log

section Runs

variable {σ : Type} {P : Provider σ} {site : Site} {sha256 : Bytes → Bytes} {s s' t : World σ}
  {e : FlowEvent} {es : List FlowEvent}

theorem Evidence.mono {m : Session} {k : StateCookie} {who : Identity}
    (h : Evidence site sha256 s m k who) (hadvances : Advances P site sha256 s s') :
    Evidence site sha256 s' m k who := by
  obtain ⟨r, hr, hid, hoid⟩ := h.user
  obtain ⟨r', hr', hid', hoid', -⟩ := hadvances.users r hr
  exact { h with
    cookie := hadvances.cookies _ h.cookie
    issued := hadvances.log _ h.issued
    redeemed := hadvances.log _ h.redeemed
    user := ⟨r', hr', hid'.trans hid, hoid'.trans hoid⟩ }

/-- The draws of the logins of a run. -/
def drawn (es : List FlowEvent) : List Bytes :=
  es.filterMap fun e =>
    match e with
    | .login _ _ _ draw => some draw
    | _ => none

def emptyWorld : World (Option (String × Identity × Bool)) where
  now := 0
  db := default
  stateCookies := []
  sessions := []
  provider := none
  log := []

end Runs

end TranscriptionApi.Auth.LoginFlow
