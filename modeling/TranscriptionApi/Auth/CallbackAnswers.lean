import TranscriptionApi.Auth.CallbackSteps

/-!
When `callback` does what its contract says.

The contract: the answer is a 302, either to `/mcp-setup` or to
`/login?error=<typed code>` with the database as it was; and an id_token that
validates under the key set that Microsoft serves logs its person in, whatever
key set is cached.

The ladder of `except` clauses names some exceptions. `Handled` says of the
provider's answers, the cached key set and the database that no other one is
raised, with a reason for each step. The contract holds exactly then. Its second
part costs nothing more: the only thing a stale key set can do to a good token,
other than a `JoseError` and with it the retry, is to raise.
-/

namespace TranscriptionApi.Auth.OAuth

open Db Lib Lib.Json Python

section Answers

variable {φ : Type}

/-! ### The contract -/

section

variable (lib : Libraries φ) (site : Entra) (provider : Provider φ) (state : String)
  (draws : Draws) (s : Service φ)

/-- A 302: success, or a typed error that has written nothing. -/
def Answered : Prop :=
  (callback lib site provider state draws s).2 = .redirect "/mcp-setup" ∨
    Typed (callback lib site provider state draws s).2 ∧
      (callback lib site provider state draws s).1.browser.db = s.browser.db

/-- Whatever the endpoint of the key set is asked, it serves this one. -/
structure Serves (current : Value φ) : Prop where
  jwks : served provider.jwks = some current
  refreshed : served provider.refreshed = some current

/-- The state check of step 1 passes. -/
def StateValid : Prop := sent s.browser.now s.browser.jar.oauthState = some state

/-- What `callback` is there for. -/
structure Contract : Prop where
  answered : Answered lib site provider state draws s
  /-- a token that is good under the key set of the provider logs in, be the
  cached one as it may, as long as the rest of the response names tokens and a person -/
  current : ∀ tokens current claims who, StateValid state s → Gives provider.token tokens →
    Serves provider current →
    validateIdToken lib site s.browser.now tokens.idToken current = .ok claims →
    Names lib claims who →
    (callback lib site provider state draws s).2 = .redirect "/mcp-setup"

/-- No step meets an exception that it has no `except` clause for. -/
structure Handled : Prop where
  token : TokenHandled provider.token
  keys : ∀ tokens, Gives provider.token tokens →
    KeysHandled lib site s.browser.now provider tokens.idToken s.jwksCache
  oid : ∀ tokens claims, Gives provider.token tokens →
    Accepts lib site s.browser.now provider tokens.idToken s.jwksCache claims → OidHandled claims
  login : ∀ tokens claims who, Gives provider.token tokens →
    Accepts lib site s.browser.now provider tokens.idToken s.jwksCache claims →
    Names lib claims who → LoginHandled lib site tokens who draws s.browser

end

section

variable (lib : Libraries φ) (site : Entra) (draws : Draws) {provider : Provider φ}
  {state : String} {s : Service φ} {tokens : Tokens φ} {claims : Fields φ} {answer : Response}

theorem callback_of_tokenStep (hstate : StateValid state s)
    (htokens : tokenStep provider.token = .error answer) :
    callback lib site provider state draws s = (s, answer) := by
  unfold StateValid at hstate
  rw [callback, if_neg (not_not.mpr hstate), htokens]

/-- Steps 3 to 7. -/
theorem callback_of_tokens (hstate : StateValid state s)
    (htokens : tokenStep provider.token = .ok tokens) :
    ((callback lib site provider state draws s).1.browser,
        (callback lib site provider state draws s).2) =
      match (authenticate lib site s.browser.now provider tokens.idToken s.jwksCache).1 with
      | .error answer => (s.browser, answer)
      | .ok claims => enter lib site tokens claims draws s.browser := by
  unfold StateValid at hstate
  simp only [callback, if_neg (not_not.mpr hstate), htokens]
  cases authenticate lib site s.browser.now provider tokens.idToken s.jwksCache with
  | mk out cache =>
      cases out with
      | error answer => rfl
      | ok claims => rfl

variable {lib site draws}

/-- An answer that has written nothing is the contract's unless it is a 500. -/
theorem answered_iff_of_error (hanswer : answer = .internalError ∨ Typed answer)
    (hout : ((callback lib site provider state draws s).1.browser,
      (callback lib site provider state draws s).2) = (s.browser, answer)) :
    Answered lib site provider state draws s ↔ answer ≠ .internalError := by
  obtain ⟨hbrowser, hresponse⟩ := Prod.mk.inj hout
  unfold Answered
  rw [hbrowser, hresponse]
  rcases hanswer with rfl | htyped
  · simp [not_typed_internalError]
  · refine iff_of_true (.inr ⟨htyped, rfl⟩) ?_
    rintro rfl
    exact not_typed_internalError htyped

/-- The condition of steps 3 to 7, for the tokens at hand. -/
theorem handled_iff_of_gives (h : TokenHandled provider.token)
    (hgives : Gives provider.token tokens)
    (hunique : ∀ tokens', Gives provider.token tokens' → tokens' = tokens) :
    Handled lib site provider draws s ↔
      KeysHandled lib site s.browser.now provider tokens.idToken s.jwksCache ∧
        ∀ claims, Accepts lib site s.browser.now provider tokens.idToken s.jwksCache claims →
          OidHandled claims ∧ ∀ who, Names lib claims who →
            LoginHandled lib site tokens who draws s.browser := by
  constructor
  · intro hall
    exact ⟨hall.keys tokens hgives, fun claims hclaims => ⟨hall.oid tokens claims hgives hclaims,
      fun who hwho => hall.login tokens claims who hgives hclaims hwho⟩⟩
  · rintro ⟨hkeys, hrest⟩
    refine ⟨h, fun tokens' h' => ?_, fun tokens' claims h' hclaims => ?_,
      fun tokens' claims who h' hclaims hwho => ?_⟩
    · exact hunique tokens' h' ▸ hkeys
    · exact (hrest claims (hunique tokens' h' ▸ hclaims)).1
    · rw [hunique tokens' h'] at hclaims ⊢
      exact (hrest claims hclaims).2 who hwho

/-- Steps 4 to 7, for the claims at hand. -/
theorem answered_iff_of_claims
    (hout : ((callback lib site provider state draws s).1.browser,
      (callback lib site provider state draws s).2) =
        enter lib site tokens claims draws s.browser) :
    Answered lib site provider state draws s ↔ OidHandled claims ∧
      ∀ who, Names lib claims who → LoginHandled lib site tokens who draws s.browser := by
  have hidentify := step_identify lib claims
  rw [enter] at hout
  cases hwho : identify lib claims with
  | error answer =>
      rw [hwho] at hout
      rw [answered_iff_of_error (hidentify.typed answer hwho) hout,
        hidentify.ne_internalError_iff hwho]
      refine ⟨fun h => ⟨h, fun who hnames => ?_⟩, And.left⟩
      cases hwho.symm.trans ((hidentify.ok who).mpr hnames)
  | ok who =>
      have hnames : ∀ who', Names lib claims who' ↔ who = who' := fun who' => by
        rw [← hidentify.ok, hwho, Except.ok.injEq]
      simp only [hnames, forall_eq', hidentify.handled_of_ok hwho, true_and]
      rw [hwho] at hout
      have hresponse : (callback lib site provider state draws s).2 =
          (finishLogin lib site tokens who draws s.browser).2 := congrArg Prod.snd hout
      rw [← finishLogin_succeeds_iff, Answered, hresponse]
      refine ⟨fun h => h.elim id fun h => ?_, .inl⟩
      rcases finishLogin_snd with hsnd | hsnd
      · exact hsnd
      · exact absurd (hsnd ▸ h.1) not_typed_internalError

theorem answered_iff (hstate : StateValid state s) :
    Answered lib site provider state draws s ↔ Handled lib site provider draws s := by
  have htoken := step_tokenStep provider.token
  cases htokens : tokenStep provider.token with
  | error answer =>
      have hgives (tokens : Tokens φ) : ¬ Gives provider.token tokens := by
        rw [← htoken.ok, htokens]
        simp
      have hout := callback_of_tokenStep lib site draws hstate htokens
      rw [answered_iff_of_error (htoken.typed answer htokens) (by rw [hout]),
        htoken.ne_internalError_iff htokens]
      exact ⟨fun h => ⟨h, fun t ht => absurd ht (hgives t), fun t _ ht => absurd ht (hgives t),
        fun t _ _ ht => absurd ht (hgives t)⟩, Handled.token⟩
  | ok tokens =>
      have hgives := (htoken.ok tokens).mp htokens
      have hunique (tokens' : Tokens φ) (h' : Gives provider.token tokens') : tokens' = tokens :=
        Except.ok.inj (((htoken.ok tokens').mpr h').symm.trans htokens)
      have hcallback := callback_of_tokens lib site draws hstate htokens
      have hauth :=
        step_authenticate lib site s.browser.now provider tokens.idToken s.jwksCache
      rw [handled_iff_of_gives (htoken.handled_of_ok htokens) hgives hunique]
      cases hclaims :
          (authenticate lib site s.browser.now provider tokens.idToken s.jwksCache).1 with
      | error answer =>
          rw [hclaims] at hcallback
          rw [answered_iff_of_error (hauth.typed answer hclaims) hcallback,
            hauth.ne_internalError_iff hclaims]
          refine ⟨fun h => ⟨h, fun claims hc => ?_⟩, And.left⟩
          cases hclaims.symm.trans ((hauth.ok claims).mpr hc)
      | ok claims =>
          have haccepts : ∀ claims', Accepts lib site s.browser.now provider tokens.idToken
              s.jwksCache claims' ↔ claims = claims' := fun claims' => by
            rw [← hauth.ok, hclaims, Except.ok.injEq]
          rw [hclaims] at hcallback
          simp only [haccepts, forall_eq', hauth.handled_of_ok hclaims, true_and]
          exact answered_iff_of_claims hcallback

/-- A stale key set can only raise: under any other, or after the retry, a token
that is good under the key set that is served is accepted. -/
theorem accepts_of_current (hkeys : KeysHandled lib site s.browser.now provider tokens.idToken
      s.jwksCache) {current : Value φ} (hcurrent : Serves provider current)
    (hvalid : validateIdToken lib site s.browser.now tokens.idToken current = .ok claims) :
    Accepts lib site s.browser.now provider tokens.idToken s.jwksCache claims := by
  obtain ⟨hdecode, htenant⟩ := validateIdToken_eq_ok_iff.mp hvalid
  obtain ⟨jwks, hjwks⟩ : ∃ jwks, consulted (inUse s.browser.now s.jwksCache) provider.jwks =
      some jwks := by
    unfold consulted
    rw [hcurrent.jwks]
    cases inUse s.browser.now s.jwksCache with
    | none => exact ⟨current, rfl⟩
    | some cached => exact ⟨cached, rfl⟩
  cases hfirst : decodeIdToken lib site s.browser.now tokens.idToken jwks with
  | ok claims' =>
      obtain rfl := decodeIdToken_unique hfirst hdecode
      exact .inl ⟨jwks, hjwks, validateIdToken_eq_ok_iff.mpr ⟨hfirst, htenant⟩⟩
  | error e =>
      obtain rfl := hkeys.first.judged jwks hjwks e hfirst
      exact .inr ⟨.inl ⟨jwks, hjwks, hfirst⟩, current, hcurrent.refreshed, hvalid⟩

theorem callback_succeeds (hstate : StateValid state s) (h : Handled lib site provider draws s)
    (hgives : Gives provider.token tokens)
    (haccepts : Accepts lib site s.browser.now provider tokens.idToken s.jwksCache claims)
    {who : Person φ} (hwho : Names lib claims who) :
    (callback lib site provider state draws s).2 = .redirect "/mcp-setup" := by
  have htokens := ((step_tokenStep provider.token).ok tokens).mpr hgives
  have hcallback := callback_of_tokens lib site draws hstate htokens
  rw [((step_authenticate lib site s.browser.now provider tokens.idToken s.jwksCache).ok
    claims).mpr haccepts] at hcallback
  have henter : enter lib site tokens claims draws s.browser =
      finishLogin lib site tokens who draws s.browser := by
    rw [enter, ((step_identify lib claims).ok who).mpr hwho]
  have hlogin := h.login tokens claims who hgives haccepts hwho
  exact (congrArg Prod.snd (hcallback.trans henter)).trans (finishLogin_succeeds_iff.mpr hlogin)

/-- The callback keeps its contract just when no step meets an exception that it
has no `except` clause for. -/
theorem callback_contract_iff (lib : Libraries φ) (site : Entra) (provider : Provider φ)
    (state : String) (draws : Draws) (s : Service φ) :
    Contract lib site provider state draws s ↔
      (StateValid state s → Handled lib site provider draws s) := by
  constructor
  · intro h hstate
    exact (answered_iff hstate).mp h.answered
  · intro h
    refine ⟨?_, fun tokens current claims who hstate hgives hcurrent hvalid hwho => ?_⟩
    · by_cases hstate : StateValid state s
      · exact (answered_iff hstate).mpr (h hstate)
      · have hout : callback lib site provider state draws s =
            (s, loginError "AUTH_INVALID_STATE") := by
          unfold StateValid at hstate
          rw [callback, if_pos hstate]
        rw [Answered, hout]
        exact .inr ⟨typed_loginError (by decide), rfl⟩
    · have hhandled := h hstate
      exact callback_succeeds hstate hhandled hgives
        (accepts_of_current (hhandled.keys tokens hgives) hcurrent hvalid) hwho

end

/-! ### A rotated signing key -/

/-- What the service assumes of the JOSE library's exceptions. -/
structure Documented (lib : Libraries φ) : Prop where
  /-- a malformed key set -/
  importKeySet : ∀ jwks e, lib.importKeySet jwks = .error e → e = .valueError ∨ e = .keyError
  /-- a bad signature, or a `kid` that the key set does not have -/
  verify : ∀ idToken keySet e, lib.verify idToken keySet = .error e →
    e = .joseError ∨ e = .valueError ∨ e = .keyError
  validate : ∀ options now claims e, lib.validate options now claims = .error e → e = .joseError

/-- The `kid` of a key. -/
def kidOf : Value ℚ → Option Str
  | .obj key => match Fields.get? key (text "kid") with
    | some (.str kid) => some kid
    | _ => none
  | _ => none

/-- Libraries for which a token is its `kid`, with claims for one person. The
lookup of a `kid` raises a `ValueError`, as `KeySet.find_by_kid` does. -/
def kidLibraries : Libraries ℚ where
  runtime := ⟨fun q => q = 0, fun q => q.num.tdiv q.den,
    fun c => if c.isDigit then some (c.toNat - 48) else none, 4300⟩
  KeySet := List Str
  importKeySet
    | .obj d => match Fields.get? d (text "keys") with
      | some (.arr keys) => .ok (keys.filterMap kidOf)
      | some _ => .error .valueError
      | none => .error .keyError
    | _ => .error .valueError
  verify
    | .str kid, keySet => if kid ∈ keySet then .ok () else .error .valueError
    | _, _ => .error .joseError
  payload _ := some [(text "tid", .str (text "tenant")),
    (text "oid", .str (text "00000000-0000-0000-0000-000000000001")),
    (text "email", .str (text "alice@sandinas.test"))]
  validate _ _ _ := .ok ()
  encodes _ := true
  encrypt _ plaintext := some plaintext
  indexable _ := true

/-- A key set with one key. -/
def oneKey (kid : String) : Value ℚ :=
  .obj [(text "keys", .arr [.obj [(text "kid", .str (text kid))]])]

/-- The token is signed under the key that the endpoint serves now. -/
def rotatedProvider : Provider ℚ where
  token := .response 200 (some (.obj [(text "id_token", .str (text "new")),
    (text "access_token", .str (text "access")), (text "refresh_token", .str (text "refresh"))]))
  jwks := .response 200 (some (oneKey "new"))
  refreshed := .response 200 (some (oneKey "new"))

/-- A browser in the middle of its first login; the cached key set is a minute old. -/
def rotatedService : Service ℚ where
  browser := ⟨0, default, ⟨some ⟨"state", seconds 300⟩, none, none⟩, none, false⟩
  jwksCache := ⟨oneKey "old", -seconds 60⟩

def rotatedDraws : Draws :=
  ⟨⟨1, 2, 3, ⟨"bearer", by decide, by decide⟩⟩, [], []⟩

def tenantSite : Entra := ⟨⟨default, fun _ => ""⟩, "tenant", "client"⟩

theorem documented_kidLibraries : Documented kidLibraries where
  importKeySet jwks e h := by
    unfold kidLibraries at h
    simp only at h
    split at h
    · split at h
      · cases h
      · cases h
        exact .inl rfl
      · cases h
        exact .inr rfl
    · cases h
      exact .inl rfl
  verify idToken keySet e h := by
    cases idToken with
    | str kid =>
        simp only [kidLibraries] at h
        split at h
        · cases h
        · cases h
          exact .inr (.inl rfl)
    | _ =>
        cases h
        exact .inl rfl
  validate options now claims e h := by cases h

/-- The unknown `kid` is a `ValueError`, which no clause of step 3 names: the key
set is not fetched again, and the answer is a 500. -/
theorem not_forall_contract : ¬ ∀ (φ : Type) (lib : Libraries φ) (site : Entra)
    (provider : Provider φ) (state : String) (draws : Draws) (s : Service φ),
    Documented lib → StateValid state s → Contract lib site provider state draws s := by
  intro h
  have hcontract := h ℚ kidLibraries tenantSite rotatedProvider "state" rotatedDraws
    rotatedService documented_kidLibraries rfl
  have hout : (callback kidLibraries tenantSite rotatedProvider "state" rotatedDraws
      rotatedService).2 = .internalError := by
    rfl
  have hanswered := hcontract.answered
  rw [Answered, hout] at hanswered
  rcases hanswered with h | ⟨h, -⟩
  · cases h
  · exact not_typed_internalError h

/-! ### The callback with the identity given -/

section

variable {lib : Libraries φ} {site : Entra} {provider : Provider φ} {state : String}
  {draws : Draws} {s : Service φ} {tokens : Tokens φ} {who : Person φ} {now : ℤ}
  {db db' : Database} {user : User} {bearer : Option Token}

/-- What step 5 writes is what `upsertUser` writes for some identity. -/
theorem upsertUser_of_upsert
    (h : upsert lib site now tokens who draws db = .ok (user, bearer, db')) :
    ∃ identity, upsertUser site.sha256Hex now identity draws.toLoginDraws db =
      some (user, bearer, db') := by
  obtain ⟨n, -, h⟩ := bind_eq_ok h
  cases hselect : db.users.select fun r => r.microsoftOid = who.msOid with
  | cons row rest =>
      rw [hselect] at h
      obtain ⟨access, -, h⟩ := bind_eq_ok h
      obtain ⟨refresh, -, h⟩ := map_eq_ok h
      have hoid : row.microsoftOid = who.msOid := by
        have hmem : row ∈ db.users.select fun r => r.microsoftOid = who.msOid := by
          rw [hselect]
          exact List.mem_cons_self
        simpa using (Table.mem_select.mp hmem).2
      refine ⟨⟨row.microsoftOid, row.email, row.displayName, access, refresh, n⟩, ?_⟩
      rw [upsertUser, hoid, hselect, ← h, hoid]
  | nil =>
      rw [hselect] at h
      obtain ⟨email, -, h⟩ := bind_eq_ok h
      obtain ⟨displayName, -, h⟩ := bind_eq_ok h
      split at h
      · obtain ⟨access, -, h⟩ := bind_eq_ok h
        obtain ⟨refresh, -, h⟩ := bind_eq_ok h
        split at h
        · cases h
        · rename_i hcreate
          cases h
          refine ⟨⟨who.msOid, email, displayName, access, refresh, n⟩, ?_⟩
          rw [upsertUser, hselect, hcreate]
          rfl
      · cases h

theorem authCallback_of_error (hstate : StateValid state s) (code : String) :
    Auth.callback site.toSite s.browser state (.error code) draws.toLoginDraws =
      (s.browser, loginError code) := by
  unfold StateValid at hstate
  rw [Auth.callback, if_neg (not_not.mpr hstate)]
  rfl

theorem authCallback_of_finishLogin (hstate : StateValid state s)
    (h : (finishLogin lib site tokens who draws s.browser).2 ≠ .internalError) :
    ∃ identity, Auth.callback site.toSite s.browser state (.ok identity) draws.toLoginDraws =
      finishLogin lib site tokens who draws s.browser := by
  unfold StateValid at hstate
  unfold finishLogin at h ⊢
  split at h
  · exact absurd rfl h
  · rename_i user bearer db hupsert
    split at h
    · rename_i hencodes
      obtain ⟨identity, hidentity⟩ := upsertUser_of_upsert hupsert
      refine ⟨identity, ?_⟩
      rw [Auth.callback, if_neg (not_not.mpr hstate), if_pos hencodes]
      simp only [hidentity]
    · exact absurd rfl h

/-- An answer that is no 500 is the answer to some identity, or to some error code. -/
theorem callback_refines (h : (callback lib site provider state draws s).2 ≠ .internalError) :
    ∃ who, Auth.callback site.toSite s.browser state who draws.toLoginDraws =
      ((callback lib site provider state draws s).1.browser,
        (callback lib site provider state draws s).2) := by
  by_cases hstate : StateValid state s
  · -- an early answer is a typed error
    have hearly {answer : Response} (hanswer : answer = .internalError ∨ Typed answer)
        (hout : ((callback lib site provider state draws s).1.browser,
          (callback lib site provider state draws s).2) = (s.browser, answer)) :
        ∃ who, Auth.callback site.toSite s.browser state who draws.toLoginDraws =
          ((callback lib site provider state draws s).1.browser,
            (callback lib site provider state draws s).2) := by
      rcases hanswer with rfl | ⟨code, -, rfl⟩
      · exact absurd (congrArg Prod.snd hout) h
      · exact ⟨.error code, (authCallback_of_error hstate code).trans hout.symm⟩
    cases htokens : tokenStep provider.token with
    | error answer =>
        refine hearly ((step_tokenStep provider.token).typed answer htokens) ?_
        rw [callback_of_tokenStep lib site draws hstate htokens]
    | ok tokens =>
        have hcallback := callback_of_tokens lib site draws hstate htokens
        cases hclaims :
            (authenticate lib site s.browser.now provider tokens.idToken s.jwksCache).1 with
        | error answer =>
            rw [hclaims] at hcallback
            exact hearly ((step_authenticate ..).typed answer hclaims) hcallback
        | ok claims =>
            rw [hclaims] at hcallback
            cases hwho : identify lib claims with
            | error answer =>
                have henter : enter lib site tokens claims draws s.browser =
                    (s.browser, answer) := by
                  rw [enter, hwho]
                exact hearly ((step_identify lib claims).typed answer hwho)
                  (hcallback.trans henter)
            | ok who =>
                have hfinish : enter lib site tokens claims draws s.browser =
                    finishLogin lib site tokens who draws s.browser := by
                  rw [enter, hwho]
                have hout := hcallback.trans hfinish
                obtain ⟨identity, hidentity⟩ := authCallback_of_finishLogin hstate
                  (congrArg Prod.snd hout ▸ h)
                exact ⟨.ok identity, hidentity.trans hout.symm⟩
  · unfold StateValid at hstate
    exact ⟨.error "", by rw [Auth.callback, if_pos hstate, callback, if_pos hstate]; rfl⟩

end

end Answers

end TranscriptionApi.Auth.OAuth
