import TranscriptionApi.Auth.Callback

/-!
What each step of `callback` comes to, in terms of the provider's answers, the
key set, the claims and the database: the values it returns, its typed errors,
and the inputs on which an exception escapes its `except` clauses. One lemma a
step says all three, a `Step`.
-/

namespace TranscriptionApi.Auth.OAuth

open Db Lib Lib.Json Python

/-- The codes of `/login?error=`. -/
def authErrors : List String :=
  ["AUTH_INVALID_STATE", "AUTH_PROVIDER_UNAVAILABLE", "AUTH_INVALID_OAUTH_CODE",
    "AUTH_TENANT_NOT_ALLOWED"]

def Typed (answer : Response) : Prop := ∃ code ∈ authErrors, answer = loginError code

theorem typed_loginError {code : String} (h : code ∈ authErrors) : Typed (loginError code) :=
  ⟨code, h, rfl⟩

theorem not_typed_internalError : ¬ Typed .internalError := by
  rintro ⟨code, -, h⟩
  cases h

/-- What a step of the ladder comes to: the values that `Gives` says; a 500 just
when it is not `Handled`; and otherwise a typed error. -/
structure Step {α : Type} (out : Except Response α) (Gives : α → Prop) (Handled : Prop) :
    Prop where
  ok : ∀ a, out = .ok a ↔ Gives a
  raised : out = .error .internalError ↔ ¬ Handled
  typed : ∀ answer, out = .error answer → answer = .internalError ∨ Typed answer

namespace Step

variable {α : Type} {out : Except Response α} {Gives : α → Prop} {Handled : Prop}

theorem of_ok {a : α} (hout : out = .ok a) (hgives : ∀ a', Gives a' ↔ a = a') (h : Handled) :
    Step out Gives Handled where
  ok a' := by rw [hout, hgives, Except.ok.injEq]
  raised := by simp [hout, h]
  typed answer hanswer := by simp [hout] at hanswer

theorem of_typed {code : String} (hout : out = .error (loginError code)) (hcode : code ∈ authErrors)
    (hgives : ∀ a, ¬ Gives a) (h : Handled) : Step out Gives Handled where
  ok a := by simp [hout, hgives]
  raised := by simp [hout, loginError, h]
  typed answer hanswer := by
    rw [hout, Except.error.injEq] at hanswer
    exact .inr ⟨code, hcode, hanswer.symm⟩

theorem handled_of_ok (h : Step out Gives Handled) {a : α} (hout : out = .ok a) : Handled := by
  rw [← not_not (a := Handled), ← h.raised, hout]
  intro heq
  cases heq

theorem ne_internalError_iff (h : Step out Gives Handled) {answer : Response}
    (hout : out = .error answer) : answer ≠ .internalError ↔ Handled := by
  rw [← not_not (a := Handled), ← h.raised, hout, Except.error.injEq]

theorem congr {Gives' : α → Prop} {Handled' : Prop} (h : Step out Gives Handled)
    (hgives : ∀ a, Gives a ↔ Gives' a) (hhandled : Handled ↔ Handled') :
    Step out Gives' Handled' where
  ok a := (h.ok a).trans (hgives a)
  raised := h.raised.trans (not_congr hhandled)
  typed := h.typed

theorem of_raised (hout : out = .error .internalError) (hgives : ∀ a, ¬ Gives a)
    (h : ¬ Handled) : Step out Gives Handled where
  ok a := by simp [hout, hgives]
  raised := by simp [hout, h]
  typed answer hanswer := by
    rw [hout, Except.error.injEq] at hanswer
    exact .inl hanswer.symm

end Step

section Answers

variable {φ : Type}

/-! ### HTTP answers -/

/-- The JSON value that an answer brings. -/
def served : HttpAnswer φ → Option (Value φ)
  | .response status body => if status < 400 then body else none
  | _ => none

/-- A 4xx. -/
def Refused : HttpAnswer φ → Prop
  | .response status _ => 400 ≤ status ∧ status < 500
  | _ => False

/-- The request fails as `httpx` announces it, or has a status from 400 on, or
its body is JSON. -/
def Copes : HttpAnswer φ → Prop
  | .unreachable => True
  | .broken => False
  | .response status body => status < 400 → body.isSome

theorem readJson_cases (refused : Raised) (answer : HttpAnswer φ) :
    (∃ v, readJson refused answer = .ok v ∧ served answer = some v ∧ Copes answer ∧
        ¬ Refused answer) ∨
      (served answer = none ∧
        (readJson refused answer = .error refused ∧ Copes answer ∧ Refused answer ∨
          readJson refused answer = .error .oauthProviderUnavailable ∧ Copes answer ∧
            ¬ Refused answer ∨
          ∃ e, readJson refused answer = .error (.py e) ∧ ¬ Copes answer ∧ ¬ Refused answer)) := by
  cases answer with
  | unreachable => exact .inr ⟨rfl, .inr (.inl ⟨rfl, trivial, id⟩)⟩
  | broken => exact .inr ⟨rfl, .inr (.inr ⟨.other, rfl, id, id⟩)⟩
  | response status body =>
      by_cases h500 : 500 ≤ status
      · refine .inr ⟨if_neg (by omega), .inr (.inl ⟨if_pos h500, ?_, ?_⟩)⟩
        · exact fun h => absurd h (by omega)
        · exact fun h => absurd h.2 (by omega)
      · by_cases h400 : 400 ≤ status
        · refine .inr ⟨if_neg (by omega), .inl ⟨?_, ?_, h400, by omega⟩⟩
          · rw [readJson, if_neg h500, if_pos h400]
          · exact fun h => absurd h (by omega)
        · have hread : readJson refused (.response status body) =
              body.elim (.error (.py .valueError)) .ok := by
            rw [readJson, if_neg h500, if_neg h400]
          have hserved : served (.response status body) = body := if_pos (by omega)
          have hrefused : ¬ Refused (.response status body) := fun h => h400 h.1
          rw [hread, hserved]
          cases body with
          | none =>
              refine .inr ⟨rfl, .inr (.inr ⟨.valueError, rfl, fun h => ?_, hrefused⟩)⟩
              exact Bool.false_ne_true (h (by omega))
          | some v => exact .inl ⟨v, rfl, rfl, fun _ => rfl, hrefused⟩

/-! ### Step 2 -/

/-- The answer of the token endpoint brings these tokens. -/
structure Gives (answer : HttpAnswer φ) (tokens : Tokens φ) : Prop where
  object : served answer = some (.obj tokens.response)
  idToken : Fields.get? tokens.response (text "id_token") = some tokens.idToken
  accessToken : Fields.get? tokens.response (text "access_token") = some tokens.accessToken
  refreshToken : Fields.get? tokens.response (text "refresh_token") = some tokens.refreshToken

/-- The token endpoint brings an object, if it brings anything. -/
structure TokenHandled (answer : HttpAnswer φ) : Prop where
  copes : Copes answer
  object : ∀ v, served answer = some v → ∃ d, v = .obj d

theorem readTokens_eq_ok_iff {v : Value φ} {tokens : Tokens φ} :
    readTokens v = .ok tokens ↔ v = .obj tokens.response ∧
      Fields.get? tokens.response (text "id_token") = some tokens.idToken ∧
      Fields.get? tokens.response (text "access_token") = some tokens.accessToken ∧
      Fields.get? tokens.response (text "refresh_token") = some tokens.refreshToken := by
  constructor
  · intro h
    obtain ⟨idToken, hid, h⟩ := bind_eq_ok h
    obtain ⟨accessToken, haccess, h⟩ := bind_eq_ok h
    obtain ⟨refreshToken, hrefresh, rfl⟩ := map_eq_ok h
    obtain ⟨d, rfl, hget⟩ := Value.subscript_eq_ok_iff.mp hid
    simp only [Value.subscript_eq_ok_iff, Value.obj.injEq, exists_eq_left'] at haccess hrefresh
    exact ⟨rfl, hget, haccess, hrefresh⟩
  · rintro ⟨rfl, hid, haccess, hrefresh⟩
    simp only [readTokens, Value.subscript, hid, haccess, hrefresh, Option.elim, Except.bind,
      Except.map, Value.fields?, Option.getD]

/-- The exception of step 2 says whether the body is an object. -/
theorem error_of_readTokens {v : Value φ} {e : PyError} (h : readTokens v = .error e) :
    e = .keyError ∧ (∃ d, v = .obj d) ∨ e = .typeError ∧ ¬ ∃ d, v = .obj d := by
  cases v with
  | obj d =>
      refine .inl ⟨?_, d, rfl⟩
      simp only [readTokens, Value.subscript] at h
      cases hid : Fields.get? d (text "id_token") with
      | none => simpa [hid, Except.bind, eq_comm] using h
      | some idToken =>
          cases haccess : Fields.get? d (text "access_token") with
          | none => simpa [hid, haccess, Except.bind, eq_comm] using h
          | some accessToken =>
              cases hrefresh : Fields.get? d (text "refresh_token") with
              | none => simpa [hid, haccess, hrefresh, Except.bind, Except.map, eq_comm] using h
              | some _ => simp [hid, haccess, hrefresh, Except.bind, Except.map] at h
  | _ =>
      refine .inr ⟨(Except.error.inj h).symm, ?_⟩
      rintro ⟨d, hd⟩
      cases hd

theorem step_tokenStep (answer : HttpAnswer φ) :
    Step (tokenStep answer) (Gives answer) (TokenHandled answer) := by
  rcases readJson_cases .oauthCodeInvalid answer with ⟨v, hread, hserved, hcopes, -⟩ |
    ⟨hserved, hread⟩
  · cases htokens : readTokens v with
    | ok tokens =>
        have hout : tokenStep answer = .ok tokens := by
          simp only [tokenStep, exchangeCode, hread, htokens]
        obtain ⟨hv, -⟩ := readTokens_eq_ok_iff.mp htokens
        refine .of_ok hout (fun tokens' => ?_) ⟨hcopes, fun w hw => ?_⟩
        · have hgives : Gives answer tokens' ↔ readTokens v = .ok tokens' := by
            rw [readTokens_eq_ok_iff, ← Option.some_inj, ← hserved]
            exact ⟨fun h => ⟨h.1, h.2, h.3, h.4⟩, fun h => ⟨h.1, h.2.1, h.2.2.1, h.2.2.2⟩⟩
          rw [hgives, htokens, Except.ok.injEq]
        · exact ⟨tokens.response, (Option.some.inj (hw.symm.trans hserved)).trans hv⟩
    | error e =>
        have hgives (tokens : Tokens φ) : ¬ Gives answer tokens := by
          intro h
          have hv := Option.some.inj (hserved.symm.trans h.object)
          rw [readTokens_eq_ok_iff.mpr ⟨hv, h.idToken, h.accessToken, h.refreshToken⟩] at htokens
          cases htokens
        rcases error_of_readTokens htokens with ⟨rfl, d, rfl⟩ | ⟨rfl, hobj⟩
        · have hout : tokenStep answer = .error (loginError "AUTH_PROVIDER_UNAVAILABLE") := by
            simp only [tokenStep, exchangeCode, hread, htokens]
          refine .of_typed hout (by decide) hgives ⟨hcopes, fun w hw => ?_⟩
          exact ⟨d, Option.some.inj (hw.symm.trans hserved)⟩
        · have hout : tokenStep answer = .error .internalError := by
            simp only [tokenStep, exchangeCode, hread, htokens]
          exact .of_raised hout hgives fun h => hobj (h.object v hserved)
  · have hgives (tokens : Tokens φ) : ¬ Gives answer tokens := by
      intro h
      rw [h.object] at hserved
      cases hserved
    have hobject (v : Value φ) (hv : served answer = some v) : ∃ d, v = .obj d := by
      rw [hserved] at hv
      cases hv
    rcases hread with ⟨hread, hcopes, -⟩ | ⟨hread, hcopes, -⟩ | ⟨e, hread, hcopes, -⟩
    · exact .of_typed (by simp only [tokenStep, exchangeCode, hread]; rfl) (by decide) hgives
        ⟨hcopes, hobject⟩
    · exact .of_typed (by simp only [tokenStep, exchangeCode, hread]; rfl) (by decide) hgives
        ⟨hcopes, hobject⟩
    · exact .of_raised (by simp only [tokenStep, exchangeCode, hread]) hgives
        fun h => hcopes h.copes

/-! ### Step 3 -/

section

variable (lib : Libraries φ) (site : Entra) (now : ℤ)

/-- The cached key set, as long as it is fresh. -/
def inUse (cache : JwksCache φ) : Option (Value φ) :=
  if cacheIsFresh now cache then some cache.jwks else none

/-- The key set of an attempt: the one it holds, or else the one it is served. -/
def consulted (held : Option (Value φ)) (answer : HttpAnswer φ) : Option (Value φ) :=
  held.or (served answer)

/-- Under this key set the library accepts the token or raises a `JoseError`. -/
def Judged (idToken jwks : Value φ) : Prop :=
  ∀ e, decodeIdToken lib site now idToken jwks = .error e → e = .joseError

/-- An attempt that raises none but the exceptions of `oauth_client`. -/
structure KeysRead (held : Option (Value φ)) (answer : HttpAnswer φ) (idToken : Value φ) :
    Prop where
  copes : held = none → Copes answer
  judged : ∀ jwks, consulted held answer = some jwks → Judged lib site now idToken jwks

/-- An attempt that is followed by another: a `JoseError`, or a 4xx for the key set. -/
def Declined (held : Option (Value φ)) (answer : HttpAnswer φ) (idToken : Value φ) : Prop :=
  (∃ jwks, consulted held answer = some jwks ∧
      decodeIdToken lib site now idToken jwks = .error .joseError) ∨
    held = none ∧ Refused answer

/-- An attempt that returns these claims. -/
def Validates (held : Option (Value φ)) (answer : HttpAnswer φ) (idToken : Value φ)
    (claims : Fields φ) : Prop :=
  ∃ jwks, consulted held answer = some jwks ∧
    validateIdToken lib site now idToken jwks = .ok claims

/-- Both attempts of step 3, the second if the first is declined. -/
structure KeysHandled (provider : Provider φ) (idToken : Value φ) (cache : JwksCache φ) :
    Prop where
  first : KeysRead lib site now (inUse now cache) provider.jwks idToken
  retry : Declined lib site now (inUse now cache) provider.jwks idToken →
    KeysRead lib site now none provider.refreshed idToken

/-- The claims come of the first attempt, or of the second. -/
def Accepts (provider : Provider φ) (idToken : Value φ) (cache : JwksCache φ)
    (claims : Fields φ) : Prop :=
  Validates lib site now (inUse now cache) provider.jwks idToken claims ∨
    Declined lib site now (inUse now cache) provider.jwks idToken ∧
      Validates lib site now none provider.refreshed idToken claims

/-- What an attempt comes to, given the key set it holds. -/
def tryKeys (held : Option (Value φ)) (answer : HttpAnswer φ) (idToken : Value φ) :
    Except Raised (Fields φ) :=
  (held.elim (readJson .idTokenInvalid answer) .ok).bind (validateIdToken lib site now idToken)

theorem fetchJwks_fst (forceRefresh : Bool) (answer : HttpAnswer φ) (cache : JwksCache φ) :
    (fetchJwks forceRefresh now answer cache).1 =
      (if forceRefresh then none else inUse now cache).elim
        (readJson .idTokenInvalid answer) .ok := by
  have hserve : (fetchJwks true now answer cache).1 = readJson .idTokenInvalid answer := by
    rw [fetchJwks, if_neg (by simp)]
    cases readJson .idTokenInvalid answer with
    | error e => rfl
    | ok jwks => rfl
  cases forceRefresh with
  | true => exact hserve
  | false =>
      unfold inUse
      cases hfresh : cacheIsFresh now cache with
      | true => simp [fetchJwks, hfresh]
      | false =>
          have hforced : fetchJwks false now answer cache = fetchJwks true now answer cache := by
            rw [fetchJwks, fetchJwks, if_neg (by simp [hfresh]), if_neg (by simp)]
          rw [hforced, hserve]
          rfl

theorem attempt_fst (forceRefresh : Bool) (answer : HttpAnswer φ) (idToken : Value φ)
    (cache : JwksCache φ) : (attempt lib site now forceRefresh answer idToken cache).1 =
      tryKeys lib site now (if forceRefresh then none else inUse now cache) answer idToken := by
  rw [tryKeys, ← fetchJwks_fst]
  unfold attempt
  cases fetchJwks forceRefresh now answer cache with
  | mk out cache' =>
      cases out with
      | error e => rfl
      | ok jwks => rfl

section

variable {lib site now} {held : Option (Value φ)} {answer : HttpAnswer φ} {idToken jwks : Value φ}
  {claims : Fields φ}

/-- The claims are those of the token, whatever the key set. -/
theorem decodeIdToken_unique {jwks' : Value φ} {claims' : Fields φ}
    (h : decodeIdToken lib site now idToken jwks = .ok claims)
    (h' : decodeIdToken lib site now idToken jwks' = .ok claims') : claims = claims' := by
  have hpayload {keys : Value φ} {d : Fields φ}
      (hd : decodeIdToken lib site now idToken keys = .ok d) : lib.payload idToken = some d := by
    obtain ⟨keySet, -, hd⟩ := bind_eq_ok hd
    obtain ⟨-, -, hd⟩ := bind_eq_ok hd
    split at hd
    · cases hd
    · rename_i payload hpayload
      obtain ⟨-, -, rfl⟩ := map_eq_ok hd
      exact hpayload
  exact Option.some.inj ((hpayload h).symm.trans (hpayload h'))

theorem validateIdToken_of_error {e : PyError}
    (h : decodeIdToken lib site now idToken jwks = .error e) :
    validateIdToken lib site now idToken jwks =
      .error (if e = .joseError then .idTokenInvalid else .py e) := by
  rw [validateIdToken, h]
  cases e with
  | _ => rfl

theorem validateIdToken_of_ok (h : decodeIdToken lib site now idToken jwks = .ok claims) :
    validateIdToken lib site now idToken jwks =
      if tenantAllowed site claims then .ok claims else .error .tenantNotAllowed := by
  rw [validateIdToken, h]

theorem validateIdToken_eq_ok_iff : validateIdToken lib site now idToken jwks = .ok claims ↔
    decodeIdToken lib site now idToken jwks = .ok claims ∧ tenantAllowed site claims = true := by
  cases hdecode : decodeIdToken lib site now idToken jwks with
  | error e => simp [validateIdToken_of_error hdecode]
  | ok claims' =>
      rw [validateIdToken_of_ok hdecode, Except.ok.injEq]
      constructor
      · intro h
        split at h
        · rename_i hallowed
          obtain rfl := Except.ok.inj h
          exact ⟨rfl, hallowed⟩
        · cases h
      · rintro ⟨rfl, hallowed⟩
        exact if_pos hallowed

theorem validateIdToken_declines_iff :
    validateIdToken lib site now idToken jwks = .error .idTokenInvalid ↔
      decodeIdToken lib site now idToken jwks = .error .joseError := by
  cases hdecode : decodeIdToken lib site now idToken jwks with
  | error e =>
      rw [validateIdToken_of_error hdecode]
      by_cases he : e = .joseError
      · simp [he]
      · simp [he]
  | ok claims =>
      rw [validateIdToken_of_ok hdecode]
      split
      · simp
      · simp

theorem validateIdToken_raises_iff :
    (∃ e, validateIdToken lib site now idToken jwks = .error (.py e)) ↔
      ¬ Judged lib site now idToken jwks := by
  unfold Judged
  cases hdecode : decodeIdToken lib site now idToken jwks with
  | error e =>
      rw [validateIdToken_of_error hdecode]
      by_cases he : e = .joseError
      · simp [he]
      · simp [he]
  | ok claims =>
      rw [validateIdToken_of_ok hdecode]
      split
      · simp
      · simp

theorem tryKeys_eq_ok_iff : tryKeys lib site now held answer idToken = .ok claims ↔
    Validates lib site now held answer idToken claims := by
  unfold Validates consulted tryKeys
  cases held with
  | some jwks => simp [Except.bind]
  | none =>
      rcases readJson_cases .idTokenInvalid answer with ⟨v, hread, hserved, -⟩ |
        ⟨hserved, ⟨hread, -⟩ | ⟨hread, -⟩ | ⟨e, hread, -⟩⟩
      · simp [hread, hserved, Except.bind]
      · simp [hread, hserved, Except.bind]
      · simp [hread, hserved, Except.bind]
      · simp [hread, hserved, Except.bind]

theorem tryKeys_declines_iff :
    tryKeys lib site now held answer idToken = .error .idTokenInvalid ↔
      Declined lib site now held answer idToken := by
  unfold Declined consulted tryKeys
  cases held with
  | some jwks => simp [Except.bind, validateIdToken_declines_iff]
  | none =>
      rcases readJson_cases .idTokenInvalid answer with ⟨v, hread, hserved, -, hrefused⟩ |
        ⟨hserved, ⟨hread, -, hrefused⟩ | ⟨hread, -, hrefused⟩ | ⟨e, hread, -, hrefused⟩⟩
      · simp [hread, hserved, hrefused, Except.bind, validateIdToken_declines_iff]
      · simp [hread, hserved, hrefused, Except.bind]
      · simp [hread, hserved, hrefused, Except.bind]
      · simp [hread, hserved, hrefused, Except.bind]

theorem tryKeys_raises_iff :
    (∃ e, tryKeys lib site now held answer idToken = .error (.py e)) ↔
      ¬ KeysRead lib site now held answer idToken := by
  have hkeys : KeysRead lib site now held answer idToken ↔ (held = none → Copes answer) ∧
      ∀ jwks, consulted held answer = some jwks → Judged lib site now idToken jwks :=
    ⟨fun h => ⟨h.copes, h.judged⟩, fun h => ⟨h.1, h.2⟩⟩
  rw [hkeys]
  unfold consulted tryKeys
  cases held with
  | some jwks => simp [Except.bind, validateIdToken_raises_iff]
  | none =>
      rcases readJson_cases .idTokenInvalid answer with ⟨v, hread, hserved, hcopes, -⟩ |
        ⟨hserved, ⟨hread, hcopes, -⟩ | ⟨hread, hcopes, -⟩ | ⟨e, hread, hcopes, -⟩⟩
      · simp [hread, hserved, hcopes, Except.bind, validateIdToken_raises_iff]
      · simp [hread, hserved, hcopes, Except.bind]
      · simp [hread, hserved, hcopes, Except.bind]
      · simp [hread, hserved, hcopes, Except.bind]

end

theorem authenticate_fst (provider : Provider φ) (idToken : Value φ) (cache : JwksCache φ) :
    (authenticate lib site now provider idToken cache).1 =
      retryAnswer
        (match tryKeys lib site now (inUse now cache) provider.jwks idToken with
          | .error .idTokenInvalid => tryKeys lib site now none provider.refreshed idToken
          | first => first) := by
  have hfirst := attempt_fst lib site now false provider.jwks idToken cache
  unfold authenticate
  cases hattempt : attempt lib site now false provider.jwks idToken cache with
  | mk first cache' =>
      rw [hattempt] at hfirst
      rw [← hfirst.trans (congrArg (tryKeys lib site now · _ _) (if_neg Bool.false_ne_true))]
      cases first with
      | ok claims => rfl
      | error e =>
          cases e with
          | idTokenInvalid =>
              exact congrArg retryAnswer
                (attempt_fst lib site now true provider.refreshed idToken cache')
          | _ => rfl

theorem tryKeys_ne_oauthCodeInvalid (held : Option (Value φ)) (answer : HttpAnswer φ)
    (idToken : Value φ) : tryKeys lib site now held answer idToken ≠ .error .oauthCodeInvalid := by
  have hvalidate (jwks : Value φ) :
      validateIdToken lib site now idToken jwks ≠ .error .oauthCodeInvalid := by
    cases hdecode : decodeIdToken lib site now idToken jwks with
    | error e =>
        rw [validateIdToken_of_error hdecode]
        split
        · simp
        · simp
    | ok claims =>
        rw [validateIdToken_of_ok hdecode]
        split
        · simp
        · simp
  unfold tryKeys
  cases held with
  | some jwks => exact hvalidate jwks
  | none =>
      rcases readJson_cases .idTokenInvalid answer with ⟨v, hread, -⟩ |
        ⟨-, ⟨hread, -⟩ | ⟨hread, -⟩ | ⟨e, hread, -⟩⟩
      · simpa [hread, Except.bind] using hvalidate v
      · simp [hread, Except.bind]
      · simp [hread, Except.bind]
      · simp [hread, Except.bind]

theorem step_retryAnswer {out : Except Raised (Fields φ)} (hout : out ≠ .error .oauthCodeInvalid) :
    Step (retryAnswer out) (out = .ok ·) (¬ ∃ e, out = .error (.py e)) := by
  cases out with
  | ok claims => exact .of_ok rfl (fun claims' => by rw [Except.ok.injEq]) (by simp)
  | error e =>
      cases e with
      | oauthCodeInvalid => exact absurd rfl hout
      | oauthProviderUnavailable => exact .of_typed rfl (by decide) (by simp) (by simp)
      | idTokenInvalid => exact .of_typed rfl (by decide) (by simp) (by simp)
      | tenantNotAllowed => exact .of_typed rfl (by decide) (by simp) (by simp)
      | py e => exact .of_raised rfl (by simp) (by simp)

theorem step_authenticate (provider : Provider φ) (idToken : Value φ) (cache : JwksCache φ) :
    Step (authenticate lib site now provider idToken cache).1
      (Accepts lib site now provider idToken cache)
      (KeysHandled lib site now provider idToken cache) := by
  have hfirst := step_retryAnswer
    (tryKeys_ne_oauthCodeInvalid lib site now (inUse now cache) provider.jwks idToken)
  have hretry := step_retryAnswer
    (tryKeys_ne_oauthCodeInvalid lib site now none provider.refreshed idToken)
  simp only [tryKeys_eq_ok_iff, tryKeys_raises_iff, not_not] at hfirst hretry
  rw [authenticate_fst]
  by_cases hdeclined : Declined lib site now (inUse now cache) provider.jwks idToken
  · have htry := tryKeys_declines_iff.mpr hdeclined
    have hnone (claims : Fields φ) :
        ¬ Validates lib site now (inUse now cache) provider.jwks idToken claims := by
      rw [← tryKeys_eq_ok_iff, htry]
      simp
    have hread : KeysRead lib site now (inUse now cache) provider.jwks idToken := by
      rw [← not_not (a := KeysRead ..), ← tryKeys_raises_iff, htry]
      simp
    rw [htry]
    refine hretry.congr (fun claims => ?_)
      ⟨fun h => ⟨hread, fun _ => h⟩, fun h => h.retry hdeclined⟩
    exact ⟨fun h => .inr ⟨hdeclined, h⟩, fun h => h.elim (absurd · (hnone claims)) And.right⟩
  · have hmatch : (match tryKeys lib site now (inUse now cache) provider.jwks idToken with
        | .error .idTokenInvalid => tryKeys lib site now none provider.refreshed idToken
        | first => first) = tryKeys lib site now (inUse now cache) provider.jwks idToken := by
      split
      · rename_i htry
        exact absurd (tryKeys_declines_iff.mp htry) hdeclined
      · rfl
    rw [hmatch]
    refine hfirst.congr (fun claims => ?_)
      ⟨fun h => ⟨h, fun hd => absurd hd hdeclined⟩, fun h => h.first⟩
    exact ⟨.inl, fun h => h.elim id fun hd => absurd hd.1 hdeclined⟩

end

/-! ### Step 4 -/

section

variable (lib : Libraries φ)

/-- The `oid` is a text, if the claims have one. -/
def OidHandled (claims : Fields φ) : Prop :=
  ∀ v, Fields.get? claims (text "oid") = some v → ∃ s, v = .str s

/-- The claims name this person: a UUID and an email that is not empty. -/
structure Names (claims : Fields φ) (who : Person φ) : Prop where
  oid : ∃ v, Fields.get? claims (text "oid") = some v ∧ v.toUuid = .ok who.msOid
  email : who.email = emailOf lib claims
  hasEmail : (emailOf lib claims).truth lib.runtime.isZero = true
  displayName : who.displayName = displayNameOf lib claims who.msOid

/-- `uuid.UUID(claims["oid"])`. -/
def readOid (claims : Fields φ) : Except PyError Uuid :=
  ((Value.obj claims).subscript (text "oid")).bind Value.toUuid

theorem readOid_of_get? {claims : Fields φ} {v : Value φ}
    (h : Fields.get? claims (text "oid") = some v) : readOid claims = v.toUuid := by
  have hsub : (Value.obj claims).subscript (text "oid") = .ok v :=
    Value.subscript_eq_ok_iff.mpr ⟨claims, rfl, h⟩
  rw [readOid, hsub, Except.bind]

theorem readOid_eq_ok_iff {claims : Fields φ} {u : Uuid} :
    readOid claims = .ok u ↔
      ∃ v, Fields.get? claims (text "oid") = some v ∧ v.toUuid = .ok u := by
  constructor
  · intro h
    obtain ⟨v, hv, huuid⟩ := bind_eq_ok h
    obtain ⟨d, hd, hget⟩ := Value.subscript_eq_ok_iff.mp hv
    obtain rfl := Value.obj.inj hd
    exact ⟨v, hget, huuid⟩
  · rintro ⟨v, hget, huuid⟩
    rw [readOid_of_get? hget, huuid]

/-- The two exceptions that step 4 names leave out just the values that are no text. -/
theorem readOid_handled_iff {claims : Fields φ} :
    ((∃ u, readOid claims = .ok u) ∨ readOid claims = .error .keyError ∨
      readOid claims = .error .valueError) ↔ OidHandled claims := by
  unfold OidHandled
  cases hget : Fields.get? claims (text "oid") with
  | none =>
      have hkey : readOid claims = .error .keyError := by
        simp only [readOid, Value.subscript, hget, Option.elim, Except.bind]
      exact iff_of_true (.inr (.inl hkey)) fun v hv => by cases hv
  | some v =>
      simp only [readOid_of_get? hget, Option.some.injEq, forall_eq']
      rw [← Value.toUuid_eq_valueError_or_ok_iff]
      constructor
      · rintro (hok | hkey | hvalue)
        · exact .inr hok
        · exact absurd hkey v.toUuid_ne_keyError
        · exact .inl hvalue
      · rintro (hvalue | hok)
        · exact .inr (.inr hvalue)
        · exact .inl hok

theorem step_identify (claims : Fields φ) :
    Step (identify lib claims) (Names lib claims) (OidHandled claims) := by
  unfold identify
  rw [← readOid]
  have hnames (who : Person φ) (h : Names lib claims who) : readOid claims = .ok who.msOid :=
    readOid_eq_ok_iff.mpr h.oid
  cases hoid : readOid claims with
  | ok msOid =>
      have hhandled : OidHandled claims := readOid_handled_iff.mp (.inl ⟨msOid, hoid⟩)
      by_cases hemail : (emailOf lib claims).truth lib.runtime.isZero = true
      · refine .of_ok (if_pos hemail) (fun who => ⟨fun h => ?_, ?_⟩) hhandled
        · have hmsOid : msOid = who.msOid := Except.ok.inj (hoid.symm.trans (hnames who h))
          exact Person.ext hmsOid h.email.symm (hmsOid ▸ h.displayName.symm)
        · rintro rfl
          exact ⟨readOid_eq_ok_iff.mp hoid, rfl, hemail, rfl⟩
      · exact .of_typed (if_neg hemail) (by decide) (fun who h => hemail h.hasEmail) hhandled
  | error e =>
      have hnone (who : Person φ) (h : Names lib claims who) : False := by
        cases hoid.symm.trans (hnames who h)
      by_cases he : e = .keyError ∨ e = .valueError
      · rcases he with rfl | rfl
        · exact .of_typed rfl (by decide) hnone (readOid_handled_iff.mp (.inr (.inl hoid)))
        · exact .of_typed rfl (by decide) hnone (readOid_handled_iff.mp (.inr (.inr hoid)))
      · refine .of_raised ?_ hnone fun h => ?_
        · cases e with
          | keyError => exact absurd (.inl rfl) he
          | valueError => exact absurd (.inr rfl) he
          | _ => rfl
        · rcases readOid_handled_iff.mpr h with ⟨u, hok⟩ | hkey | hvalue
          · cases hoid.symm.trans hok
          · exact he (.inl (Except.error.inj (hoid.symm.trans hkey)))
          · exact he (.inr (Except.error.inj (hoid.symm.trans hvalue)))

end

/-! ### Steps 5 to 7 -/

section

variable (lib : Libraries φ) (site : Entra)

/-- A text that the cipher takes. -/
def Encryptable (nonce : Bytes) (v : Value φ) : Prop :=
  ∃ s cs, v = .str s ∧ s.chars? = some cs ∧ (lib.encrypt nonce (encodeUtf8 cs)).isSome

theorem encryptToken_ok_iff (nonce : Bytes) (v : Value φ) :
    (∃ bytes, encryptToken lib nonce v = .ok bytes) ↔ Encryptable lib nonce v := by
  unfold Encryptable encryptToken
  cases v with
  | str s =>
      cases hchars : s.chars? with
      | none => simp [Value.encode, hchars, Except.bind]
      | some cs =>
          cases hseal : lib.encrypt nonce (encodeUtf8 cs) with
          | none => simp [Value.encode, hchars, Except.bind, hseal]
          | some ciphertext => simp [Value.encode, hchars, Except.bind, hseal]
  | _ => simp [Value.encode, Except.bind]

/-- The value of a text column. -/
def IsColumn (v : Value φ) (column : String) : Prop :=
  ∃ s cs, v = .str s ∧ s.chars? = some cs ∧ '\x00' ∉ cs ∧ column = String.ofList cs

theorem bindText_eq_ok_iff {v : Value φ} {column : String} :
    bindText v = .ok column ↔ IsColumn v column := by
  unfold IsColumn bindText
  cases v with
  | str s =>
      cases hchars : s.chars? with
      | none => simp [hchars]
      | some cs =>
          by_cases hnul : '\x00' ∈ cs
          · simp [hchars, hnul]
          · simp [hchars, hnul, eq_comm]
  | _ => simp

/-- `expires_in` is a number of seconds that ends at a `datetime`. -/
def Expires (now : ℤ) (response : Fields φ) : Prop :=
  ∃ n, (response.getD (text "expires_in") (.int 3600)).toInt lib.runtime = .ok n ∧
    datetimeMin ≤ now + seconds n ∧ now + seconds n ≤ datetimeMax

theorem expiresIn_ok_iff (now : ℤ) (response : Fields φ) :
    (∃ n, expiresIn lib now response = .ok n) ↔ Expires lib now response := by
  unfold Expires expiresIn
  cases (response.getD (text "expires_in") (.int 3600)).toInt lib.runtime with
  | error e => simp [Except.bind]
  | ok n =>
      by_cases hrange : datetimeMin ≤ now + seconds n ∧ now + seconds n ≤ datetimeMax
      · simp [Except.bind, hrange]
      · simp [Except.bind, hrange]

/-- The user that has logged in before. -/
def existing (db : Database) (msOid : Uuid) : Option User :=
  (db.users.select fun r => r.microsoftOid = msOid).head?

/-- A first login: the email and the name are texts that the columns take, no
row is in the way, and the session token is signed. -/
def FirstLogin (who : Person φ) (draws : Draws) (b : Browser) : Prop :=
  ∃ email displayName, IsColumn who.email email ∧ IsColumn who.displayName displayName ∧
    lib.indexable email ∧
    Registrable site.sha256Hex who.msOid email draws.toLoginDraws b.db ∧
    lib.encodes (createSessionToken site.settings b.now
      ⟨draws.userId, who.msOid, email, displayName, b.now, b.now⟩)

/-- Steps 5 to 7 raise nothing. -/
structure LoginHandled (tokens : Tokens φ) (who : Person φ) (draws : Draws) (b : Browser) :
    Prop where
  expires : Expires lib b.now tokens.response
  access : Encryptable lib draws.accessNonce tokens.accessToken
  refresh : Encryptable lib draws.refreshNonce tokens.refreshToken
  known : ∀ user, existing b.db who.msOid = some user →
    lib.encodes (createSessionToken site.settings b.now user)
  new : existing b.db who.msOid = none → FirstLogin lib site who draws b

section

variable {lib site} {tokens : Tokens φ} {who : Person φ} {draws : Draws} {b : Browser} {now n : ℤ}
  {db : Database} {P : User → Prop}

theorem refreshLogin_ok_iff {user : User} :
    (∃ out, refreshLogin lib now tokens user n draws db = .ok out ∧ P out.1) ↔
      Encryptable lib draws.accessNonce tokens.accessToken ∧
        Encryptable lib draws.refreshNonce tokens.refreshToken ∧ P user := by
  rw [refreshLogin, exists_bind_ok_iff, ← encryptToken_ok_iff, ← encryptToken_ok_iff]
  constructor
  · rintro ⟨access, haccess, out, hout, hP⟩
    obtain ⟨refresh, hrefresh, rfl⟩ := map_eq_ok hout
    exact ⟨⟨access, haccess⟩, ⟨refresh, hrefresh⟩, hP⟩
  · rintro ⟨⟨access, haccess⟩, ⟨refresh, hrefresh⟩, hP⟩
    exact ⟨access, haccess, _, congrArg (Except.map _) hrefresh, hP⟩

theorem createLogin_ok_iff :
    (∃ out, createLogin lib site now tokens who n draws db = .ok out ∧ P out.1) ↔
      Encryptable lib draws.accessNonce tokens.accessToken ∧
        Encryptable lib draws.refreshNonce tokens.refreshToken ∧
        ∃ email displayName, IsColumn who.email email ∧ IsColumn who.displayName displayName ∧
          lib.indexable email ∧
          Registrable site.sha256Hex who.msOid email draws.toLoginDraws db ∧
          P ⟨draws.userId, who.msOid, email, displayName, now, now⟩ := by
  simp only [createLogin, exists_bind_ok_iff, bindText_eq_ok_iff]
  rw [← encryptToken_ok_iff, ← encryptToken_ok_iff]
  constructor
  · rintro ⟨email, hemail, displayName, hname, out, hout, hP⟩
    split at hout
    · rename_i hindex
      obtain ⟨access, haccess, hout⟩ := bind_eq_ok hout
      obtain ⟨refresh, hrefresh, hout⟩ := bind_eq_ok hout
      split at hout
      · cases hout
      · rename_i user db' hcreate
        obtain rfl := Except.ok.inj hout
        refine ⟨⟨access, haccess⟩, ⟨refresh, hrefresh⟩, email, displayName, hemail, hname, hindex,
          isSome_createUser_iff.mp (Option.isSome_of_eq_some hcreate), ?_⟩
        exact user_of_createUser hcreate ▸ hP
    · cases hout
  · rintro ⟨⟨access, haccess⟩, ⟨refresh, hrefresh⟩, email, displayName, hemail, hname, hindex,
      hfree, hP⟩
    refine ⟨email, hemail, displayName, hname, ?_⟩
    have hsome : (createUser site.sha256Hex now ⟨who.msOid, email, displayName, access, refresh, n⟩
        draws.toLoginDraws db).isSome := isSome_createUser_iff.mpr hfree
    obtain ⟨⟨user, db'⟩, hcreate⟩ := Option.isSome_iff_exists.mp hsome
    refine ⟨(user, some draws.bearer, db'), ?_, ?_⟩
    · rw [if_pos hindex, haccess, Except.bind, hrefresh, Except.bind, hcreate]
    · exact (user_of_createUser hcreate).symm ▸ hP

theorem finishLogin_snd : (finishLogin lib site tokens who draws b).2 = .redirect "/mcp-setup" ∨
    (finishLogin lib site tokens who draws b).2 = .internalError := by
  unfold finishLogin
  split
  · exact .inr rfl
  · split
    · exact .inl rfl
    · exact .inr rfl

theorem finishLogin_succeeds_iff :
    (finishLogin lib site tokens who draws b).2 = .redirect "/mcp-setup" ↔
      LoginHandled lib site tokens who draws b := by
  have hsuccess : (finishLogin lib site tokens who draws b).2 = .redirect "/mcp-setup" ↔
      ∃ out, upsert lib site b.now tokens who draws b.db = .ok out ∧
        lib.encodes (createSessionToken site.settings b.now out.1) := by
    unfold finishLogin
    cases hupsert : upsert lib site b.now tokens who draws b.db with
    | error e => simp
    | ok out =>
        cases hencodes : lib.encodes (createSessionToken site.settings b.now out.1) with
        | true => simp [hencodes]
        | false => simp [hencodes]
  let Signed (user : User) : Prop :=
    lib.encodes (createSessionToken site.settings b.now user) = true
  rw [hsuccess, upsert, exists_bind_ok_iff]
  cases hselect : b.db.users.select fun r => r.microsoftOid = who.msOid with
  | cons user rest =>
      have hexisting : existing b.db who.msOid = some user := by
        rw [existing, hselect, List.head?_cons]
      constructor
      · rintro ⟨n, hn, hout⟩
        obtain ⟨haccess, hrefresh, hsigned⟩ := (refreshLogin_ok_iff (P := Signed)).mp hout
        refine ⟨(expiresIn_ok_iff ..).mp ⟨n, hn⟩, haccess, hrefresh, fun user' huser' => ?_,
          fun hnone => ?_⟩
        · obtain rfl := Option.some.inj (hexisting.symm.trans huser')
          exact hsigned
        · cases hexisting.symm.trans hnone
      · intro h
        obtain ⟨n, hn⟩ := (expiresIn_ok_iff ..).mpr h.expires
        have hsigned : Signed user := h.known user hexisting
        exact ⟨n, hn, (refreshLogin_ok_iff (P := Signed)).mpr ⟨h.access, h.refresh, hsigned⟩⟩
  | nil =>
      have hexisting : existing b.db who.msOid = none := by
        rw [existing, hselect, List.head?_nil]
      constructor
      · rintro ⟨n, hn, hout⟩
        obtain ⟨haccess, hrefresh, hfirst⟩ := (createLogin_ok_iff (P := Signed)).mp hout
        refine ⟨(expiresIn_ok_iff ..).mp ⟨n, hn⟩, haccess, hrefresh, fun user huser => ?_,
          fun _ => hfirst⟩
        cases hexisting.symm.trans huser
      · intro h
        obtain ⟨n, hn⟩ := (expiresIn_ok_iff ..).mpr h.expires
        exact ⟨n, hn, (createLogin_ok_iff (P := Signed)).mpr
          ⟨h.access, h.refresh, h.new hexisting⟩⟩

end

end

end Answers

end TranscriptionApi.Auth.OAuth
