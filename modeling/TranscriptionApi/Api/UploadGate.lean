import TranscriptionApi.Api.Upload
import TranscriptionApi.Auth.Gates

/-!
What a request to the upload endpoints meets before its body is read, and the
`Authorization` header at every entry point that takes a bearer.

A token is encoded as ASCII before it is hashed, and no caller of `hash_bearer`
expects the encoding to fail. So a header is answered at each entry point exactly
when its token is ASCII or the request is refused before the token is hashed.

The upload endpoints answer in the order in which they check. To a caller
without the bearer of the session the answer shows how far the request got, its
`Situation`, and nothing else.
-/

namespace TranscriptionApi.Api

open Auth Db Lib Python

/-- How far a request for a nonce gets before its bearer is compared. -/
inductive Situation where
  /-- no session is `requested` under the nonce -/
  | unknown
  | expired
  | wrongKind
  | live
  deriving DecidableEq

section Gate

variable (settings : Settings) (sha256Hex : Bytes → String) (kind : UploadKind) (now : ℤ)
  (db : Database)

/-- Steps 1 to 4 of `upload_audio` and `upload_image`. -/
def uploadGate (req : UploadRequest) : Except UploadAnswer UploadSession :=
  match parseBearer req.authorization with
  | none => .error (.error bearerMissing)
  | some plaintext =>
      match selectRequested db req.sessionNonce with
      | none => .error (.error sessionNotFound)
      | some row => (checkSession settings sha256Hex kind now plaintext row).map fun _ => row

def situation (nonce : String) : Situation :=
  match selectRequested db nonce with
  | none => .unknown
  | some row =>
      if now > row.expiresAt + settings.grace then .expired
      else if row.kind ≠ kind then .wrongKind
      else .live

end Gate

def otherKind : UploadKind → UploadKind
  | .audio => .image
  | .image => .audio

/-- The answer to a caller that does not have the bearer of the session;
`hashable` says whether its token is ASCII. -/
def refusal (kind : UploadKind) (hashable : Bool) : Situation → UploadAnswer
  | .unknown => .error sessionNotFound
  | .expired => .error sessionExpired
  | .wrongKind => .error (kindMismatch kind (otherKind kind))
  | .live => if hashable then .error bearerMismatch else .raised

theorem refusal_injective (kind : UploadKind) (hashable : Bool) :
    Function.Injective (refusal kind hashable) := by
  intro a b
  cases kind <;> cases hashable <;> cases a <;> cases b <;> decide

section Spec

variable {settings : Settings} {sha256Hex : Bytes → String} {kind : UploadKind} {now : ℤ}
  {db : Database} {req : UploadRequest} {token : String}

theorem hashBearer_isSome (sha256Hex : Bytes → String) (token : String) :
    (hashBearer sha256Hex token).isSome = (encodeAscii token).isSome := by
  simp [hashBearer]

/-- Before the bearer is compared the token plays no part. -/
theorem uploadGate_of_not_live (htoken : parseBearer req.authorization = some token)
    (hlive : situation settings kind now db req.sessionNonce ≠ .live) (hashable : Bool) :
    uploadGate settings sha256Hex kind now db req =
      .error (refusal kind hashable (situation settings kind now db req.sessionNonce)) := by
  simp only [uploadGate, htoken, situation] at hlive ⊢
  cases hselect : selectRequested db req.sessionNonce with
  | none => rfl
  | some row =>
      simp only [hselect, checkSession] at hlive ⊢
      split
      · rfl
      · rename_i hnow
        rw [if_neg hnow] at hlive
        by_cases hkind : row.kind = kind
        · rw [if_neg (not_not.mpr hkind)] at hlive
          exact absurd rfl hlive
        · have hother : row.kind = otherKind kind := by
            cases kind <;> cases hrow : row.kind <;> simp_all [otherKind]
          rw [if_pos hkind, if_pos hkind, hother]
          rfl

/-- On a live session the hash of the token decides. -/
theorem uploadGate_of_live (sha256Hex : Bytes → String)
    (htoken : parseBearer req.authorization = some token)
    (hlive : situation settings kind now db req.sessionNonce = .live) :
    ∃ row, selectRequested db req.sessionNonce = some row ∧
      uploadGate settings sha256Hex kind now db req =
        if hashBearer sha256Hex token = some row.uploadBearerHash then .ok row
        else .error (refusal kind (encodeAscii token).isSome .live) := by
  simp only [situation] at hlive
  cases hselect : selectRequested db req.sessionNonce with
  | none => simp [hselect] at hlive
  | some row =>
      refine ⟨row, rfl, ?_⟩
      simp only [hselect] at hlive
      split at hlive
      · cases hlive
      · split at hlive
        · cases hlive
        · rename_i hnow hkind
          simp only [uploadGate, htoken, hselect, checkSession, if_neg hnow, if_neg hkind,
            ← hashBearer_isSome sha256Hex]
          cases hhash : hashBearer sha256Hex token with
          | none => rfl
          | some receivedHash =>
              by_cases heq : receivedHash = row.uploadBearerHash
              · simp [heq, Except.map]
              · simp [heq, refusal, Except.map]

end Spec

/-! ### Every header is answered -/

/-- The token of the header can be hashed. -/
def TokenAscii (authorization : Option String) : Prop :=
  ∀ token, parseBearer authorization = some token → (encodeAscii token).isSome = true

/-- A request is accepted or refused with a typed error. -/
def TypedUpload : Except UploadAnswer UploadSession → Prop
  | .ok _ => True
  | .error (.error e) => e.status = 401 ∨ e.status = 404 ∨ e.status = 400
  | .error _ => False

section Totality

variable {settings : Settings} {sha256Hex : Bytes → String} {kind : UploadKind} {now : ℤ}
  {bumped : Bool} {db : Database}

theorem typedUpload_refusal_iff (hashable : Bool) (at_ : Situation) :
    TypedUpload (.error (refusal kind hashable at_)) ↔ hashable = true ∨ at_ ≠ .live := by
  cases at_ with
  | live => cases hashable <;> simp [refusal, TypedUpload, bearerMismatch]
  | _ => simp [refusal, TypedUpload, sessionNotFound, sessionExpired, kindMismatch]

theorem tokenAscii_iff {authorization : Option String} {token : String}
    (htoken : parseBearer authorization = some token) :
    TokenAscii authorization ↔ (encodeAscii token).isSome = true := by
  constructor
  · exact fun h => h token htoken
  · rintro h _ heq
    obtain rfl := Option.some.inj (htoken.symm.trans heq)
    exact h

theorem tokenAscii_of_none {authorization : Option String}
    (hnone : parseBearer authorization = none) : TokenAscii authorization := by
  intro token htoken
  cases hnone.symm.trans htoken

theorem bearerAuthMiddleware_raised_iff (hunique : HashesUnique db)
    {authorization : Option String} :
    (bearerAuthMiddleware sha256Hex now bumped db authorization).1 = .raised ↔
      ¬ TokenAscii authorization := by
  cases htoken : parseBearer authorization with
  | none =>
      simp only [bearerAuthMiddleware, htoken, tokenAscii_of_none htoken, not_true, iff_false]
      split
      · simp
      · simp
  | some token =>
      rw [tokenAscii_iff htoken, ← hashBearer_isSome sha256Hex]
      cases hhash : hashBearer sha256Hex token with
      | none =>
          rw [bearerAuthMiddleware_eq htoken]
          simp [authenticate, parseBearer_ne_empty htoken, hhash]
      | some tokenHash =>
          simp only [Option.isSome_some, not_true, iff_false]
          by_cases hstored : ∃ b ∈ db.mcpBearers.rows, b.tokenHash = tokenHash
          · obtain ⟨b, hb, rfl⟩ := hstored
            rw [bearerAuthMiddleware_presents hunique hb ⟨token, htoken, hhash⟩]
            split
            · simp
            · simp
          · have hselect : (db.mcpBearers.select fun r => r.tokenHash = tokenHash) = [] := by
              rw [Table.select, List.filter_eq_nil_iff]
              exact fun b hb heq => hstored ⟨b, hb, of_decide_eq_true heq⟩
            rw [bearerAuthMiddleware_eq htoken]
            simp [authenticate, parseBearer_ne_empty htoken, hhash, hselect]

theorem getCurrentUserMcp_raised_iff {authorization : Option String} :
    (getCurrentUserMcp sha256Hex now bumped db authorization).1 = .raised ↔
      ¬ TokenAscii authorization := by
  cases htoken : tokenOfHeader authorization with
  | error reason =>
      have hnone : parseBearer authorization = none := by
        cases hparse : parseBearer authorization with
        | none => rfl
        | some token => cases htoken.symm.trans (tokenOfHeader_ok_iff.mpr hparse)
      simp [getCurrentUserMcp, htoken, tokenAscii_of_none hnone]
  | ok token =>
      have hparse := tokenOfHeader_ok_iff.mp htoken
      rw [tokenAscii_iff hparse, ← hashBearer_isSome sha256Hex]
      simp only [getCurrentUserMcp, htoken, verifyBearer, parseBearer_ne_empty hparse,
        Bool.false_eq_true, if_false]
      cases hhash : hashBearer sha256Hex token with
      | none => simp
      | some tokenHash =>
          cases hjoin : joinActive db tokenHash with
          | nil => simp [hjoin]
          | cons found rest => simp [hjoin]

/-- The upload endpoints answer every header whose token is ASCII, and any
other one as long as no session is open to the request. -/
theorem typedUpload_iff {req : UploadRequest} :
    TypedUpload (uploadGate settings sha256Hex kind now db req) ↔
      TokenAscii req.authorization ∨ situation settings kind now db req.sessionNonce ≠ .live := by
  cases htoken : parseBearer req.authorization with
  | none =>
      have htyped : TypedUpload (uploadGate settings sha256Hex kind now db req) := by
        simp [uploadGate, htoken, TypedUpload, bearerMissing]
      exact ⟨fun _ => .inl (tokenAscii_of_none htoken), fun _ => htyped⟩
  | some token =>
      rw [tokenAscii_iff htoken]
      by_cases hlive : situation settings kind now db req.sessionNonce = .live
      · obtain ⟨row, -, hgate⟩ := uploadGate_of_live sha256Hex htoken hlive
        rw [hgate]
        split
        · rename_i hmatch
          have hascii : (encodeAscii token).isSome = true := by
            rw [← hashBearer_isSome sha256Hex, hmatch]
            rfl
          exact ⟨fun _ => .inl hascii, fun _ => trivial⟩
        · rw [typedUpload_refusal_iff, hlive]
      · rw [uploadGate_of_not_live htoken hlive (encodeAscii token).isSome,
          typedUpload_refusal_iff]

/-- At each entry point that takes a bearer: a header is answered, and raises
nothing, exactly when its token is ASCII or, at the upload endpoints, no session
is live under the nonce. -/
theorem header_answered_iff (hunique : HashesUnique db) (header : Bytes) :
    ((bearerAuthMiddleware sha256Hex now bumped db (some (latin1 header))).1 ≠ .raised ↔
      TokenAscii (some (latin1 header))) ∧
    ((getCurrentUserMcp sha256Hex now bumped db (some (latin1 header))).1 ≠ .raised ↔
      TokenAscii (some (latin1 header))) ∧
    ∀ kind nonce,
      (TypedUpload (uploadGate settings sha256Hex kind now db ⟨nonce, some (latin1 header)⟩) ↔
        TokenAscii (some (latin1 header)) ∨ situation settings kind now db nonce ≠ .live) :=
  ⟨(bearerAuthMiddleware_raised_iff hunique).not_left, getCurrentUserMcp_raised_iff.not_left,
    fun _ _ => typedUpload_iff⟩

/-- `Bearer é` in Latin-1. -/
def accentHeader : Bytes := ascii "Bearer " ++ [0xe9]

theorem not_tokenAscii_accent : ¬ TokenAscii (some (latin1 accentHeader)) := by
  intro h
  have htoken := h "é" (by decide +kernel)
  revert htoken
  decide +kernel

theorem header_answered_iff_accent :
    (bearerAuthMiddleware plainHash 0 true storedDb (some (latin1 accentHeader))).1 = .raised ∧
      (getCurrentUserMcp plainHash 0 true storedDb (some (latin1 accentHeader))).1 = .raised := by
  have hunique : HashesUnique storedDb := by
    intro a ha b hb _
    rw [List.mem_singleton.mp ha, List.mem_singleton.mp hb]
  have hiff := @header_answered_iff default plainHash 0 true storedDb hunique accentHeader
  exact ⟨not_not.mp (hiff.1.not.mpr not_tokenAscii_accent),
    not_not.mp (hiff.2.1.not.mpr not_tokenAscii_accent)⟩

theorem header_answered_fails :
    ¬ ∀ (settings : Settings) (sha256Hex : Bytes → String) (now : ℤ) (bumped : Bool)
      (db : Database), HashesUnique db → ∀ header : Bytes,
        (bearerAuthMiddleware sha256Hex now bumped db (some (latin1 header))).1 ≠ .raised ∧
          (getCurrentUserMcp sha256Hex now bumped db (some (latin1 header))).1 ≠ .raised ∧
            ∀ kind nonce, TypedUpload
              (uploadGate settings sha256Hex kind now db ⟨nonce, some (latin1 header)⟩) := by
  intro h
  have hunique : HashesUnique default := fun a ha => nomatch ha
  have hanswered := h default plainHash 0 true default hunique accentHeader
  exact hanswered.1 ((bearerAuthMiddleware_raised_iff hunique).mpr not_tokenAscii_accent)

end Totality

/-! ### What a caller without the bearer sees -/

/-- The token of the request is not the bearer of the session under its nonce. -/
def Unmatched (sha256Hex : Bytes → String) (req : UploadRequest) (db : Database) : Prop :=
  ∀ row ∈ db.uploadSessions.rows, row.nonce = req.sessionNonce →
    ∀ token, parseBearer req.authorization = some token →
      hashBearer sha256Hex token ≠ some row.uploadBearerHash

section Leak

variable {settings : Settings} {sha256Hex : Bytes → String} {kind : UploadKind}
  {req : UploadRequest}

theorem uploadGate_of_unmatched {now : ℤ} {db : Database} {token : String}
    (hunmatched : Unmatched sha256Hex req db)
    (htoken : parseBearer req.authorization = some token) :
    uploadGate settings sha256Hex kind now db req =
      .error (refusal kind (encodeAscii token).isSome
        (situation settings kind now db req.sessionNonce)) := by
  by_cases hlive : situation settings kind now db req.sessionNonce = .live
  · obtain ⟨row, hselect, hgate⟩ := uploadGate_of_live sha256Hex htoken hlive
    obtain ⟨hrow, hnonce, -⟩ := selectRequested_spec hselect
    rw [hgate, if_neg (hunmatched row (Table.mem_of_find? hrow) hnonce token htoken), hlive]
  · exact uploadGate_of_not_live htoken hlive _

/-- Two states answer a caller without the bearer alike exactly when its header
has no token or its nonce is in the same situation in both. -/
theorem uploadGate_eq_iff {now₁ now₂ : ℤ} {db₁ db₂ : Database}
    (h₁ : Unmatched sha256Hex req db₁) (h₂ : Unmatched sha256Hex req db₂) :
    uploadGate settings sha256Hex kind now₁ db₁ req =
        uploadGate settings sha256Hex kind now₂ db₂ req ↔
      parseBearer req.authorization = none ∨
        situation settings kind now₁ db₁ req.sessionNonce =
          situation settings kind now₂ db₂ req.sessionNonce := by
  cases htoken : parseBearer req.authorization with
  | none => simp [uploadGate, htoken]
  | some token =>
      rw [uploadGate_of_unmatched h₁ htoken, uploadGate_of_unmatched h₂ htoken]
      simp only [Except.error.injEq, reduceCtorEq, false_or]
      exact (refusal_injective kind _).eq_iff

/-- An audio upload somebody else has requested. -/
def foreignSession : UploadSession where
  id := 7
  userId := 1
  bearerId := 2
  nonce := "n"
  uploadBearerHash := "secret"
  kind := .audio
  transcriptionId := none
  expectedSizeBytes := 1
  expectedMimeType := none
  status := .requested
  expiresAt := 0
  createdAt := 0
  uploadedAt := none
  consumedAt := none

def foreignDb : Database :=
  { (default : Database) with
    uploadSessions := ⟨[foreignSession], List.nodup_singleton _⟩ }

/-- A guess at its nonce. -/
def guess : UploadRequest := ⟨"n", some "Bearer guess"⟩

theorem guess_token : parseBearer guess.authorization = some "guess" := by decide +kernel

theorem unmatched_foreignDb : Unmatched plainHash guess foreignDb := by
  intro row hrow _ token htoken
  obtain rfl := Option.some.inj (guess_token.symm.trans htoken)
  rw [List.mem_singleton.mp hrow]
  decide +kernel

theorem unmatched_default : Unmatched plainHash guess default := fun _ hrow => nomatch hrow

/-- The guess on the live session and on the empty table is told apart. -/
theorem uploadGate_eq_iff_guess :
    uploadGate default plainHash .audio 0 foreignDb guess ≠
      uploadGate default plainHash .audio 0 default guess := by
  refine (uploadGate_eq_iff unmatched_foreignDb unmatched_default).not.mpr ?_
  decide +kernel

theorem uploadGate_eq_fails :
    ¬ ∀ (settings : Settings) (sha256Hex : Bytes → String) (kind : UploadKind) (req : UploadRequest)
      (now₁ now₂ : ℤ) (db₁ db₂ : Database), Unmatched sha256Hex req db₁ →
        Unmatched sha256Hex req db₂ →
          uploadGate settings sha256Hex kind now₁ db₁ req =
            uploadGate settings sha256Hex kind now₂ db₂ req := by
  intro h
  have hsame := h default plainHash .audio guess 0 0 foreignDb default unmatched_foreignDb
    unmatched_default
  rw [uploadGate_of_unmatched unmatched_foreignDb guess_token,
    uploadGate_of_unmatched unmatched_default guess_token] at hsame
  have hsituation := refusal_injective .audio _ (Except.error.inj hsame)
  revert hsituation
  decide +kernel

end Leak

end TranscriptionApi.Api
