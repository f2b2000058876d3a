import TranscriptionApi.Auth.CallbackAnswers
import TranscriptionApi.Lib.Base64

/-!
The secrets of a deployment and the provider tokens at rest: the validators of
`Settings`, the key that `crypto` loads when it is imported, `encrypt_token` and
`decrypt_token`.

A key is a text of urlsafe base64, and the decoder is not strict: it skips what it
does not know. So a key with a stray space loads or not depending on its length.
-/

namespace TranscriptionApi.Auth.Crypto

open Lib Lib.Base64 Lib.Json Python

/-! ### `base64.urlsafe_b64decode` -/

def urlsafeChar (n : ℕ) : Char :=
  if n < 26 then Char.ofNat (65 + n)
  else if n < 52 then Char.ofNat (71 + n)
  else if n < 62 then Char.ofNat (n - 4)
  else if n = 62 then '-' else '_'

/-- `_urlsafe_decode_translation`. -/
def urlsafeTranslate (c : Char) : Char := if c = '-' then '+' else if c = '_' then '/' else c

/-- `table_a2b_base64`. -/
def a2bBase64 (c : Char) : Option ℕ :=
  let n := c.toNat
  if 65 ≤ n ∧ n ≤ 90 then some (n - 65)
  else if 97 ≤ n ∧ n ≤ 122 then some (n - 71)
  else if 48 ≤ n ∧ n ≤ 57 then some (n + 4)
  else if c = '+' then some 62
  else if c = '/' then some 63
  else none

def urlsafe : Alphabet where
  char := urlsafeChar
  value c := a2bBase64 (urlsafeTranslate c)
  value_char := by decide
  value_pad := by decide

def isAscii (text : List Char) : Bool := text.all fun c => c.toNat < 128

/-- The text of a `binascii.Error`. -/
def binasciiError (text : List Char) : DecodeError → String
  | .oneMore =>
      "Invalid base64-encoded string: number of data characters (" ++
        toString (values urlsafe text).length ++ ") cannot be 1 more than a multiple of 4"
  | .incorrectPadding => "Incorrect padding"

def urlsafeB64decode (text : List Char) : Except String Bytes :=
  if isAscii text then (decode urlsafe text).mapError (binasciiError text)
  else .error "string argument should contain only ASCII characters"

/-! ### The secrets -/

structure Secrets where
  jwtSecret : String
  oauthTokenEncKey : String

/-- `raw + "=" * (-len(raw) % 4)`. -/
def padded (raw : List Char) : List Char :=
  raw ++ List.replicate (-(raw.length : ℤ) % 4).toNat '='

/-- `_validate_jwt_secret`. -/
def validateJwtSecret (raw : List Char) : Except String Unit :=
  if raw.length < 32 then
    .error ("JWT_SECRET must be at least 32 characters (got " ++ toString raw.length ++
      "). Generate with: python -c 'import secrets; print(secrets.token_urlsafe(48))'")
  else .ok ()

/-- `_validate_oauth_token_enc_key`. -/
def validateOauthTokenEncKey (raw : List Char) : Except String Unit :=
  if raw = [] then .ok ()
  else
    match urlsafeB64decode (padded raw) with
    | .error exc => .error ("OAUTH_TOKEN_ENC_KEY is not valid urlsafe-base64: " ++ exc)
    | .ok decoded =>
        if decoded.length ≠ 32 then
          .error ("OAUTH_TOKEN_ENC_KEY must decode to 32 bytes, got " ++
            toString decoded.length ++ ". Generate with: python -c 'import secrets, base64; " ++
            "print(base64.urlsafe_b64encode(secrets.token_bytes(32)).decode())'")
        else .ok ()

/-- The key of AES-256. -/
abbrev Key := { key : Bytes // key.length = 32 }

/-- `_load_key`. -/
def loadKey (raw : List Char) : Except String Key :=
  if raw = [] then
    .error ("OAUTH_TOKEN_ENC_KEY is empty. Set it to urlsafe-b64 of 32 bytes; " ++
      "generate with: python -c 'import secrets, base64; " ++
      "print(base64.urlsafe_b64encode(secrets.token_bytes(32)).decode())'")
  else
    match urlsafeB64decode (padded raw) with
    | .error exc => .error ("OAUTH_TOKEN_ENC_KEY is not valid urlsafe-base64: " ++ exc)
    | .ok key =>
        if h : key.length = 32 then .ok ⟨key, h⟩
        else .error ("OAUTH_TOKEN_ENC_KEY must decode to 32 bytes, got " ++
          toString key.length ++ " bytes")

/-- `Settings()` and then `_AESGCM = AESGCM(_load_key())`, at import. -/
def boot (secrets : Secrets) : Except String Key :=
  (validateOauthTokenEncKey secrets.oauthTokenEncKey.toList).bind fun _ =>
    (validateJwtSecret secrets.jwtSecret.toList).bind fun _ =>
      loadKey secrets.oauthTokenEncKey.toList

/-! ### The tokens -/

/-- `AESGCM(key)`, without associated data; `none` is an exception. -/
structure AesGcm where
  encrypt : Key → Bytes → Bytes → Option Bytes
  decrypt : Key → Bytes → Bytes → Option Bytes

/-- Under one nonce the ciphertext and its tag are a function of the plaintext, and
nothing else decrypts. -/
def AesGcm.Lawful (aes : AesGcm) : Prop :=
  ∀ key nonce plaintext ciphertext, aes.decrypt key nonce ciphertext = some plaintext ↔
    aes.encrypt key nonce plaintext = some ciphertext

inductive DecryptError where
  /-- a nonce shorter than 8 bytes -/
  | valueError
  | invalidTag
  | unicodeDecodeError
  deriving DecidableEq

def decryptToken (aes : AesGcm) (key : Key) (ciphertext : Bytes) :
    Except DecryptError (List Char) :=
  let nonce := ciphertext.take 12
  let ct := ciphertext.drop 12
  if nonce.length < 8 then .error .valueError
  else
    match aes.decrypt key nonce ct with
    | none => .error .invalidTag
    | some pt => (decodeUtf8 pt).elim (.error .unicodeDecodeError) .ok

/-! ### Which keys load -/

section Keys

variable {body : List Char} {key : Key}

theorem padded_append (body : List Char) (j : ℕ) : padded (body ++ List.replicate j '=') =
    body ++ List.replicate (j + (-((body.length + j : ℕ) : ℤ) % 4).toNat) '=' := by
  rw [padded, List.append_assoc, List.replicate_append_replicate, List.length_append,
    List.length_replicate]

theorem isAscii_pads (body : List Char) (k : ℕ) :
    isAscii (body ++ List.replicate k '=') = isAscii body := by
  rw [isAscii, List.all_append]
  refine (congrArg _ ?_).trans (Bool.and_true _)
  rw [List.all_eq_true]
  intro c hc
  rw [List.eq_of_mem_replicate hc]
  rfl

theorem urlsafeB64decode_eq_ok {text : List Char} {bytes : Bytes} :
    urlsafeB64decode text = .ok bytes ↔ isAscii text = true ∧ decode urlsafe text = .ok bytes := by
  unfold urlsafeB64decode
  split
  · rename_i hascii
    rw [hascii]
    cases decode urlsafe text with
    | error e => simp [Except.mapError]
    | ok bytes' => simp [Except.mapError]
  · rename_i hascii
    simp [hascii]

theorem loadKey_eq_ok {raw : List Char} :
    loadKey raw = .ok key ↔ raw ≠ [] ∧ urlsafeB64decode (padded raw) = .ok key.1 := by
  unfold loadKey
  split
  · rename_i hraw
    simp [hraw]
  · rename_i hraw
    cases hdecoded : urlsafeB64decode (padded raw) with
    | error exc => simp
    | ok bytes =>
        dsimp only
        split
        · rename_i hlength
          simp [hraw, Subtype.ext_iff]
        · rename_i hlength
          refine iff_of_false (fun h => nomatch h) ?_
          rintro ⟨-, heq⟩
          rw [Except.ok.inj heq] at hlength
          exact hlength key.2

/-- A text with its pads at the end is a key exactly if it has 43 digits, whatever else
it has, and one pad of its own or from its length. -/
theorem loadKey_eq_ok_iff (hbody : '=' ∉ body) (j : ℕ) :
    loadKey (body ++ List.replicate j '=') = .ok key ↔
      isAscii body = true ∧ (values urlsafe body).length = 43 ∧
        (0 < j ∨ body.length % 4 ≠ 0) ∧ bytesFrom 0 0 (values urlsafe body) = key.1 := by
  have hlength := length_bytesFrom (by decide : 0 < 4) 0 (values urlsafe body)
  rw [loadKey_eq_ok, padded_append, urlsafeB64decode_eq_ok, isAscii_pads, decode_eq _ _ hbody,
    closing]
  constructor
  · rintro ⟨-, hascii, hdecoded⟩
    have hbytes : bytesFrom 0 0 (values urlsafe body) = key.1 := by
      split at hdecoded
      · exact Except.ok.inj hdecoded
      · split at hdecoded
        · cases hdecoded
        · split at hdecoded
          · exact Except.ok.inj hdecoded
          · cases hdecoded
    rw [hbytes, key.2] at hlength
    have hcount : (values urlsafe body).length = 43 := by omega
    refine ⟨hascii, hcount, ?_, hbytes⟩
    by_contra hnone
    rw [hcount, if_neg (by decide), if_neg (by decide), if_neg (by omega)] at hdecoded
    cases hdecoded
  · rintro ⟨hascii, hcount, hpad, hbytes⟩
    refine ⟨?_, hascii, ?_⟩
    · intro hnil
      rw [(List.append_eq_nil_iff.mp hnil).1] at hcount
      cases hcount
    · rw [hcount, if_neg (by decide), if_neg (by decide), if_pos (by omega), hbytes]

/-- The text that the messages tell to generate, with its pad or without. -/
def Spells (raw : List Char) (key : Key) : Prop :=
  raw = encode urlsafe key.1 ∨ raw = digits urlsafe key.1

theorem isAscii_digits (bytes : Bytes) : isAscii (digits urlsafe bytes) = true := by
  have hchar : ∀ n < 64, (urlsafeChar n).toNat < 128 := by decide
  rw [digits_eq_map, isAscii, List.all_eq_true]
  intro c hc
  obtain ⟨v, hv, rfl⟩ := List.mem_map.mp hc
  exact decide_eq_true (hchar v (sextets_lt bytes v hv))

theorem loadKey_spelled {raw : List Char} (h : Spells raw key) : loadKey raw = .ok key := by
  have hcount : (values urlsafe (digits urlsafe key.1)).length = 43 := by
    rw [values_digits, length_sextets, key.2]
  have hlength : (digits urlsafe key.1).length = 43 := by rw [length_digits, key.2]
  have hbytes : bytesFrom 0 0 (values urlsafe (digits urlsafe key.1)) = key.1 := by
    rw [values_digits, bytesFrom_sextets]
  obtain ⟨j, rfl⟩ : ∃ j, raw = digits urlsafe key.1 ++ List.replicate j '=' := by
    rcases h with rfl | rfl
    · exact ⟨_, rfl⟩
    · exact ⟨0, (List.append_nil _).symm⟩
  rw [loadKey_eq_ok_iff (pad_notMem_digits _ _)]
  exact ⟨isAscii_digits _, hcount, .inr (by rw [hlength]; decide), hbytes⟩

/-- What `Settings` lets through, `crypto` loads, but for an empty text. -/
theorem validated_iff (raw : List Char) :
    validateOauthTokenEncKey raw = .ok () ↔ raw = [] ∨ ∃ key, loadKey raw = .ok key := by
  simp only [loadKey_eq_ok]
  unfold validateOauthTokenEncKey
  split
  · rename_i hraw
    simp [hraw]
  · rename_i hraw
    cases urlsafeB64decode (padded raw) with
    | error exc => simp [hraw]
    | ok decoded => by_cases hlength : decoded.length = 32 <;> simp [hraw, hlength]

theorem validateJwtSecret_eq_ok {raw : List Char} :
    validateJwtSecret raw = .ok () ↔ 32 ≤ raw.length := by
  unfold validateJwtSecret
  split
  · simp; omega
  · simp; omega

theorem boot_eq_ok {secrets : Secrets} : boot secrets = .ok key ↔
    32 ≤ secrets.jwtSecret.toList.length ∧ loadKey secrets.oauthTokenEncKey.toList = .ok key := by
  rw [← validateJwtSecret_eq_ok]
  unfold boot
  constructor
  · intro h
    obtain ⟨_, _, h⟩ := bind_eq_ok h
    obtain ⟨_, hjwt, h⟩ := bind_eq_ok h
    exact ⟨hjwt, h⟩
  · rintro ⟨hjwt, hkey⟩
    rw [(validated_iff _).mpr (.inr ⟨key, hkey⟩), hjwt, hkey]
    rfl

/-- For every JWT_SECRET and every key text with its pads at the end: the process comes
up with a key exactly if the secret has 32 characters, and the text is ASCII with 43
digits of base64 among its characters and has a pad, its own or one that its length asks
for; and the digits are the key. -/
theorem boot_eq_ok_iff {secrets : Secrets} {j : ℕ}
    (hraw : secrets.oauthTokenEncKey.toList = body ++ List.replicate j '=') (hbody : '=' ∉ body) :
    boot secrets = .ok key ↔ 32 ≤ secrets.jwtSecret.toList.length ∧
      isAscii body = true ∧ (values urlsafe body).length = 43 ∧
        (0 < j ∨ body.length % 4 ≠ 0) ∧ bytesFrom 0 0 (values urlsafe body) = key.1 := by
  rw [boot_eq_ok, hraw, loadKey_eq_ok_iff hbody]

/-- The key of 32 zero bytes, with its pad. -/
def zeroSecrets : Secrets where
  jwtSecret := "0123456789abcdef0123456789abcdef"
  oauthTokenEncKey := "AAAAAAAAAAAAAAAAAAAAAAAAAAAAAAAAAAAAAAAAAAA="

def zeroKey : Key := ⟨List.replicate 32 0, List.length_replicate⟩

theorem boot_eq_ok_iff_zeroKey : boot zeroSecrets = .ok zeroKey := by
  have hraw : zeroSecrets.oauthTokenEncKey.toList =
      List.replicate 43 'A' ++ List.replicate 1 '=' := by decide +kernel
  exact (boot_eq_ok_iff hraw (by decide)).mpr (by decide +kernel)

-- with a space in front and no pad, 44 characters ask for none
example : (boot { zeroSecrets with
    oauthTokenEncKey := " AAAAAAAAAAAAAAAAAAAAAAAAAAAAAAAAAAAAAAAAAAA" }).toOption = none := by
  decide +kernel

end Keys

/-! ### Tokens at rest -/

section Tokens

variable {φ : Type} {aes : AesGcm} {key : Key} {blob : Bytes} {cs : List Char}

/-- `decrypt_token` returns a text exactly if the blob is what `encrypt_token` makes of
the text under the first twelve bytes. -/
theorem decryptToken_eq_ok (haes : aes.Lawful) : decryptToken aes key blob = .ok cs ↔
    8 ≤ blob.length ∧ aes.encrypt key (blob.take 12) (encodeUtf8 cs) = some (blob.drop 12) := by
  rw [← haes]
  unfold decryptToken
  dsimp only
  have hlength : (blob.take 12).length < 8 ↔ ¬ 8 ≤ blob.length := by
    rw [List.length_take]
    omega
  rw [if_congr hlength rfl rfl]
  split
  · rename_i hshort
    exact iff_of_false (fun h => nomatch h) fun h => hshort h.1
  · rename_i hlong
    rw [not_not] at hlong
    cases hpt : aes.decrypt key (blob.take 12) (blob.drop 12) with
    | none => simp
    | some pt =>
        have hdecoded : decodeUtf8 pt = some cs ↔ pt = encodeUtf8 cs :=
          decodeUtf8_eq_some.trans eq_comm
        dsimp only
        rw [Option.some.injEq, ← hdecoded]
        cases decodeUtf8 pt with
        | none => simp
        | some cs' => simp [hlong]

theorem encryptToken_eq_ok {lib : OAuth.Libraries φ} {nonce : Bytes} {v : Value φ}
    (h : OAuth.encryptToken lib nonce v = .ok blob) : ∃ s cs ciphertext, v = .str s ∧
      s.chars? = some cs ∧ lib.encrypt nonce (encodeUtf8 cs) = some ciphertext ∧
        blob = nonce ++ ciphertext := by
  obtain ⟨bytes, hbytes, h⟩ := bind_eq_ok h
  cases v with
  | str s =>
      cases hcs : s.chars? with
      | none =>
          rw [Value.encode, hcs] at hbytes
          cases hbytes
      | some cs =>
          rw [Value.encode, hcs] at hbytes
          cases hbytes
          cases hcipher : lib.encrypt nonce (encodeUtf8 cs) with
          | none =>
              rw [hcipher] at h
              cases h
          | some ciphertext =>
              rw [hcipher] at h
              cases h
              exact ⟨s, cs, ciphertext, rfl, hcs, hcipher, rfl⟩
  | _ => cases hbytes

/-- A process that is started with the key in either spelling reads every token that
another one has stored under it, and no other blob with the same nonce as this token. -/
theorem tokens_readBack (haes : aes.Lawful) {secrets secrets' : Secrets}
    (hspells : Spells secrets.oauthTokenEncKey.toList key)
    (hspells' : Spells secrets'.oauthTokenEncKey.toList key)
    (hjwt : 32 ≤ secrets.jwtSecret.toList.length)
    (hjwt' : 32 ≤ secrets'.jwtSecret.toList.length) :
    boot secrets = .ok key ∧ boot secrets' = .ok key ∧
    ∀ lib : OAuth.Libraries φ, lib.encrypt = aes.encrypt key → ∀ (nonce : Bytes) (v : Value φ) blob,
      nonce.length = 12 → OAuth.encryptToken lib nonce v = .ok blob →
        ∃ s cs, v = .str s ∧ s.chars? = some cs ∧ decryptToken aes key blob = .ok cs ∧
          ∀ blob' : Bytes, blob'.take 12 = nonce → decryptToken aes key blob' = .ok cs →
            blob' = blob := by
  refine ⟨boot_eq_ok.mpr ⟨hjwt, loadKey_spelled hspells⟩,
    boot_eq_ok.mpr ⟨hjwt', loadKey_spelled hspells'⟩, ?_⟩
  intro lib hlib nonce v blob hnonce hstored
  obtain ⟨s, cs, ciphertext, rfl, hcs, hcipher, rfl⟩ := encryptToken_eq_ok hstored
  rw [hlib] at hcipher
  refine ⟨s, cs, rfl, hcs, ?_, fun blob' hnonce' hblob' => ?_⟩
  · rw [decryptToken_eq_ok haes, List.take_left' hnonce, List.drop_left' hnonce]
    exact ⟨by rw [List.length_append]; omega, hcipher⟩
  · obtain ⟨-, hcipher'⟩ := (decryptToken_eq_ok haes).mp hblob'
    rw [hnonce', hcipher] at hcipher'
    rw [← List.take_append_drop 12 blob', hnonce', Option.some.inj hcipher']

/-- AES-GCM on sixteen zero bytes under the key and the nonce of zero bytes. -/
def zeroCiphertext : Bytes :=
  [0xce, 0xa7, 0x40, 0x3d, 0x4d, 0x60, 0x6b, 0x6e, 0x07, 0x4e, 0xc5, 0xd3, 0xba, 0xf3, 0x9d, 0x18,
    0xd0, 0xd1, 0xc8, 0xa7, 0x99, 0x99, 0x6b, 0xf0, 0x26, 0x5b, 0x98, 0xb5, 0xd4, 0x8a, 0xb9, 0x19]

/-- AES-GCM on these inputs alone. -/
def zeroAes : AesGcm where
  encrypt key nonce plaintext :=
    if key = zeroKey ∧ nonce = List.replicate 12 0 ∧ plaintext = List.replicate 16 0 then
      some zeroCiphertext
    else none
  decrypt key nonce ciphertext :=
    if key = zeroKey ∧ nonce = List.replicate 12 0 ∧ ciphertext = zeroCiphertext then
      some (List.replicate 16 0)
    else none

theorem lawful_zeroAes : zeroAes.Lawful := by
  intro key nonce plaintext ciphertext
  simp only [zeroAes, Option.ite_none_right_eq_some, Option.some.injEq]
  constructor
  · rintro ⟨⟨hkey, hnonce, rfl⟩, rfl⟩
    exact ⟨⟨hkey, hnonce, rfl⟩, rfl⟩
  · rintro ⟨⟨hkey, hnonce, rfl⟩, rfl⟩
    exact ⟨⟨hkey, hnonce, rfl⟩, rfl⟩

/-- The same key without its pad. -/
def unpaddedSecrets : Secrets where
  jwtSecret := "fedcba9876543210fedcba9876543210"
  oauthTokenEncKey := "AAAAAAAAAAAAAAAAAAAAAAAAAAAAAAAAAAAAAAAAAAA"

theorem spells_zeroSecrets : Spells zeroSecrets.oauthTokenEncKey.toList zeroKey :=
  .inl (by decide +kernel)

theorem spells_unpaddedSecrets : Spells unpaddedSecrets.oauthTokenEncKey.toList zeroKey :=
  .inr (by decide +kernel)

/-- The libraries of a process with this cipher and key. -/
def zeroLibraries : OAuth.Libraries ℚ :=
  { OAuth.kidLibraries with encrypt := zeroAes.encrypt zeroKey }

/-- One process stores the token of sixteen NUL characters, the other reads it. -/
theorem tokens_readBack_zeroKey :
    boot zeroSecrets = .ok zeroKey ∧ boot unpaddedSecrets = .ok zeroKey ∧
    OAuth.encryptToken zeroLibraries (List.replicate 12 0) (.str (List.replicate 16 0)) =
      .ok (List.replicate 12 0 ++ zeroCiphertext) ∧
    decryptToken zeroAes zeroKey (List.replicate 12 0 ++ zeroCiphertext) =
      .ok (List.replicate 16 (Char.ofNat 0)) := by
  obtain ⟨hboot, hboot', hreads⟩ := tokens_readBack (φ := ℚ) lawful_zeroAes spells_zeroSecrets
    spells_unpaddedSecrets (by decide) (by decide)
  have hstored : OAuth.encryptToken zeroLibraries (List.replicate 12 0)
      (.str (List.replicate 16 0)) = .ok (List.replicate 12 0 ++ zeroCiphertext) := by
    decide +kernel
  obtain ⟨s, cs, hs, hcs, hread, -⟩ := hreads zeroLibraries rfl _ _ _ (by decide) hstored
  obtain rfl := Value.str.inj hs
  obtain rfl := Option.some.inj (hcs.symm.trans (by decide +kernel :
    Json.Str.chars? (List.replicate 16 0) = some (List.replicate 16 (Char.ofNat 0))))
  exact ⟨hboot, hboot', hstored, hread⟩

end Tokens

end TranscriptionApi.Auth.Crypto
