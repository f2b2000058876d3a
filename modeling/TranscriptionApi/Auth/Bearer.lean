import TranscriptionApi.Config
import TranscriptionApi.Python

/-!
The bearer token of a request: its place in the `Authorization` header and
the hash it is stored under. SHA-256 is a parameter, `sha256Hex`, which is
applied to the bytes the code hashes; nothing below assumes anything of it.
-/

namespace TranscriptionApi.Auth

open Python

/-- `parse_bearer`: the token of a `Bearer <token>` header. -/
def parseBearer (authorization : Option String) : Option String :=
  match authorization with
  | none => none
  | some header =>
      if header.isEmpty then none
      else
        let parts := partitionSpace header
        if lower parts.1 ≠ "bearer" then none
        else
          let plaintext := strip parts.2
          if plaintext.isEmpty then none else some plaintext

/-- `str.encode("ascii")`; `none` is the `UnicodeEncodeError`. -/
def encodeAscii (s : String) : Option Bytes :=
  if s.toList.all fun c => c.toNat < 128 then
    some (s.toList.map fun c => UInt8.ofNat c.toNat)
  else none

/-- `hash_bearer`: the hexadecimal SHA-256 of the token. -/
def hashBearer (sha256Hex : Bytes → String) (plaintext : String) : Option String :=
  (encodeAscii plaintext).map sha256Hex

end TranscriptionApi.Auth
