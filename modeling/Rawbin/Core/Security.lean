import Rawbin.Core.Python

/-!
# Tokens, passwords and device secrets

`app/core/security.py`. The cryptographic libraries are the parameter `Crypto`; the laws that a
result needs of them are its hypotheses.
-/

namespace Rawbin

inductive TokenType where
  | access | refresh
  deriving DecidableEq

/-- The claims of a JWT. -/
structure Payload where
  sub : Uuid
  type : TokenType
  exp : Time
  iat : Time
  jti : Uuid
  deriving DecidableEq

/-- The libraries: `hashlib`, `hmac`, Fernet, bcrypt, `jose` and the part of `str.lower` that
concerns characters outside ASCII. Randomness (the initialisation vector, the salt) is an
argument. `none` stands for `InvalidToken` and for `JWTError`. The lower-case form of a character
may depend on the text before and after it, as that of a sigma does. -/
structure Crypto where
  sha256 : String → String
  hmacSha256 : (key msg : String) → String
  fernetEncrypt : Nat → String → String
  fernetDecrypt : String → Option String
  bcryptHash : Nat → String → Except Exn String
  bcryptVerify : String → String → Except Exn Bool
  jwtEncode : Payload → String
  jwtDecode : Time → String → Option Payload
  lowerUnicode : (before : List Char) → Char → (after : List Char) → List Char

variable (C : Crypto)

/-! ## Passwords -/

def hashPassword (salt : Nat) (plain : String) : Except Exn String := C.bcryptHash salt plain

def verifyPassword (plain hashed : String) : Except Exn Bool := C.bcryptVerify plain hashed

/-! ## JWTs -/

/-- The payload that `create_access_token` signs, at the instants of its two clock reads. -/
def accessPayload (cfg : Settings) (subject : Uuid) (now now' : Time) (jti : Uuid) : Payload where
  sub := subject
  type := .access
  exp := now + minutes cfg.accessTokenExpireMinutes
  iat := now'
  jti := jti

/-- The payload that `create_refresh_token` signs. -/
def refreshPayload (cfg : Settings) (subject : Uuid) (now now' : Time) (jti : Uuid) : Payload where
  sub := subject
  type := .refresh
  exp := now + days cfg.refreshTokenExpireDays
  iat := now'
  jti := jti

def decodeToken (now : Time) (token : String) : Option Payload := C.jwtDecode now token

/-! ## Device secrets -/

def encryptDeviceSecret (iv : Nat) (plaintext : String) : String := C.fernetEncrypt iv plaintext

def decryptDeviceSecret (token : String) : Option String := C.fernetDecrypt token

def computeDeviceHmac (deviceSecretPlain nonce : String) : String :=
  C.hmacSha256 deviceSecretPlain nonce

/-- The lower-case form of the text that follows `before`. -/
def lowerFrom (before : List Char) : List Char → List Char
  | [] => []
  | c :: cs =>
    (if isAscii c then [c.toLower] else C.lowerUnicode before c cs) ++ lowerFrom (before ++ [c]) cs

/-- `str.lower`. -/
def pyLower (s : String) : String := String.ofList (lowerFrom C [] s.toList)

/-- `hmac.compare_digest` on two `str` arguments. -/
def compareDigest (a b : String) : Except Exn Bool :=
  if a.toList.all isAscii && b.toList.all isAscii then .ok (a = b) else .error .typeError

def verifyDeviceHmac (deviceSecretEnc nonce hmacResponse : String) : Except Exn Bool :=
  match decryptDeviceSecret C deviceSecretEnc with
  | none => .ok false
  | some secretPlain =>
    let expected := computeDeviceHmac C secretPlain nonce
    compareDigest (pyLower C expected) (pyLower C hmacResponse)

end Rawbin
