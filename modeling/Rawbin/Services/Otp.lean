import Rawbin.Api.Deps

/-!
# One-time codes by SMS

`app/services/otp.py` and `app/services/sms.py`. Only a hash of the code is stored; a counter of
wrong tries is meant to burn the code, a cooldown to limit the number of messages.
-/

namespace Rawbin

variable (E : Env)

def hashCode (code : String) : String := E.crypto.sha256 code

/-- A zero-padded numeric code, from `secrets.randbelow` in production. -/
def generateCode (randbelow : Nat) : String :=
  if E.cfg.appEnv ≠ .production then "123456"
  else String.ofList ((toString (randbelow % 10 ^ E.cfg.otpLength)).toList.leftpad
    E.cfg.otpLength '0')

def issueCode (phone : String) (randbelow : Nat) : Handler String := do
  let cooldown : Option String ← .redis (.get (.otpCooldown phone))
  .when (cooldown.any (· ≠ "")) (throw .otpCooldownError)
  let code := generateCode E randbelow
  .redis (.setex (.otpCode phone) E.cfg.otpTtlSeconds (hashCode E code))
  .redis (.setex (.otpAttempts phone) E.cfg.otpTtlSeconds (0 : Nat))
  .redis (.setex (.otpCooldown phone) E.cfg.otpResendCooldownSeconds "1")
  pure code

/-- `redis.delete(code_key, attempts_key)` -/
def burnCode (phone : String) : Handler Unit :=
  .redis (.delete [.otpCode phone, .otpAttempts phone])

/-- Whether the code matches the stored one. A match burns the code, and so do too many
failures. (`hmac.compare_digest` of two hexadecimal digests is their equality.) -/
def verifyCode (phone code : String) : Handler Bool := do
  let storedHash : Option String ← .redis (.get (.otpCode phone))
  match storedHash with
  | none => pure false
  | some storedHash =>
    let counter : Option Nat ← .redis (.get (.otpAttempts phone))
    let attempts := counter.getD 0
    if attempts ≥ E.cfg.otpMaxAttempts then
      burnCode phone
      pure false
    else if storedHash = hashCode E code then
      burnCode phone
      pure true
    else
      let newAttempts ← .redis (.incr phone)
      .when (newAttempts ≥ E.cfg.otpMaxAttempts) (burnCode phone)
      pure false

/-! ## Delivery -/

def sendTwilio (recipient body : String) : Handler Unit :=
  match E.twilio recipient body with
  | .incompleteSettings => throw .smsDeliveryError
  | .unreachable => throw .httpxError
  | .status code => if code ≥ 400 then throw .smsDeliveryError else pure ()

/-- The stub only logs. -/
def sendSms (recipient body : String) : Handler Unit :=
  match E.cfg.smsProvider with
  | .twilio => sendTwilio E recipient body
  | .stub => pure ()

end Rawbin
