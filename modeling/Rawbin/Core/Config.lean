import Mathlib.Data.Int.Order.Basic
import Mathlib.Data.Rat.Defs

/-!
# Settings and basic types

`app/core/config.py`. Instants are microseconds since the Unix epoch, UUIDs are numbers,
measurements are exact rationals.
-/

namespace Rawbin

abbrev Uuid := Nat

abbrev Time := Int

def seconds (n : Int) : Int := n * 1000000

def minutes (n : Int) : Int := seconds (n * 60)

def hours (n : Int) : Int := minutes (n * 60)

def days (n : Int) : Int := hours (n * 24)

inductive AppEnv where
  | development | staging | production
  deriving DecidableEq

inductive SmsProvider where
  | twilio | stub
  deriving DecidableEq

/-- The settings that the modelled functions read, with the defaults of the source. -/
structure Settings where
  appEnv : AppEnv := .development
  accessTokenExpireMinutes : Nat := 15
  refreshTokenExpireDays : Nat := 30
  otpLength : Nat := 6
  otpTtlSeconds : Nat := 300
  otpMaxAttempts : Nat := 5
  otpResendCooldownSeconds : Nat := 60
  smsProvider : SmsProvider := .stub
  pairingChallengeTtlSeconds : Nat := 120
  otaPresignedUrlExpirySeconds : Nat := 900

/-- What a handler can raise. An `HTTPException` becomes the response; everything else is a
500 with the same body whatever it is. -/
inductive Exn where
  | http (status : Nat) (detail : String) (headers : List (String × String))
  | integrityError
  | staleDataError
  | multipleResultsFound
  | operationalError
  | unicodeDecodeError
  | typeError
  | valueError
  | otpCooldownError
  | smsDeliveryError
  | httpxError
  | responseValidationError
  deriving DecidableEq

def Exn.httpException (status : Nat) (detail : String) : Exn := .http status detail []

end Rawbin
