import Mathlib.Data.List.DropRight
import Rawbin.Core.Security

/-!
# Emails as they arrive

What the bodies of `app/schemas/auth.py` and `app/schemas/device.py` make of the text of an email.
`EmailStr` trims it and lower-cases its domain. Two of the bodies have a validator that runs before
and lower-cases all of it.
-/

namespace Rawbin

/-- What `str.strip` removes. -/
def isSpace (c : Char) : Bool :=
  let n := c.toNat
  (9 ≤ n && n ≤ 13) || (28 ≤ n && n ≤ 32) || n = 0x85 || n = 0xa0 || n = 0x1680 ||
    (0x2000 ≤ n && n ≤ 0x200a) || n = 0x2028 || n = 0x2029 || n = 0x202f || n = 0x205f || n = 0x3000

/-- `str.strip` -/
def pyStrip (s : String) : String := String.ofList (stripBy isSpace s.toList)

/-- The text up to the last `@`, which is part of it. -/
def localPart (s : String) : String := String.ofList (s.toList.rdropWhile (· ≠ '@'))

/-- The text after the last `@`. -/
def domainPart (s : String) : String := String.ofList (s.toList.rtakeWhile (· ≠ '@'))

variable (C : Crypto) (isAddress : String → Bool)

/-- A value of the type `EmailStr`; `isAddress` says which trimmed texts its library accepts. -/
def emailStr (v : String) : Option String :=
  let s := pyStrip v
  if isAddress s then some (localPart s ++ pyLower C (domainPart s)) else none

/-- The validator `normalise_email`. -/
def normaliseEmail (v : String) : String := pyLower C (pyStrip v)

/-! The `email` of the bodies; `none` is a 422. -/

/-- `UserRegisterRequest` -/
def registerEmail (v : String) : Option String := emailStr C isAddress (normaliseEmail C v)

/-- `UserLoginRequest` -/
def loginEmail (v : String) : Option String := emailStr C isAddress (normaliseEmail C v)

/-- `DeviceShareRequest` -/
def shareEmail (v : String) : Option String := emailStr C isAddress v

end Rawbin
