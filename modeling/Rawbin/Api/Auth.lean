import Rawbin.Services.AuthService
import Rawbin.Services.Otp

/-!
# Accounts

The authentication routes of `app/api/v1/auth.py` and the profile routes of
`app/api/v1/users.py`.
-/

namespace Rawbin

variable (E : Env)

/-! ## Authentication -/

def register (body : UserRegisterRequest) (draws : Draws) : Handler Response := do
  let existing ← .select (.usersByEmailOrPhone body.email (body.phone.filter (· ≠ "")))
  .raiseIf (!existing.isEmpty) 409 "An account with this email or phone already exists."
  let passwordHash ← .ofExcept (hashPassword E.crypto draws.bcryptSalt body.password)
  let createdAt ← .txnow
  let user : User := {
    email := body.email
    phone := body.phone
    passwordHash := passwordHash
    displayName := body.displayName
    firebasePushToken := none
    isActive := true
    createdAt := createdAt }
  .add (.insertUser draws.id user)
  .flush
  let tokens ← issueTokenPair E draws.id draws
  pure ⟨201, .register (.ofRow draws.id user) tokens, []⟩

def login (body : UserLoginRequest) (draws : Draws) : Handler Response := do
  match ← .select (.userByEmail body.email) with
  | none => httpException 401 "Invalid email or password."
  | some (id, user) =>
    let verified ← .ofExcept (verifyPassword E.crypto body.password user.passwordHash)
    .raiseIf (!verified) 401 "Invalid email or password."
    .raiseIf (!user.isActive) 403 "This account has been disabled."
    let tokens ← issueTokenPair E id draws
    pure ⟨200, .tokens tokens, []⟩

def otpAccepted : Response :=
  ⟨202, .detail "If the number is registered, a code has been sent.", []⟩

/-- Issue a code and send it; a phone in its cooldown is silently accepted. -/
def requestOtp (body : OTPRequestIn) (draws : Draws) : Handler Response := do
  match ← .select (.userByPhone body.phone) with
  | none => pure otpAccepted
  | some (_, user) =>
    if !user.isActive then pure otpAccepted
    else
      let code ← tryCatch (some <$> issueCode E body.phone draws.randbelow) fun
        | .otpCooldownError => pure none
        | e => throw e
      match code with
      | none => pure otpAccepted
      | some code =>
        tryCatch
          (sendSms E body.phone
            ("Your Rawbin login code is " ++ code ++ ". It expires in 5 minutes.")) fun
          | .smsDeliveryError => httpException 502 "Could not send the SMS code. Please try again."
          | e => throw e
        pure otpAccepted

def verifyOtp (body : OTPVerifyIn) (draws : Draws) : Handler Response := do
  let verified ← verifyCode E body.phone body.code
  .raiseIf (!verified) 401 "Invalid or expired code."
  match ← .select (.userByPhone body.phone) with
  | none => httpException 401 "Invalid or expired code."
  | some (id, user) =>
    .raiseIf (!user.isActive) 401 "Invalid or expired code."
    let tokens ← issueTokenPair E id draws
    pure ⟨200, .tokens tokens, []⟩

/-- Rotate the presented refresh token: revoke it and issue a new pair. `is_valid` reads the
clock only when the token is not revoked. -/
def refresh (body : RefreshRequest) (draws : Draws) : Handler Response := do
  let tokenHash := hashToken E body.refreshToken
  match ← .select (.refreshTokenByHash tokenHash) with
  | none => httpException 401 "Refresh token is invalid or has expired."
  | some (id, rt) =>
    .raiseIf rt.revoked 401 "Refresh token is invalid or has expired."
    let now ← .utcnow
    .raiseIf (!rt.isValid now) 401 "Refresh token is invalid or has expired."
    .add (.updateRefreshToken id true)
    let tokens ← issueTokenPair E rt.userId draws
    pure ⟨200, .tokens tokens, []⟩

/-- Revoke a refresh token; an unknown or revoked one is silently accepted. -/
def logout (body : RefreshRequest) : Handler Response := do
  let tokenHash := hashToken E body.refreshToken
  match ← .select (.refreshTokenByHash tokenHash) with
  | none => pure ⟨204, .empty, []⟩
  | some (id, rt) =>
    .when (!rt.revoked) (.add (.updateRefreshToken id true))
    pure ⟨204, .empty, []⟩

/-! ## Profile -/

def getMe (user : CurrentUser) : Handler Response :=
  pure ⟨200, .user (.fromOrmUser user.id user.user), []⟩

/-- The pending UPDATE of a user, if an attribute really changed. -/
def updateUser (id : Uuid) (patch : UserPatch) : Handler Unit :=
  .when (patch ≠ {}) (.add (.updateUser id patch))

/-- The phone number that a profile update stores, if it is a new one and free. -/
def newPhone (body : UserPatchIn) (user : CurrentUser) : Handler (Option String) :=
  match body.phone with
  | none => pure none
  | some phone =>
    if some phone = user.user.phone then pure none
    else do
      let clash ← .select (.userIdByPhoneExcept phone user.id)
      .raiseIf clash.isSome 409 "That phone number is already in use."
      pure (some phone)

def patchMe (body : UserPatchIn) (user : CurrentUser) : Handler Response := do
  let phone ← newPhone body user
  let patch : UserPatch := {
    displayName := body.displayName.bind (changed user.user.displayName)
    phone := phone }
  updateUser user.id patch
  .flush
  pure ⟨200, .user (.fromOrmUser user.id (patch.apply user.user)), []⟩

def updatePushToken (body : PushTokenIn) (user : CurrentUser) : Handler Response := do
  updateUser user.id {
    firebasePushToken :=
      if user.user.firebasePushToken = some body.token then none else some body.token }
  .flush
  pure ⟨204, .empty, []⟩

end Rawbin
