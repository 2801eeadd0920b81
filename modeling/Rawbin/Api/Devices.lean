import Rawbin.Services.DeviceAccess
import Rawbin.Workers.Thresholds
import Rawbin.Api.Deps

/-!
# Device routes

`app/api/v1/devices.py`: pairing, sharing and the alert thresholds of a device.
-/

namespace Rawbin

variable (E : Env)

/-- The row of a new device; `is_paired` and `firmware_version` have their column defaults. -/
def newDevice (hardwareUid displayName deviceSecretEnc : String) (createdAt : Time) : Device where
  hardwareUid := hardwareUid
  deviceSecretEnc := deviceSecretEnc
  displayName := displayName
  isPaired := false
  firmwareVersion := none
  createdAt := createdAt

/-- The pending UPDATE of a device, if an attribute really changed. -/
def updateDevice (id : Uuid) (patch : DevicePatch) : Handler Unit :=
  .when (patch ≠ {}) (.add (.updateDevice id patch))

/-! ## Demo device -/

def uniform (a b unit : ℚ) : ℚ := a + (b - a) * unit

/-- The mock reading of the `i`-th quarter of an hour. -/
def demoReading (now : Time) (unit : Nat → ℚ) (i : Nat) : Time × SensorReading :=
  (now - hours 24 + minutes (15 * i), {
    temperatureC := some (uniform 50 65 (unit (4 * i)))
    humidityPct := some (uniform 40 60 (unit (4 * i + 1)))
    co2Ppm := some (uniform 400 800 (unit (4 * i + 2)))
    phLevel := some (uniform (13 / 2) (15 / 2) (unit (4 * i + 3)))
    ambientTempC := none
    fanSpeedRpm := none
    fillLevelPct := none
    weightKg := none
    firmwareVersion := none })

/-- `str(uuid)[:8]`: the first eight of the 32 hexadecimal digits. -/
def uuidHead (id : Uuid) : String :=
  String.ofList (((Nat.toDigits 16 id).leftpad 32 '0').take 8)

def createDemoDevice (user : CurrentUser) (draws : Draws) : Handler Response := do
  let createdAt ← .txnow
  let device : Device := {
    newDevice ("STM32_MOCK_" ++ uuidHead draws.id) "Demo Smart Composter"
      (encryptDeviceSecret E.crypto draws.fernetIv "mock") createdAt with
    isPaired := true }
  .add (.insertDevice draws.id device)
  .flush
  let _ ← DeviceAccess.addMember draws.id user.id
  let now ← .utcnow
  .add (.insertSensorReadings draws.id ((List.range (24 * 4)).map (demoReading now draws.unit)))
  pure ⟨201, .device (.ofRow draws.id device), []⟩

/-! ## Pairing -/

/-- The device of a challenge: a new one, with the caller as its first member, or an existing
one of the caller. An unpaired one takes the new name. -/
def challengedDevice (body : PairingChallengeRequest) (user : CurrentUser) (draws : Draws) :
    Handler Uuid := do
  match ← .select (.deviceByHardwareUid body.hardwareUid) with
  | none =>
    let createdAt ← .txnow
    .add (.insertDevice draws.id (newDevice body.hardwareUid body.displayName
      (encryptDeviceSecret E.crypto draws.fernetIv "UNPROVISIONED") createdAt))
    .flush
    let _ ← DeviceAccess.addMember draws.id user.id
    pure draws.id
  | some (id, device) =>
    let member ← DeviceAccess.isMember id user.id
    .raiseIf (!member) 409 "This device is already registered to another account."
    .when (!device.isPaired)
      (updateDevice id { displayName := changed device.displayName body.displayName })
    pure id

def pairingChallenge (body : PairingChallengeRequest) (user : CurrentUser) (draws : Draws) :
    Handler Response := do
  let id ← challengedDevice E body user draws
  let now ← .utcnow
  let expiresAt := now + seconds E.cfg.pairingChallengeTtlSeconds
  .redis (.setex (.challenge id) E.cfg.pairingChallengeTtlSeconds draws.tokenHex)
  pure ⟨201, .challenge ⟨id, draws.tokenHex, expiresAt⟩, []⟩

/-- Verify the device's HMAC response and mark the device paired. -/
def pairingConfirm (body : PairingConfirmRequest) (user : CurrentUser) : Handler Response := do
  let device ← DeviceAccess.assertDeviceMember body.deviceId user.id
  .raiseIf device.isPaired 409 "Device is already paired. Reset the device to re-pair."
  let storedNonce : Option String ← .redis (.get (.challenge body.deviceId))
  match storedNonce with
  | none =>
    httpException 410 ("Pairing challenge has expired (TTL=" ++
      toString E.cfg.pairingChallengeTtlSeconds ++ "s). Initiate a new challenge.")
  | some storedNonce =>
    .raiseIf (storedNonce ≠ body.nonce) 400 "Nonce mismatch."
    let verified ← .ofExcept
      (verifyDeviceHmac E.crypto device.deviceSecretEnc body.nonce body.hmacResponse)
    .raiseIf (!verified) 400
      "HMAC verification failed. Ensure the device secret is correctly provisioned."
    updateDevice body.deviceId { isPaired := changed device.isPaired true }
    .redis (.delete [.challenge body.deviceId])
    let pairedAt ← .utcnow
    pure ⟨200, .confirm ⟨body.deviceId, device.hardwareUid, device.displayName, pairedAt⟩, []⟩

/-- Set or replace the device secret. Forces re-pairing (resets `is_paired`). -/
def provisionDeviceSecret (deviceId : Uuid) (secret : String) (user : CurrentUser)
    (draws : Draws) : Handler Response := do
  let device ← DeviceAccess.assertDeviceMember deviceId user.id
  let secretEnc := encryptDeviceSecret E.crypto draws.fernetIv secret
  updateDevice deviceId {
    deviceSecretEnc := changed device.deviceSecretEnc secretEnc
    isPaired := changed device.isPaired false }
  pure ⟨204, .empty, []⟩

/-! ## Listing and sharing -/

def listDevices (user : CurrentUser) : Handler Response := do
  let devices ← .select (.devicesOfUser user.id)
  pure ⟨200, .devices (devices.map fun d => .ofRow d.1 d.2), []⟩

def memberList (deviceId : Uuid) : Handler (List MemberRow) := .select (.members deviceId)

/-- Add an existing user as a member. -/
def shareDevice (deviceId : Uuid) (body : DeviceShareRequest) (user : CurrentUser) :
    Handler Response := do
  let _ ← DeviceAccess.assertDeviceMember deviceId user.id
  match ← .select (.userByEmail body.email) with
  | none => httpException 404 "No user with that email address."
  | some (target, _) =>
    let _ ← DeviceAccess.addMember deviceId target
    let members ← memberList deviceId
    pure ⟨200, .members members, []⟩

def listMembers (deviceId : Uuid) (user : CurrentUser) : Handler Response := do
  let _ ← DeviceAccess.assertDeviceMember deviceId user.id
  let members ← memberList deviceId
  pure ⟨200, .members members, []⟩

/-- Remove a member, or leave. Removing the last member is blocked. -/
def removeMember (deviceId userId : Uuid) (user : CurrentUser) : Handler Response := do
  let _ ← DeviceAccess.assertDeviceMember deviceId user.id
  let count ← DeviceAccess.memberCount deviceId
  .raiseIf (count ≤ 1) 409 "Cannot remove the only member. Delete the device instead."
  DeviceAccess.removeMember deviceId userId
  pure ⟨204, .empty, []⟩

/-! ## Device config -/

def getDeviceConfig (deviceId : Uuid) (user : CurrentUser) : Handler Response := do
  let _ ← DeviceAccess.assertDeviceMember deviceId user.id
  let cfg ← .select (.deviceConfig deviceId)
  pure ⟨200, .config ⟨deviceId, effectiveThresholds cfg, cfg.isSome⟩, []⟩

/-- The pending change that the assignments to the row, or to a new one, amount to. -/
def assignConfig (deviceId : Uuid) (body : DeviceConfigIn) : Option DeviceConfig → Handler Unit
  | none => .add (.insertDeviceConfig deviceId body)
  | some cfg =>
    let patch := DeviceConfigPatch.between cfg body
    .when (patch ≠ {}) (.add (.updateDeviceConfig deviceId patch))

/-- Upsert the alert thresholds of a device and invalidate the worker's cache. -/
def putDeviceConfig (deviceId : Uuid) (body : DeviceConfigIn) (user : CurrentUser) :
    Handler Response := do
  let _ ← DeviceAccess.assertDeviceMember deviceId user.id
  let cfg ← .select (.deviceConfig deviceId)
  assignConfig deviceId body cfg
  .flush
  .redis (.delete [.alertConfig deviceId])
  pure ⟨200, .config ⟨deviceId, effectiveThresholds (some body), true⟩, []⟩

end Rawbin
