import Rawbin.Db.Query
import Rawbin.Db.Redis

/-!
# Request and response bodies

`app/schemas/*.py`: the bodies that a route receives after validation, and the ones it returns.
-/

namespace Rawbin

/-- A `datetime` of the query string, with or without a UTC offset. A naive one is an instant
of the server's own time zone. -/
structure PyDatetime where
  instant : Time
  aware : Bool
  deriving DecidableEq

/-! ## Requests -/

structure UserRegisterRequest where
  email : String
  password : String
  displayName : String
  phone : Option String

structure UserLoginRequest where
  email : String
  password : String

structure OTPRequestIn where
  phone : String

structure OTPVerifyIn where
  phone : String
  code : String

structure RefreshRequest where
  refreshToken : String

structure UserPatchIn where
  displayName : Option String
  phone : Option String

structure PushTokenIn where
  token : String

structure PairingChallengeRequest where
  hardwareUid : String
  displayName : String := "My Rawbin"

structure PairingConfirmRequest where
  deviceId : Uuid
  nonce : String
  hmacResponse : String

structure DeviceShareRequest where
  email : String

/-- `DeviceConfigIn` has the seven nullable fields of the row. -/
abbrev DeviceConfigIn := DeviceConfig

/-- The bounds of a `Field`. -/
structure FieldBounds where
  gt : Option ℚ := none
  ge : Option ℚ := none
  lt : Option ℚ := none
  le : Option ℚ := none

def FieldBounds.admits (b : FieldBounds) (q : ℚ) : Bool :=
  b.gt.all (· < q) && b.ge.all (· ≤ q) && b.lt.all (q < ·) && b.le.all (q ≤ ·)

/-- The fields of `DeviceConfigIn` with their bounds and values. -/
def configFields (body : DeviceConfigIn) : List (String × FieldBounds × Option ℚ) :=
  [("temperature_c_max", { gt := some 0, le := some 120 }, body.temperatureCMax),
    ("temperature_c_min", { ge := some 0, lt := some 120 }, body.temperatureCMin),
    ("co2_ppm_max", { gt := some 0, le := some 50000 }, body.co2PpmMax),
    ("humidity_pct_min", { ge := some 0, le := some 100 }, body.humidityPctMin),
    ("humidity_pct_max", { ge := some 0, le := some 100 }, body.humidityPctMax),
    ("ph_min", { ge := some 0, le := some 14 }, body.phMin),
    ("ph_max", { ge := some 0, le := some 14 }, body.phMax)]

/-- The fields for which a body is refused, with a 422; a null field is never one. -/
def configErrors (body : DeviceConfigIn) : List String :=
  ((configFields body).filter fun f => !f.2.2.all f.2.1.admits).map Prod.fst

structure CompostCycleCreate where
  label : Option String
  notes : Option String
  startedAt : Option Time

structure CompostCycleUpdate where
  status : Option CycleStatus
  label : Option String
  notes : Option String
  endedAt : Option Time

structure WasteLogCreate where
  wasteType : WasteType
  weightKg : Option ℚ
  notes : Option String
  loggedAt : Option Time
  compostCycleId : Option Uuid

inductive Interval where
  | raw | hour | day
  deriving DecidableEq

/-! ## Responses -/

structure TokenResponse where
  accessToken : String
  refreshToken : String
  tokenType : String := "bearer"
  expiresIn : Nat
  deriving DecidableEq

structure UserResponse where
  id : Uuid
  email : String
  phone : Option String
  displayName : String
  isActive : Bool
  createdAt : Time
  deriving DecidableEq

structure UserOut where
  id : Uuid
  email : String
  phone : Option String
  displayName : String
  isActive : Bool
  hasPushToken : Bool
  createdAt : Time
  deriving DecidableEq

structure DeviceResponse where
  id : Uuid
  hardwareUid : String
  displayName : String
  isPaired : Bool
  firmwareVersion : Option String
  createdAt : Time
  deriving DecidableEq

structure PairingChallengeResponse where
  deviceId : Uuid
  nonce : String
  expiresAt : Time
  deriving DecidableEq

structure PairingConfirmResponse where
  deviceId : Uuid
  hardwareUid : String
  displayName : String
  pairedAt : Time
  deriving DecidableEq

structure DeviceConfigOut where
  deviceId : Uuid
  thresholds : Thresholds
  isCustom : Bool
  deriving DecidableEq

structure DeviceSnapshotResponse where
  deviceId : Uuid
  hardwareUid : String
  displayName : String
  isPaired : Bool
  firmwareVersion : Option String
  latestReading : Option (Time × SensorReading)
  /-- In microseconds; the source divides by a million. -/
  readingAge : Option Int
  deriving DecidableEq

structure OtaUpdateCheckResponse where
  deviceId : Uuid
  currentVersion : Option String
  latestVersion : String
  updateAvailable : Bool
  downloadUrl : Option String
  deriving DecidableEq

/-- A page of a list, with the total number of rows. -/
structure Page (α : Type) where
  deviceId : Uuid
  total : Nat
  limit : Nat
  offset : Nat
  items : List α
  deriving DecidableEq

inductive HistoryReadings where
  | raw (rows : List (Time × SensorReading))
  | points (rows : List HistoryRow)
  deriving DecidableEq

def HistoryReadings.count : HistoryReadings → Nat
  | .raw rows => rows.length
  | .points rows => rows.length

structure TelemetryHistoryResponse where
  deviceId : Uuid
  interval : Interval
  start : PyDatetime
  stop : PyDatetime
  count : Nat
  readings : HistoryReadings
  deriving DecidableEq

inductive Body where
  | empty
  | detail (text : String)
  | internalServerError
  | register (user : UserResponse) (tokens : TokenResponse)
  | tokens (tokens : TokenResponse)
  | user (user : UserOut)
  | device (device : DeviceResponse)
  | devices (devices : List DeviceResponse)
  | challenge (challenge : PairingChallengeResponse)
  | confirm (confirm : PairingConfirmResponse)
  | members (members : List MemberRow)
  | config (config : DeviceConfigOut)
  | cycle (id : Uuid) (cycle : CompostCycle)
  | cycles (cycles : List (Uuid × CompostCycle))
  | wasteLog (id : Uuid) (log : WasteLog)
  | wasteLogs (page : Page (Uuid × WasteLog))
  | alerts (page : Page (Uuid × AlertEvent))
  | snapshot (snapshot : DeviceSnapshotResponse)
  | ota (ota : OtaUpdateCheckResponse)
  | history (history : TelemetryHistoryResponse)
  deriving DecidableEq

structure Response where
  status : Nat
  body : Body
  headers : List (String × String) := []
  deriving DecidableEq

def UserResponse.ofRow (id : Uuid) (u : User) : UserResponse where
  id := id
  email := u.email
  phone := u.phone
  displayName := u.displayName
  isActive := u.isActive
  createdAt := u.createdAt

/-- `UserOut.from_orm_user`; an empty token counts as none. -/
def UserOut.fromOrmUser (id : Uuid) (u : User) : UserOut where
  id := id
  email := u.email
  phone := u.phone
  displayName := u.displayName
  isActive := u.isActive
  hasPushToken := u.firebasePushToken.any (· ≠ "")
  createdAt := u.createdAt

def DeviceResponse.ofRow (id : Uuid) (d : Device) : DeviceResponse where
  id := id
  hardwareUid := d.hardwareUid
  displayName := d.displayName
  isPaired := d.isPaired
  firmwareVersion := d.firmwareVersion
  createdAt := d.createdAt

end Rawbin
