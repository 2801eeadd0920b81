import Rawbin.Core.Config
import Rawbin.Library.Table

/-!
# The tables

`app/db/models/*.py`. The key of a table is its primary key, except for `device_configs`, whose
rows are only ever found by the unique `device_id`. `created_at` is the database's `now()`; for the
rows of `alert_events` it is the clock of the worker that inserts them.
-/

namespace Rawbin

structure User where
  email : String
  phone : Option String
  passwordHash : String
  displayName : String
  firebasePushToken : Option String
  isActive : Bool
  createdAt : Time
  deriving DecidableEq

structure RefreshToken where
  userId : Uuid
  tokenHash : String
  expiresAt : Time
  revoked : Bool
  deriving DecidableEq

namespace RefreshToken

def isExpired (rt : RefreshToken) (now : Time) : Bool := now ≥ rt.expiresAt

def isValid (rt : RefreshToken) (now : Time) : Bool := !rt.revoked && !rt.isExpired now

end RefreshToken

structure Device where
  hardwareUid : String
  deviceSecretEnc : String
  displayName : String
  isPaired : Bool
  firmwareVersion : Option String
  createdAt : Time
  deriving DecidableEq

/-- The row of a membership; its key is the pair of the user and the device. -/
structure UserDevice where
  createdAt : Time
  deriving DecidableEq

/-- The row of a reading; its key is the pair of the time and the device. -/
structure SensorReading where
  temperatureC : Option ℚ
  humidityPct : Option ℚ
  co2Ppm : Option ℚ
  phLevel : Option ℚ
  ambientTempC : Option ℚ
  fanSpeedRpm : Option Int
  fillLevelPct : Option ℚ
  weightKg : Option ℚ
  firmwareVersion : Option String
  deriving DecidableEq

inductive Severity where
  | warning | critical
  deriving DecidableEq

structure AlertEvent where
  deviceId : Uuid
  metric : String
  severity : Severity
  value : ℚ
  threshold : ℚ
  message : String
  readingTime : Time
  notified : Bool
  createdAt : Time
  deriving DecidableEq

structure DeviceConfig where
  temperatureCMax : Option ℚ
  temperatureCMin : Option ℚ
  co2PpmMax : Option ℚ
  humidityPctMin : Option ℚ
  humidityPctMax : Option ℚ
  phMin : Option ℚ
  phMax : Option ℚ
  deriving DecidableEq

inductive CycleStatus where
  | active | curing | completed
  deriving DecidableEq

structure CompostCycle where
  deviceId : Uuid
  status : CycleStatus
  startedAt : Time
  endedAt : Option Time
  label : Option String
  notes : Option String
  createdAt : Time
  updatedAt : Time
  deriving DecidableEq

inductive WasteType where
  | greens | browns | food | other
  deriving DecidableEq

structure WasteLog where
  deviceId : Uuid
  compostCycleId : Option Uuid
  userId : Option Uuid
  loggedAt : Time
  wasteType : WasteType
  weightKg : Option ℚ
  notes : Option String
  createdAt : Time
  deriving DecidableEq

structure Db where
  users : Table Uuid User
  refreshTokens : Table Uuid RefreshToken
  devices : Table Uuid Device
  userDevices : Table (Uuid × Uuid) UserDevice
  sensorReadings : Table (Time × Uuid) SensorReading
  alertEvents : Table Uuid AlertEvent
  deviceConfigs : Table Uuid DeviceConfig
  compostCycles : Table Uuid CompostCycle
  wasteLogs : Table Uuid WasteLog

namespace Db

def empty : Db := ⟨.empty, .empty, .empty, .empty, .empty, .empty, .empty, .empty, .empty⟩

instance : Inhabited Db := ⟨empty⟩

end Db

end Rawbin
