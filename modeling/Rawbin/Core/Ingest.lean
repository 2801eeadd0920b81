import Rawbin.Core.Mqtt
import Rawbin.Db.Models
import Rawbin.Library.Pool

/-!
# Storing telemetry

`process_telemetry_async` and `_dispatch_alert_check` of `app/core/mqtt.py`: the coroutine that
the client schedules for a reading. Coroutines interleave at their database statements. The
session keeps the new row and the changed device until `commit`, which flushes them (an UPDATE
of the device, if its version changes, before the INSERT) and then commits.

What the coroutine needs of the database are the tables of the devices and of the readings, with
measurements that may be NaN.
-/

namespace Rawbin

/-! ## Readings -/

/-- A float that is no infinity. The bounds of `SensorReadingIn` let no infinity through, and no
NaN; what comes after the schema is modelled for a NaN as well. -/
inductive Measurement where
  | nan
  | real (q : ℚ)
  deriving DecidableEq

def Measurement.float : Measurement → PyFloat
  | .nan => .nan
  | .real q => .finite q

/-- A validated `SensorReadingIn`. -/
structure Reading where
  time : PyDatetime
  temperatureC : Option Measurement
  humidityPct : Option Measurement
  co2Ppm : Option Measurement
  phLevel : Option Measurement
  ambientTempC : Option Measurement
  fanSpeedRpm : Option Int
  fillLevelPct : Option Measurement
  weightKg : Option Measurement
  firmwareVersion : Option String
  deriving DecidableEq

def Reading.sensorReadingIn (r : Reading) : SensorReadingIn where
  time := r.time
  temperatureC := r.temperatureC.map Measurement.float
  humidityPct := r.humidityPct.map Measurement.float
  co2Ppm := r.co2Ppm.map Measurement.float
  phLevel := r.phLevel.map Measurement.float
  ambientTempC := r.ambientTempC.map Measurement.float
  fanSpeedRpm := r.fanSpeedRpm
  fillLevelPct := r.fillLevelPct.map Measurement.float
  weightKg := r.weightKg.map Measurement.float
  firmwareVersion := r.firmwareVersion

/-- A row of `sensor_readings`; its key is the pair of the time and the device. -/
structure ReadingRow where
  temperatureC : Option Measurement
  humidityPct : Option Measurement
  co2Ppm : Option Measurement
  phLevel : Option Measurement
  ambientTempC : Option Measurement
  fanSpeedRpm : Option Int
  fillLevelPct : Option Measurement
  weightKg : Option Measurement
  firmwareVersion : Option String
  deriving DecidableEq

/-- The text of `reading_time`, by what `datetime.fromisoformat` makes of it. An empty text
counts as none. -/
inductive IsoText where
  | absent
  | datetime (t : PyDatetime)
  | malformed
  deriving DecidableEq

/-- The arguments of a call of the task `process_telemetry_alert_check`. -/
structure AlertCheck where
  deviceId : Uuid
  temperatureC : Option Measurement
  co2Ppm : Option Measurement
  humidityPct : Option Measurement
  phLevel : Option Measurement
  readingTime : IsoText
  deriving DecidableEq

/-- A message of the broker that was accepted. -/
structure Telemetry where
  deviceId : Uuid
  reading : Reading
  deriving DecidableEq

namespace Telemetry

def key (m : Telemetry) : Time × Uuid := (m.reading.time.instant, m.deviceId)

/-- `SensorReading(time=reading.time, device_id=device_id, ...)` -/
def row (m : Telemetry) : ReadingRow where
  temperatureC := m.reading.temperatureC
  humidityPct := m.reading.humidityPct
  co2Ppm := m.reading.co2Ppm
  phLevel := m.reading.phLevel
  ambientTempC := m.reading.ambientTempC
  fanSpeedRpm := m.reading.fanSpeedRpm
  fillLevelPct := m.reading.fillLevelPct
  weightKg := m.reading.weightKg
  firmwareVersion := m.reading.firmwareVersion

/-- The arguments that `_dispatch_alert_check` passes. -/
def alertCheck (m : Telemetry) : AlertCheck where
  deviceId := m.deviceId
  temperatureC := m.reading.temperatureC
  co2Ppm := m.reading.co2Ppm
  humidityPct := m.reading.humidityPct
  phLevel := m.reading.phLevel
  readingTime := .datetime m.reading.time

end Telemetry

/-! ## Statements -/

structure TelemetryDb where
  devices : Table Uuid Device
  sensorReadings : Table (Time × Uuid) ReadingRow

inductive TelemetryWrite where
  | updateFirmware (deviceId : Uuid) (version : String)
  | insertReading (key : Time × Uuid) (row : ReadingRow)
  deriving DecidableEq

namespace TelemetryWrite

def apply : TelemetryWrite → TelemetryDb → TelemetryDb
  | .updateFirmware d v, db =>
    { db with devices := db.devices.update d fun row => { row with firmwareVersion := some v } }
  | .insertReading k row, db => { db with sensorReadings := db.sensorReadings.insert k row }

def violates : TelemetryWrite → TelemetryDb → Option Exn
  | .updateFirmware d _, db => if !db.devices.contains d then some .staleDataError else none
  | .insertReading k _, db =>
    if db.sensorReadings.contains k || !db.devices.contains k.2 then some .integrityError else none

/-- The statement waits for a transaction that holds the row, or the key, of the other. -/
def conflicts : TelemetryWrite → TelemetryWrite → Bool
  | .updateFirmware d _, .updateFirmware d' _ => d = d'
  | .insertReading k _, .insertReading k' _ => k = k'
  | _, _ => false

end TelemetryWrite

namespace TelemetryDb

/-- The database as a transaction that has executed these statements sees it. -/
def view (db : TelemetryDb) (written : List TelemetryWrite) : TelemetryDb :=
  written.foldl (fun db w => w.apply db) db

end TelemetryDb

/-! ## Commands -/

inductive IngestCmd : Type → Type where
  /-- `select(Device).where(Device.id == id)` -/
  | device (id : Uuid) : IngestCmd (Except Exn (Option Device))
  | execute (w : TelemetryWrite) : IngestCmd (Except Exn Unit)
  | commit : IngestCmd (Except Exn Unit)
  | rollback : IngestCmd (Except Exn Unit)
  /-- `process_telemetry_alert_check.apply_async(...)` -/
  | applyAsync (check : AlertCheck) : IngestCmd (Except Exn Unit)

namespace IngestCmd

/-- Any command may raise. A statement or a commit that raises ends the transaction. -/
def exec : {β : Type} → Option Exn → IngestCmd β → List TelemetryWrite → TelemetryDb →
    β × List TelemetryWrite × TelemetryDb
  | _, none, .device id, t, db => (.ok ((db.view t).devices.get? id), t, db)
  | _, some e, .device _, t, db => (.error e, t, db)
  | _, none, .execute w, t, db =>
    match w.violates (db.view t) with
    | none => (.ok (), t ++ [w], db)
    | some e => (.error e, [], db)
  | _, some e, .execute _, _, db => (.error e, [], db)
  | _, none, .commit, t, db => (.ok (), [], db.view t)
  | _, some e, .commit, _, db => (.error e, [], db)
  | _, none, .rollback, _, db => (.ok (), [], db)
  | _, some e, .rollback, _, db => (.error e, [], db)
  | _, none, .applyAsync _, t, db => (.ok (), t, db)
  | _, some e, .applyAsync _, t, db => (.error e, t, db)

def blocked : {β : Type} → IngestCmd β → List (List TelemetryWrite) → Bool
  | _, .execute w, ts => ts.any fun t => t.any w.conflicts
  | _, _, _ => false

end IngestCmd

/-! ## The coroutine -/

/-- Issue a command and raise its error. -/
def perform (c : IngestCmd (Except Exn β)) : Prog IngestCmd Exn β :=
  .cmd c fun
    | .ok b => .pure b
    | .error e => .raise e

/-- `await db.commit()` with these pending changes. -/
def flushAndCommit : List TelemetryWrite → Prog IngestCmd Exn Unit
  | [] => perform .commit
  | w :: ws => (perform (.execute w)).bind fun _ => flushAndCommit ws

def dispatchAlertCheck (m : Telemetry) : Prog IngestCmd Exn Unit :=
  .cmd (.applyAsync m.alertCheck) fun _ => .pure ()

/-- `if reading.firmware_version: device.firmware_version = reading.firmware_version`. The ORM
issues no UPDATE when the device has the version already. -/
def Telemetry.firmwareUpdate (m : Telemetry) (device : Device) : List TelemetryWrite :=
  match m.reading.firmwareVersion with
  | none => []
  | some v =>
    if v = "" ∨ device.firmwareVersion = some v then [] else [.updateFirmware m.deviceId v]

/-- What the session has to flush. -/
def Telemetry.pending (m : Telemetry) (device : Device) : List TelemetryWrite :=
  m.firmwareUpdate device ++ [.insertReading m.key m.row]

def processTelemetryAsync (m : Telemetry) : Prog IngestCmd Exn Unit :=
  Prog.tryCatch
    ((perform (.device m.deviceId)).bind fun
      | none => .pure ()
      | some device => (flushAndCommit (m.pending device)).bind fun _ => dispatchAlertCheck m)
    fun _ => perform .rollback

/-- What other code commits to the devices: new ones, and columns other than the version. -/
structure DevicesChange where
  apply : Table Uuid Device → Table Uuid Device
  keeps : ∀ t d row, t.get? d = some row →
    ∃ row', (apply t).get? d = some row' ∧ row'.firmwareVersion = row.firmwareVersion

def ingestion : System IngestCmd TelemetryDb (List TelemetryWrite) (Option Exn) Exn Telemetry Unit
    DevicesChange where
  exec := IngestCmd.exec
  blocked := IngestCmd.blocked
  start := []
  prog := processTelemetryAsync
  env e db := { db with devices := e.apply db.devices }

end Rawbin
