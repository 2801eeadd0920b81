import Mathlib.Data.List.Sort
import Mathlib.Data.Rat.Defs
import Mathlib.Algebra.Order.Ring.Unbundled.Rat
import Mathlib.Algebra.Ring.Rat
import Rawbin.Db.Models

/-!
# Statements that read

One constructor for each SELECT of the routes and services, with the rows it returns. A lookup
by a unique column has at most one row; rows with equal sort keys, whose order SQL leaves open,
come in insertion order. The continuous aggregate `sensor_readings_hourly` is assumed to be up to
date.
-/

namespace Rawbin

/-- `ORDER BY key` or, with `desc`, `ORDER BY key DESC`. -/
def orderBy {α κ : Type} [LinearOrder κ] (key : α → κ) (desc : Bool) (l : List α) : List α :=
  if desc then l.insertionSort (fun a b => key b ≤ key a)
  else l.insertionSort (fun a b => key a ≤ key b)

/-- `LIMIT limit OFFSET offset`. -/
def page {α : Type} (limit offset : Nat) (l : List α) : List α := (l.drop offset).take limit

/-! ## Aggregates -/

/-- `AVG`, which skips nulls and is null without values. -/
def sqlAvg (xs : List (Option ℚ)) : Option ℚ :=
  let ys := xs.filterMap id
  if ys.isEmpty then none else some (ys.sum / ys.length)

def sqlMin (xs : List (Option ℚ)) : Option ℚ := (xs.filterMap id).min?

def sqlMax (xs : List (Option ℚ)) : Option ℚ := (xs.filterMap id).max?

/-- `time_bucket`: the start of the interval of the given width that holds the instant. -/
def timeBucket (width : Int) (t : Time) : Time := t / width * width

/-- A row of `sensor_readings_hourly`, or of its daily rollup. -/
structure HistoryRow where
  bucket : Time
  avgTemperatureC : Option ℚ
  minTemperatureC : Option ℚ
  maxTemperatureC : Option ℚ
  avgHumidityPct : Option ℚ
  avgCo2Ppm : Option ℚ
  avgPhLevel : Option ℚ
  avgFanSpeedRpm : Option ℚ
  deriving DecidableEq

/-- The distinct values of a key, in ascending order: the groups of `GROUP BY 1 ORDER BY 1`. -/
def groups {α : Type} (key : α → Time) (l : List α) : List Time :=
  ((l.map key).dedup).insertionSort (· ≤ ·)

def hourlyRow (rows : List (Time × SensorReading)) (b : Time) : HistoryRow :=
  let rs := (rows.filter fun r => timeBucket (hours 1) r.1 = b).map Prod.snd
  { bucket := b
    avgTemperatureC := sqlAvg (rs.map (·.temperatureC))
    minTemperatureC := sqlMin (rs.map (·.temperatureC))
    maxTemperatureC := sqlMax (rs.map (·.temperatureC))
    avgHumidityPct := sqlAvg (rs.map (·.humidityPct))
    avgCo2Ppm := sqlAvg (rs.map (·.co2Ppm))
    avgPhLevel := sqlAvg (rs.map (·.phLevel))
    avgFanSpeedRpm := sqlAvg (rs.map fun r => r.fanSpeedRpm.map fun (n : Int) => (n : ℚ)) }

/-- `sensor_readings_hourly` for the readings of one device, under the assumption that **the view is
up to date**. It is for buckets that are not materialised yet (`materialized_only = FALSE`), and for
the others when no reading has come in after their last refresh; a reading that comes later than the
`start_offset` of the refresh policy, 3 hours, is not in the view of the database. -/
def hourlyView (rows : List (Time × SensorReading)) : List HistoryRow :=
  (groups (fun r => timeBucket (hours 1) r.1) rows).map (hourlyRow rows)

def dailyRow (rows : List HistoryRow) (b : Time) : HistoryRow :=
  let rs := rows.filter fun r => timeBucket (days 1) r.bucket = b
  { bucket := b
    avgTemperatureC := sqlAvg (rs.map (·.avgTemperatureC))
    minTemperatureC := sqlMin (rs.map (·.minTemperatureC))
    maxTemperatureC := sqlMax (rs.map (·.maxTemperatureC))
    avgHumidityPct := sqlAvg (rs.map (·.avgHumidityPct))
    avgCo2Ppm := sqlAvg (rs.map (·.avgCo2Ppm))
    avgPhLevel := sqlAvg (rs.map (·.avgPhLevel))
    avgFanSpeedRpm := sqlAvg (rs.map (·.avgFanSpeedRpm)) }

def dailyRollup (rows : List HistoryRow) : List HistoryRow :=
  (groups (fun r => timeBucket (days 1) r.bucket) rows).map (dailyRow rows)

/-! ## Queries -/

/-- A row of the member list: `users.id`, `users.email`, `users.display_name`. -/
structure MemberRow where
  id : Uuid
  email : String
  displayName : String
  deriving DecidableEq

inductive Query : Type → Type where
  | userById (id : Uuid) : Query (Option User)
  | userByEmail (email : String) : Query (Option (Uuid × User))
  | userByPhone (phone : String) : Query (Option (Uuid × User))
  | usersByEmailOrPhone (email : String) (phone : Option String) : Query (List (Uuid × User))
  | userIdByPhoneExcept (phone : String) (id : Uuid) : Query (Option Uuid)
  | refreshTokenByHash (hash : String) : Query (Option (Uuid × RefreshToken))
  | deviceById (id : Uuid) : Query (Option Device)
  | deviceByHardwareUid (uid : String) : Query (Option (Uuid × Device))
  | devicesOfUser (userId : Uuid) : Query (List (Uuid × Device))
  | member (deviceId userId : Uuid) : Query (Option Uuid)
  | userDevice (deviceId userId : Uuid) : Query (Option UserDevice)
  | memberCount (deviceId : Uuid) : Query Nat
  | members (deviceId : Uuid) : Query (List MemberRow)
  | deviceConfig (deviceId : Uuid) : Query (Option DeviceConfig)
  | activeCycles (deviceId : Uuid) : Query (List (Uuid × CompostCycle))
  | cycles (deviceId : Uuid) (status : Option CycleStatus) : Query (List (Uuid × CompostCycle))
  | cycleById (id : Uuid) : Query (Option CompostCycle)
  | cycleOfDevice (id deviceId : Uuid) : Query (Option CompostCycle)
  | wasteLogCount (deviceId : Uuid) (cycleId : Option Uuid) : Query Nat
  | wasteLogs (deviceId : Uuid) (cycleId : Option Uuid) (limit offset : Nat) :
    Query (List (Uuid × WasteLog))
  | alertCount (deviceId : Uuid) (severity : Option Severity) (metric : Option String) : Query Nat
  | alertEvents (deviceId : Uuid) (severity : Option Severity) (metric : Option String)
    (limit offset : Nat) : Query (List (Uuid × AlertEvent))
  | latestReading (deviceId : Uuid) : Query (Option (Time × SensorReading))
  | readings (deviceId : Uuid) (start stop : Time) : Query (List (Time × SensorReading))
  | hourly (deviceId : Uuid) (start stop : Time) : Query (List HistoryRow)
  | daily (deviceId : Uuid) (start stop : Time) : Query (List HistoryRow)

namespace Db

/-! The rows of one device in the tables that refer to devices. -/

def membersOf (db : Db) (d : Uuid) : List ((Uuid × Uuid) × UserDevice) :=
  db.userDevices.select fun k _ => k.2 = d

def readingsOf (db : Db) (d : Uuid) : List ((Time × Uuid) × SensorReading) :=
  db.sensorReadings.select fun k _ => k.2 = d

def alertsOf (db : Db) (d : Uuid) : List (Uuid × AlertEvent) :=
  db.alertEvents.select fun _ a => a.deviceId = d

def cyclesOf (db : Db) (d : Uuid) : List (Uuid × CompostCycle) :=
  db.compostCycles.select fun _ c => c.deviceId = d

def wasteLogsOf (db : Db) (d : Uuid) : List (Uuid × WasteLog) :=
  db.wasteLogs.select fun _ w => w.deviceId = d

def timedReadings (db : Db) (d : Uuid) : List (Time × SensorReading) :=
  (db.readingsOf d).map fun r => (r.1.1, r.2)

def filteredWasteLogs (db : Db) (d : Uuid) (cycleId : Option Uuid) : List (Uuid × WasteLog) :=
  (db.wasteLogsOf d).filter fun w => cycleId.all fun c => w.2.compostCycleId = some c

def filteredAlerts (db : Db) (d : Uuid) (severity : Option Severity) (metric : Option String) :
    List (Uuid × AlertEvent) :=
  (db.alertsOf d).filter fun a => severity.all (· = a.2.severity) && metric.all (· = a.2.metric)

def hourlyBetween (db : Db) (d : Uuid) (start stop : Time) : List HistoryRow :=
  (hourlyView (db.timedReadings d)).filter fun r => start ≤ r.bucket && r.bucket ≤ stop

end Db

namespace Query

def eval : {β : Type} → Query β → Db → β
  | _, .userById id, db => db.users.get? id
  | _, .userByEmail email, db => (db.users.select fun _ u => u.email = email).head?
  | _, .userByPhone phone, db => (db.users.select fun _ u => u.phone = some phone).head?
  | _, .usersByEmailOrPhone email phone, db =>
    db.users.select fun _ u => u.email = email || (phone.isSome && u.phone = phone)
  | _, .userIdByPhoneExcept phone id, db =>
    (db.users.select fun k u => u.phone = some phone && k ≠ id).head?.map Prod.fst
  | _, .refreshTokenByHash hash, db =>
    (db.refreshTokens.select fun _ rt => rt.tokenHash = hash).head?
  | _, .deviceById id, db => db.devices.get? id
  | _, .deviceByHardwareUid uid, db => (db.devices.select fun _ d => d.hardwareUid = uid).head?
  | _, .devicesOfUser u, db =>
    orderBy (fun d => d.2.createdAt) false
      (db.devices.select fun d _ => db.userDevices.contains (u, d))
  | _, .member d u, db => if db.userDevices.contains (u, d) then some u else none
  | _, .userDevice d u, db => db.userDevices.get? (u, d)
  | _, .memberCount d, db => (db.membersOf d).length
  | _, .members d, db =>
    (orderBy (fun u => u.2.createdAt) false
      (db.users.select fun u _ => db.userDevices.contains (u, d))).map
      fun u => ⟨u.1, u.2.email, u.2.displayName⟩
  | _, .deviceConfig d, db => db.deviceConfigs.get? d
  | _, .activeCycles d, db => (db.cyclesOf d).filter fun c => c.2.status = .active
  | _, .cycles d status, db =>
    orderBy (fun c => c.2.startedAt) true
      ((db.cyclesOf d).filter fun c => status.all (· = c.2.status))
  | _, .cycleById id, db => db.compostCycles.get? id
  | _, .cycleOfDevice id d, db => (db.compostCycles.get? id).filter fun c => c.deviceId = d
  | _, .wasteLogCount d cycleId, db => (db.filteredWasteLogs d cycleId).length
  | _, .wasteLogs d cycleId limit offset, db =>
    page limit offset (orderBy (fun w => w.2.loggedAt) true (db.filteredWasteLogs d cycleId))
  | _, .alertCount d severity metric, db => (db.filteredAlerts d severity metric).length
  | _, .alertEvents d severity metric limit offset, db =>
    page limit offset
      (orderBy (fun a => a.2.createdAt) true (db.filteredAlerts d severity metric))
  | _, .latestReading d, db => (orderBy Prod.fst true (db.timedReadings d)).head?
  | _, .readings d start stop, db =>
    page 1000 0 (orderBy Prod.fst false
      ((db.timedReadings d).filter fun r => start ≤ r.1 && r.1 ≤ stop))
  | _, .hourly d start stop, db => db.hourlyBetween d start stop
  | _, .daily d start stop, db => dailyRollup (db.hourlyBetween d start stop)

end Query

end Rawbin
