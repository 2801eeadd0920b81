import Rawbin.Backend
import Rawbin.Core.Ingest
import Rawbin.Workers.Thresholds

/-!
# Alerts

`process_telemetry_alert_check` of `app/workers/tasks/telemetry.py`: the task that a worker runs
for a stored reading. It loads the thresholds, persists the breaches and hands a push
notification for each member to Celery. Every command is inside a `try` that catches everything;
the outermost one asks Celery for a retry.
-/

namespace Rawbin

/-! ## Evaluation -/

/-- One of the dictionaries that `_evaluate` returns. -/
structure Alert where
  metric : String
  severity : Severity
  value : ℚ
  threshold : ℚ
  message : String
  deriving DecidableEq

/-! The checks of the four metrics. NaN compares with no threshold. -/

def evaluateTemperature (t : Thresholds) : Option Measurement → List Alert
  | some (.real q) =>
    if t.temperatureCMax < q then
      [⟨"temperature_c", .critical, q, t.temperatureCMax,
        "🌡️ Pile temperature " ++ formatFixed 1 q ++ "°C is too high (max " ++
          formatFixed 0 t.temperatureCMax ++ "°C)"⟩]
    else if q < t.temperatureCMin then
      [⟨"temperature_c", .warning, q, t.temperatureCMin,
        "🌡️ Pile temperature " ++ formatFixed 1 q ++ "°C is too low (min " ++
          formatFixed 0 t.temperatureCMin ++ "°C) — composting may have stalled"⟩]
    else []
  | _ => []

def evaluateCo2 (t : Thresholds) : Option Measurement → List Alert
  | some (.real q) =>
    if t.co2PpmMax < q then
      [⟨"co2_ppm", .warning, q, t.co2PpmMax,
        "💨 CO₂ at " ++ formatFixed 0 q ++ " ppm — open the lid to improve aeration"⟩]
    else []
  | _ => []

def evaluateHumidity (t : Thresholds) : Option Measurement → List Alert
  | some (.real q) =>
    if q < t.humidityPctMin then
      [⟨"humidity_pct", .warning, q, t.humidityPctMin,
        "💧 Humidity " ++ formatFixed 0 q ++ "% is too low — add moisture to your pile"⟩]
    else if t.humidityPctMax < q then
      [⟨"humidity_pct", .warning, q, t.humidityPctMax,
        "💧 Humidity " ++ formatFixed 0 q ++ "% is too high — add dry browns to balance"⟩]
    else []
  | _ => []

def evaluatePh (t : Thresholds) : Option Measurement → List Alert
  | some (.real q) =>
    if q < t.phMin then
      [⟨"ph_level", .warning, q, t.phMin,
        "⚗️ pH " ++ formatFixed 1 q ++ " is too acidic (min " ++ formatFixed 1 t.phMin ++
          ") — add lime or wood ash"⟩]
    else if t.phMax < q then
      [⟨"ph_level", .warning, q, t.phMax,
        "⚗️ pH " ++ formatFixed 1 q ++ " is too alkaline (max " ++ formatFixed 1 t.phMax ++
          ") — add coffee grounds or acidic material"⟩]
    else []
  | _ => []

def evaluate (t : Thresholds) (a : AlertCheck) : List Alert :=
  evaluateTemperature t a.temperatureC ++ evaluateCo2 t a.co2Ppm ++
    evaluateHumidity t a.humidityPct ++ evaluatePh t a.phLevel

/-! ## Commands -/

structure PushData where
  deviceId : Uuid
  alertCount : String
  deriving DecidableEq

/-- The arguments of a call of the task `send_push_notification`. -/
structure PushNotification where
  userId : Uuid
  fcmToken : String
  title : String
  body : String
  data : PushData
  deriving DecidableEq

/-- The commands of a task: those of the other code, and what only the task issues in the
sessions of `worker_session`. -/
inductive TaskCmd : Type → Type 1 where
  | base {β : Type} (c : Cmd β) : TaskCmd β
  /-- The flush of the new rows, with their drawn keys. -/
  | insertAlertEvents (deviceId : Uuid) (readingTime : Time) (alerts : List (Uuid × Alert)) :
    TaskCmd (Except Exn Unit)
  /-- The users of the device that have a push token, with the token. -/
  | memberTokens (deviceId : Uuid) : TaskCmd (Except Exn (List (Uuid × String)))
  | commit : TaskCmd (Except Exn Unit)
  | rollback : TaskCmd (Except Exn Unit)
  /-- `send_push_notification.apply_async(...)` -/
  | sendPush (p : PushNotification) : TaskCmd (Except Exn Unit)

abbrev TaskLog := List (Event TaskCmd)

/-- The session, and the alert rows that its transaction has inserted. -/
structure TaskSession where
  base : Session
  alerts : List (Uuid × AlertEvent)

def TaskSession.idle : TaskSession := ⟨.idle, []⟩

/-- The row of an alert; the default of `created_at` is evaluated at the flush. -/
def alertEvent (deviceId : Uuid) (readingTime now : Time) (a : Alert) : AlertEvent where
  deviceId := deviceId
  metric := a.metric
  severity := a.severity
  value := a.value
  threshold := a.threshold
  message := a.message
  readingTime := readingTime
  notified := false
  createdAt := now

namespace Db

def insertAlerts (db : Db) (rows : List (Uuid × AlertEvent)) : Db :=
  { db with alertEvents := db.alertEvents.insertAll rows }

/-- A key that is taken or drawn twice, or a device that is missing. -/
def alertsViolate (db : Db) (deviceId : Uuid) (ids : List Uuid) : Bool :=
  ids.any db.alertEvents.contains || !ids.Nodup || !db.devices.contains deviceId

def memberTokens (db : Db) (deviceId : Uuid) : List (Uuid × String) :=
  (db.users.select fun u row =>
    db.userDevices.contains (u, deviceId) && row.firebasePushToken.isSome).filterMap
    fun r => r.2.firebasePushToken.map fun token => (r.1, token)

end Db

namespace TaskCmd

/-- The answer of a command inside a `try`, by the choice of the environment. -/
def attempt (x : Choice) (r : Except Exn β × TaskSession × World) (t : TaskSession) (w : World) :
    Except Exn β × TaskSession × World :=
  match x with
  | .ok => r
  | .fault => (.error .operationalError, t, w)
  | .lost => (.error .operationalError, r.2)

def exec : {β : Type} → Choice → TaskCmd β → TaskSession → World → β × TaskSession × World
  | _, x, .base c, t, w => let r := c.exec x t.base w; (r.1, { t with base := r.2.1 }, r.2.2)
  | _, x, .insertAlertEvents d ts alerts, t, w =>
    attempt x
      (if w.db.alertsViolate d (alerts.map Prod.fst) then (.error .integrityError, t, w)
      else
        let rows := alerts.map fun a => (a.1, alertEvent d ts w.now a.2)
        (.ok (), { t with alerts := t.alerts ++ rows }, w)) t w
  | _, x, .memberTokens d, t, w => attempt x (.ok (w.db.memberTokens d), t, w) t w
  | _, x, .commit, t, w =>
    attempt x (.ok (), { t with alerts := [] }, { w with db := w.db.insertAlerts t.alerts }) t w
  | _, x, .rollback, t, w => attempt x (.ok (), { t with alerts := [] }, w)
      { t with alerts := [] } w
  | _, x, .sendPush _, t, w => attempt x (.ok (), t, w) t w

def blocked : {β : Type} → TaskCmd β → List TaskSession → Bool
  | _, .base c, ts => c.blocked (ts.map TaskSession.base)
  | _, _, _ => false

end TaskCmd

def taskMachine : Machine TaskCmd World TaskSession Choice where
  exec := TaskCmd.exec
  blocked := TaskCmd.blocked

def taskEmbedding : Machine.Embedding machine taskMachine where
  cmd := .base
  get t := t.base
  put t u := { t with base := u }
  get_put _ _ := rfl
  put_put _ _ _ := rfl
  put_get _ := rfl
  exec _ _ _ _ := rfl

/-! ## The task -/

/-- The alerts with the keys that are drawn for their rows. -/
def withIds (ids : ℕ → Uuid) (alerts : List Alert) : List (Uuid × Alert) :=
  ((List.range alerts.length).map ids).zip alerts

/-- Add the rows in a session of the worker; an exception is only logged. -/
def persistAlerts (deviceId : Uuid) (alerts : List Alert) (readingTime : Time) (ids : ℕ → Uuid) :
    Prog TaskCmd Exn Unit :=
  if alerts = [] then .pure ()
  else .cmd (.insertAlertEvents deviceId readingTime (withIds ids alerts)) fun
    | .error _ => .cmd .rollback fun _ => .pure ()
    | .ok _ => .cmd .commit fun
      | .error _ => .cmd .rollback fun _ => .pure ()
      | .ok _ => .pure ()

def pushTitle (alerts : List Alert) : String :=
  if alerts.any (·.severity = .critical) then "🚨 Rawbin Critical Alert" else "⚠️ Rawbin Alert"

/-- `" | ".join(titles)`, which of one title is the title. -/
def pushBody (alerts : List Alert) : String :=
  " | ".intercalate (alerts.map fun a => String.ofList (a.message.toList.take 60))

def pushNotification (deviceId : Uuid) (alerts : List Alert) (member : Uuid × String) :
    PushNotification where
  userId := member.1
  fcmToken := member.2
  title := pushTitle alerts
  body := pushBody alerts
  data := ⟨deviceId, toString alerts.length⟩

/-- The loop over the members; an exception leaves it. -/
def sendPushes : List PushNotification → Prog TaskCmd Exn Unit
  | [] => .pure ()
  | p :: ps => .cmd (.sendPush p) fun
    | .error _ => .pure ()
    | .ok _ => sendPushes ps

/-- Read the tokens of the members in a session of the worker, then send. -/
def dispatchPushes (deviceId : Uuid) (alerts : List Alert) : Prog TaskCmd Exn Unit :=
  .cmd (.memberTokens deviceId) fun
    | .error _ => .cmd .rollback fun _ => .pure ()
    | .ok members => .cmd .commit fun
      | .error _ => .cmd .rollback fun _ => .pure ()
      | .ok _ => sendPushes (members.map (pushNotification deviceId alerts))

/-- `datetime.fromisoformat(reading_time)`, or now without one. -/
def alertTime : IsoText → Prog TaskCmd Exn Time
  | .absent => .cmd (.base .utcnow) .pure
  | .datetime t => .pure t.instant
  | .malformed => .raise .valueError

/-- The task returns the alerts, or asks for a retry. -/
inductive TaskResult where
  | returned (alerts : List Alert)
  | retry (e : Exn)

/-- What the task does when there are alerts. -/
def handleAlerts (a : AlertCheck) (alerts : List Alert) (ids : ℕ → Uuid) :
    Prog TaskCmd Exn TaskResult :=
  (alertTime a.readingTime).bind fun ts =>
    (persistAlerts a.deviceId alerts ts ids).bind fun _ =>
      (dispatchPushes a.deviceId alerts).bind fun _ => .pure (.returned alerts)

def processTelemetryAlertCheck (a : AlertCheck) (ids : ℕ → Uuid) : Prog TaskCmd Exn TaskResult :=
  Prog.tryCatch
    (((loadThresholds a.deviceId).lift taskEmbedding.cmd).bind fun thresholds =>
      let alerts := evaluate thresholds a
      if alerts = [] then .pure (.returned []) else handleAlerts a alerts ids)
    fun e => .pure (.retry e)

/-! ## Deliveries -/

/-- A delivery of the task for a message that was stored, with the keys it would draw. -/
structure TaskDelivery where
  message : Telemetry
  ids : ℕ → Uuid

/-- Deliveries of the task, to any number of workers. Other code writes no alert rows. -/
def alertTasks : System TaskCmd World TaskSession Choice Exn TaskDelivery TaskResult World where
  exec := TaskCmd.exec
  blocked := TaskCmd.blocked
  start := .idle
  prog r := processTelemetryAlertCheck r.message.alertCheck r.ids
  env w' w := { w' with db := { w'.db with alertEvents := w.db.alertEvents } }

/-! ## The worker beside the API -/

/-- A job of the other code, or a call of the task. -/
inductive TaskJob where
  | job (j : Job)
  | alertCheck (a : AlertCheck) (ids : ℕ → Uuid)

inductive TaskOutcome where
  | outcome (o : Outcome)
  | result (r : TaskResult)

def TaskJob.prog (E : Env) : TaskJob → Prog TaskCmd Exn TaskOutcome
  | .job j => ((j.prog E).lift taskEmbedding.cmd).bind fun o => .pure (.outcome o)
  | .alertCheck a ids => (processTelemetryAlertCheck a ids).bind fun r => .pure (.result r)

/-- Jobs and alert tasks. Whatever else runs changes neither the users nor the memberships. -/
def backendWithTasks (E : Env) :
    System TaskCmd World TaskSession Choice Exn TaskJob TaskOutcome World where
  exec := TaskCmd.exec
  blocked := TaskCmd.blocked
  start := .idle
  prog := TaskJob.prog E
  env w' w :=
    { w' with db := { w'.db with users := w.db.users, userDevices := w.db.userDevices } }

end Rawbin
