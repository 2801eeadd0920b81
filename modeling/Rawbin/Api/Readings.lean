import Rawbin.Services.DeviceAccess
import Rawbin.Api.Deps

/-!
# What a device reports

`app/api/v1/status.py`, `alerts.py`, `telemetry.py` and `ota.py`: the latest reading, the alert
history, the reading history and the check for new firmware.
-/

namespace Rawbin

variable (E : Env)

/-! ## Snapshot -/

/-- `datetime.now(timezone.utc) - reading_time` -/
def readingAge : Option (Time × SensorReading) → Handler (Option Int)
  | none => pure none
  | some reading => do
    let now ← .utcnow
    pure (some (now - reading.1))

def deviceSnapshot (deviceId : Uuid) (user : CurrentUser) : Handler Response := do
  let device ← DeviceAccess.assertDeviceMember deviceId user.id
  let latest ← .select (.latestReading deviceId)
  let readingAge ← readingAge latest
  pure ⟨200, .snapshot {
    deviceId := deviceId
    hardwareUid := device.hardwareUid
    displayName := device.displayName
    isPaired := device.isPaired
    firmwareVersion := device.firmwareVersion
    latestReading := latest
    readingAge := readingAge }, []⟩

/-! ## Alerts -/

/-- An empty `metric` is no filter. -/
def listAlerts (deviceId : Uuid) (limit offset : Nat) (severity : Option Severity)
    (metric : Option String) (user : CurrentUser) : Handler Response := do
  let _ ← DeviceAccess.assertDeviceMember deviceId user.id
  let metric := metric.filter (· ≠ "")
  let total ← .select (.alertCount deviceId severity metric)
  let items ← .select (.alertEvents deviceId severity metric limit offset)
  pure ⟨200, .alerts ⟨deviceId, total, limit, offset, items⟩, []⟩

/-! ## History -/

def defaultWindow : Interval → Int
  | .raw => hours 24
  | .hour => days 7
  | .day => days 90

/-- `<=` of two `datetime`s: a naive and an aware one do not compare. -/
def PyDatetime.le (a b : PyDatetime) : Except Exn Bool :=
  if a.aware = b.aware then .ok (a.instant ≤ b.instant) else .error .typeError

def historyReadings (deviceId : Uuid) (interval : Interval) (start stop : Time) :
    Handler HistoryReadings :=
  match interval with
  | .raw => .raw <$> .select (.readings deviceId start stop)
  | .hour => .points <$> .select (.hourly deviceId start stop)
  | .day => .points <$> .select (.daily deviceId start stop)

def getTelemetryHistory (deviceId : Uuid) (interval : Interval) (start stop : Option PyDatetime)
    (user : CurrentUser) : Handler Response := do
  let _ ← DeviceAccess.assertDeviceMember deviceId user.id
  let now ← .utcnow
  let windowStart := start.getD ⟨now - defaultWindow interval, true⟩
  let windowEnd := stop.getD ⟨now, true⟩
  let empty ← .ofExcept (windowEnd.le windowStart)
  .raiseIf empty 400 "`to` must be after `from`."
  .raiseIf (interval = .raw ∧ windowEnd.instant - windowStart.instant > hours 24) 400
    "Raw interval window cannot exceed 24 hours. Use interval=hour for longer ranges."
  let readings ← historyReadings deviceId interval windowStart.instant windowEnd.instant
  pure ⟨200, .history {
    deviceId := deviceId
    interval := interval
    start := windowStart
    stop := windowEnd
    count := readings.count
    readings := readings }, []⟩

/-! ## Firmware -/

def latestFirmwareVersion : String := "2.0.0"

def firmwareObjectKey : String := "firmware/rawbin_v" ++ latestFirmwareVersion ++ ".bin"

/-- A missing, empty or malformed version counts as 0.0.0. -/
def parseVersion : Option String → List Int
  | none => [0, 0, 0]
  | some v =>
    if v = "" then [0, 0, 0]
    else ((splitBy '.' (stripBy (· = 'v') v.toList)).mapM (pyInt E.interpreter 10)).getD [0, 0, 0]

/-- `<` of two tuples. -/
def tupleLt : List Int → List Int → Bool
  | _, [] => false
  | [], _ :: _ => true
  | a :: as, b :: bs => if a = b then tupleLt as bs else a < b

def generatePresignedUrl (objectKey : String) (expiration : Nat) : Handler String :=
  match E.presignedUrl objectKey expiration with
  | some url => pure url
  | none => httpException 500 "Failed to generate secure download link."

def downloadUrl (isUpdateAvailable : Bool) : Handler (Option String) :=
  if isUpdateAvailable then do
    let url ← generatePresignedUrl E firmwareObjectKey E.cfg.otaPresignedUrlExpirySeconds
    pure (some url)
  else pure none

def checkOtaUpdate (deviceId : Uuid) (user : CurrentUser) : Handler Response := do
  let device ← DeviceAccess.assertDeviceMember deviceId user.id
  let currentVersion := device.firmwareVersion
  let isUpdateAvailable :=
    tupleLt (parseVersion E currentVersion) (parseVersion E (some latestFirmwareVersion))
  let downloadUrl ← downloadUrl E isUpdateAvailable
  pure ⟨200, .ota {
    deviceId := deviceId
    currentVersion := currentVersion
    latestVersion := latestFirmwareVersion
    updateAvailable := isUpdateAvailable
    downloadUrl := downloadUrl }, []⟩

end Rawbin
