import Rawbin.Db.Session

/-!
# Alert thresholds

The threshold loader of `app/workers/tasks/telemetry.py`. It runs in a worker, where every
command is inside one of three `try` blocks that catch everything.
-/

namespace Rawbin

/-- The global defaults, used without a row and for the columns that are null. -/
def alertThresholds : Thresholds where
  temperatureCMax := 80
  temperatureCMin := 40
  co2PpmMax := 5000
  humidityPctMin := 40
  humidityPctMax := 80
  phMin := 5
  phMax := 17 / 2

def configCacheTtl : Nat := 300

/-- The row's values where set, the defaults elsewhere. -/
def overrideThresholds (row : DeviceConfig) (t : Thresholds) : Thresholds where
  temperatureCMax := row.temperatureCMax.getD t.temperatureCMax
  temperatureCMin := row.temperatureCMin.getD t.temperatureCMin
  co2PpmMax := row.co2PpmMax.getD t.co2PpmMax
  humidityPctMin := row.humidityPctMin.getD t.humidityPctMin
  humidityPctMax := row.humidityPctMax.getD t.humidityPctMax
  phMin := row.phMin.getD t.phMin
  phMax := row.phMax.getD t.phMax

/-- The effective thresholds of a device, by its row. -/
def effectiveThresholds : Option DeviceConfig → Thresholds
  | none => alertThresholds
  | some row => overrideThresholds row alertThresholds

/-- The second block: read the row in a session of the worker. The dictionary is filled before
the session commits, so it stays filled when the commit fails. -/
def thresholdsFromDb (deviceId : Uuid) : Prog Cmd Exn Thresholds :=
  .cmd (.attempt (.select (.deviceConfig deviceId))) fun
    | .error _ => .cmd (.attempt .rollback) fun _ => .pure alertThresholds
    | .ok row => .cmd (.attempt .commit) fun
      | .ok _ => .pure (effectiveThresholds row)
      | .error _ => .cmd (.attempt .rollback) fun _ => .pure (effectiveThresholds row)

/-- The cache, else the database, else the defaults; what was not cached is cached. -/
def loadThresholds (deviceId : Uuid) : Prog Cmd Exn Thresholds :=
  .cmd (.attempt (.redis (.get (.alertConfig deviceId)))) fun
    | .ok (some cached) => .pure cached
    | _ => do
      let thresholds ← thresholdsFromDb deviceId
      let _ ← .perform (.attempt
        (.redis (.setex (.alertConfig deviceId) configCacheTtl thresholds)))
      pure thresholds

end Rawbin
