import Rawbin.Workers.AlertCheck

/-!
# Thresholds by their names

The places of the source that resolve the thresholds of a device name them by strings:
`ALERT_THRESHOLDS` and the loop of `_load_thresholds` in `app/workers/tasks/telemetry.py`, and one
`_resolve` in each of the two routes of `app/api/v1/devices.py`. A lookup that raises is `none`.
-/

namespace Rawbin

/-- A `dict[str, float]`, in insertion order. -/
abbrev Dict := List (String × ℚ)

namespace Dict

/-- `d[key]` -/
def get? (d : Dict) (key : String) : Option ℚ := d.lookup key

/-- `d[key] = value` -/
def set : Dict → String → ℚ → Dict
  | [], key, value => [(key, value)]
  | (k, v) :: d, key, value => if k = key then (k, value) :: d else (k, v) :: set d key value

end Dict

def Thresholds.dict (t : Thresholds) : Dict :=
  [("temperature_c_max", t.temperatureCMax), ("temperature_c_min", t.temperatureCMin),
    ("co2_ppm_max", t.co2PpmMax), ("humidity_pct_min", t.humidityPctMin),
    ("humidity_pct_max", t.humidityPctMax), ("ph_min", t.phMin), ("ph_max", t.phMax)]

/-- The entries that `_evaluate` reads. -/
def Dict.thresholds? (d : Dict) : Option Thresholds := do
  let temperatureCMax ← d.get? "temperature_c_max"
  let temperatureCMin ← d.get? "temperature_c_min"
  let co2PpmMax ← d.get? "co2_ppm_max"
  let humidityPctMin ← d.get? "humidity_pct_min"
  let humidityPctMax ← d.get? "humidity_pct_max"
  let phMin ← d.get? "ph_min"
  let phMax ← d.get? "ph_max"
  pure ⟨temperatureCMax, temperatureCMin, co2PpmMax, humidityPctMin, humidityPctMax, phMin, phMax⟩

def evaluateDict (d : Dict) (a : AlertCheck) : Option (List Alert) :=
  d.thresholds?.map fun t => evaluate t a

/-! ## The worker -/

def alertThresholdsDict : Dict :=
  [("temperature_c_max", 80), ("temperature_c_min", 40), ("co2_ppm_max", 5000),
    ("humidity_pct_min", 40), ("humidity_pct_max", 80), ("ph_min", 5), ("ph_max", 17 / 2)]

def overrides (result : DeviceConfig) : List (String × Option ℚ) :=
  [("temperature_c_max", result.temperatureCMax), ("temperature_c_min", result.temperatureCMin),
    ("co2_ppm_max", result.co2PpmMax), ("humidity_pct_min", result.humidityPctMin),
    ("humidity_pct_max", result.humidityPctMax), ("ph_min", result.phMin), ("ph_max", result.phMax)]

/-- `for key, val in overrides.items(): if val is not None: thresholds[key] = val` -/
def overrideLoop (items : List (String × Option ℚ)) (thresholds : Dict) : Dict :=
  items.foldl (fun d item => item.2.elim d (d.set item.1)) thresholds

/-- What the loader has after its second block. -/
def loadedDict (result : Option DeviceConfig) : Dict :=
  result.elim alertThresholdsDict fun result => overrideLoop (overrides result) alertThresholdsDict

/-- `json.dumps` and `json.loads` on such dictionaries. -/
structure JsonCodec where
  dumps : Dict → String
  loads : String → Option Dict

/-- What comes back is what was written, and the text is not empty. -/
structure JsonCodec.RoundTrips (codec : JsonCodec) (d : Dict) : Prop where
  loads_dumps : codec.loads (codec.dumps d) = some d
  ne : codec.dumps d ≠ ""

/-- `if cached: return json.loads(cached)` -/
def JsonCodec.cached (codec : JsonCodec) (text : String) : Option Dict :=
  if text = "" then none else codec.loads text

/-! ## The routes -/

/-- `getattr(cfg, attr)` -/
def getattr (cfg : DeviceConfig) : String → Option (Option ℚ)
  | "temperature_c_max" => some cfg.temperatureCMax
  | "temperature_c_min" => some cfg.temperatureCMin
  | "co2_ppm_max" => some cfg.co2PpmMax
  | "humidity_pct_min" => some cfg.humidityPctMin
  | "humidity_pct_max" => some cfg.humidityPctMax
  | "ph_min" => some cfg.phMin
  | "ph_max" => some cfg.phMax
  | _ => none

/-- `_resolve` of `put_device_config`. -/
def putResolve (cfg : DeviceConfig) (attr defaultKey : String) : Option ℚ := do
  let v ← getattr cfg attr
  match v with
  | some v => pure v
  | none => alertThresholdsDict.get? defaultKey

/-- `_resolve` of `get_device_config`. -/
def getResolve (cfg : Option DeviceConfig) (attr defaultKey : String) : Option ℚ :=
  match cfg with
  | none => alertThresholdsDict.get? defaultKey
  | some cfg => do
    let v ← getattr cfg attr
    match v with
    | some v => pure v
    | none => alertThresholdsDict.get? defaultKey

/-- The thresholds of the response of `get_device_config`. -/
def getConfigOut (cfg : Option DeviceConfig) : Option Thresholds := do
  let temperatureCMax ← getResolve cfg "temperature_c_max" "temperature_c_max"
  let temperatureCMin ← getResolve cfg "temperature_c_min" "temperature_c_min"
  let co2PpmMax ← getResolve cfg "co2_ppm_max" "co2_ppm_max"
  let humidityPctMin ← getResolve cfg "humidity_pct_min" "humidity_pct_min"
  let humidityPctMax ← getResolve cfg "humidity_pct_max" "humidity_pct_max"
  let phMin ← getResolve cfg "ph_min" "ph_min"
  let phMax ← getResolve cfg "ph_max" "ph_max"
  pure { temperatureCMax, temperatureCMin, co2PpmMax, humidityPctMin, humidityPctMax, phMin, phMax }

/-- The thresholds of the response of `put_device_config`. -/
def putConfigOut (cfg : DeviceConfig) : Option Thresholds := do
  let temperatureCMax ← putResolve cfg "temperature_c_max" "temperature_c_max"
  let temperatureCMin ← putResolve cfg "temperature_c_min" "temperature_c_min"
  let co2PpmMax ← putResolve cfg "co2_ppm_max" "co2_ppm_max"
  let humidityPctMin ← putResolve cfg "humidity_pct_min" "humidity_pct_min"
  let humidityPctMax ← putResolve cfg "humidity_pct_max" "humidity_pct_max"
  let phMin ← putResolve cfg "ph_min" "ph_min"
  let phMax ← putResolve cfg "ph_max" "ph_max"
  pure { temperatureCMax, temperatureCMin, co2PpmMax, humidityPctMin, humidityPctMax, phMin, phMax }

end Rawbin
