import Rawbin.Verify.HistoryWindow

/-!
# The tiers of a history

The hourly view groups the readings of a device by the hour, the daily rollup groups its rows by
the day. A window selects hours by where they start, so both tiers aggregate whole hours.
-/

namespace Rawbin

/-! ## Buckets -/

theorem timeBucket_le {width : Int} (h : 0 < width) (t : Time) : timeBucket width t ≤ t := by
  rw [timeBucket]
  exact Int.ediv_mul_le t h.ne'

theorem lt_timeBucket_add {width : Int} (h : 0 < width) (t : Time) :
    t < timeBucket width t + width := by
  have hlt := Int.lt_ediv_add_one_mul_self t h
  rwa [add_mul, one_mul] at hlt

/-- The day of an instant is the day of its hour. -/
theorem timeBucket_hour (t : Time) :
    timeBucket (days 1) (timeBucket (hours 1) t) = timeBucket (days 1) t := by
  have hdays : days 1 = hours 1 * 24 := rfl
  rw [timeBucket, timeBucket, timeBucket, hdays, ← Int.ediv_ediv_of_nonneg (by decide),
    ← Int.ediv_ediv_of_nonneg (by decide), Int.mul_ediv_cancel _ (by decide)]

def hourOf (r : Time × SensorReading) : Time := timeBucket (hours 1) r.1

def dayOf (r : Time × SensorReading) : Time := timeBucket (days 1) r.1

/-- The readings of the hours that start in the window. -/
def inWindow (start stop : Time) (rows : List (Time × SensorReading)) :
    List (Time × SensorReading) :=
  rows.filter fun r => start ≤ hourOf r && hourOf r ≤ stop

/-! ## Metrics -/

/-- The metrics that the tiers average. -/
inductive Metric where
  | temperatureC | humidityPct | co2Ppm | phLevel | fanSpeedRpm

namespace Metric

/-- The value of a reading. -/
def raw : Metric → Time × SensorReading → Option ℚ
  | .temperatureC, r => r.2.temperatureC
  | .humidityPct, r => r.2.humidityPct
  | .co2Ppm, r => r.2.co2Ppm
  | .phLevel, r => r.2.phLevel
  | .fanSpeedRpm, r => r.2.fanSpeedRpm.map fun (n : Int) => (n : ℚ)

/-- The average of a point. -/
def average : Metric → HistoryRow → Option ℚ
  | .temperatureC => (·.avgTemperatureC)
  | .humidityPct => (·.avgHumidityPct)
  | .co2Ppm => (·.avgCo2Ppm)
  | .phLevel => (·.avgPhLevel)
  | .fanSpeedRpm => (·.avgFanSpeedRpm)

end Metric

section
variable {rows : List (Time × SensorReading)} {b : Time}

theorem sqlAvg_map {α : Type} (f : α → Option ℚ) (l : List α) :
    sqlAvg (l.map f) = Groups.mean? (l.filterMap f) := by
  rw [sqlAvg, List.filterMap_map]
  show (if (l.filterMap f).isEmpty then none else _) = _
  rw [Groups.mean?]
  exact if_congr List.isEmpty_iff rfl rfl

theorem sqlMin_map {α : Type} (f : α → Option ℚ) (l : List α) :
    sqlMin (l.map f) = (l.filterMap f).min? := by
  rw [sqlMin, List.filterMap_map]
  rfl

theorem sqlMax_map {α : Type} (f : α → Option ℚ) (l : List α) :
    sqlMax (l.map f) = (l.filterMap f).max? := by
  rw [sqlMax, List.filterMap_map]
  rfl

/-! ## The hourly view -/

theorem hourlyView_eq : hourlyView rows = (Groups.keys hourOf rows).map (hourlyRow rows) := rfl

theorem hourlyView_buckets : (hourlyView rows).map (·.bucket) = Groups.keys hourOf rows := by
  rw [hourlyView_eq, List.map_map]
  exact List.map_id _

theorem hourlyRow_average (m : Metric) :
    m.average (hourlyRow rows b) = Groups.mean? (Groups.values hourOf m.raw rows b) := by
  rw [Groups.values, ← sqlAvg_map]
  cases m <;> simp only [Metric.average, hourlyRow, List.map_map] <;> rfl

theorem hourlyRow_min : (hourlyRow rows b).minTemperatureC =
    (Groups.values hourOf Metric.temperatureC.raw rows b).min? := by
  rw [Groups.values, ← sqlMin_map]
  simp only [hourlyRow, List.map_map]
  rfl

theorem hourlyRow_max : (hourlyRow rows b).maxTemperatureC =
    (Groups.values hourOf Metric.temperatureC.raw rows b).max? := by
  rw [Groups.values, ← sqlMax_map]
  simp only [hourlyRow, List.map_map]
  rfl

/-- A row says the same of all readings of its hour, among whichever others. -/
theorem hourlyRow_filter {p : Time → Bool} (h : p b = true) :
    hourlyRow (rows.filter fun r => p (hourOf r)) b = hourlyRow rows b := by
  have hgroup :
      Groups.group hourOf (rows.filter fun r => p (hourOf r)) b = Groups.group hourOf rows b :=
    Groups.group_filter h
  rw [Groups.group, Groups.group] at hgroup
  simp only [hourlyRow]
  rw [show (fun r : Time × SensorReading => decide (timeBucket (hours 1) r.1 = b)) =
    fun r => decide (hourOf r = b) from rfl, hgroup]

/-- Some hours of the view are the view of their readings. -/
theorem hourlyView_filter (p : Time → Bool) :
    (hourlyView rows).filter (fun r => p r.bucket) =
      hourlyView (rows.filter fun r => p (hourOf r)) := by
  rw [hourlyView_eq, hourlyView_eq, Groups.keys_filter, List.filter_map]
  refine List.map_congr_left fun b hb => (hourlyRow_filter ?_).symm
  exact (List.mem_filter.mp hb).2

theorem Db.hourlyBetween_eq (db : Db) (d : Uuid) (start stop : Time) :
    db.hourlyBetween d start stop = hourlyView (inWindow start stop (db.timedReadings d)) :=
  hourlyView_filter fun b => start ≤ b && b ≤ stop

/-! ## The daily rollup -/

theorem dailyRollup_buckets :
    (dailyRollup (hourlyView rows)).map (·.bucket) = Groups.keys dayOf rows := by
  have hkeys : (dailyRollup (hourlyView rows)).map (·.bucket) =
      Groups.keys (timeBucket (days 1)) ((hourlyView rows).map (·.bucket)) := by
    rw [dailyRollup, List.map_map, Groups.keys, List.map_map]
    exact List.map_id _
  rw [hkeys, hourlyView_buckets, Groups.keys_keys]
  simp only [hourOf, timeBucket_hour]
  rfl

/-- A day is rolled up from the hours of its readings. -/
theorem dailyRow_eq (rows : List (Time × SensorReading)) (b : Time) :
    (hourlyView rows).filter (fun r => timeBucket (days 1) r.bucket = b) =
      hourlyView (Groups.group dayOf rows b) := by
  rw [hourlyView_filter fun h => timeBucket (days 1) h = b, Groups.group]
  simp only [hourOf, timeBucket_hour]
  rfl

theorem dailyRow_average (m : Metric) :
    m.average (dailyRow (hourlyView rows) b) =
      let day := Groups.group dayOf rows b
      Groups.mean? ((Groups.keys hourOf day).filterMap fun k =>
        Groups.mean? (Groups.values hourOf m.raw day k)) := by
  have h : m.average (dailyRow (hourlyView rows) b) =
      sqlAvg ((hourlyView (Groups.group dayOf rows b)).map m.average) := by
    rw [← dailyRow_eq]
    cases m <;> rfl
  rw [h, sqlAvg_map, hourlyView_eq, List.filterMap_map]
  simp only [Function.comp_def, hourlyRow_average]

theorem dailyRow_min : (dailyRow (hourlyView rows) b).minTemperatureC =
    ((Groups.group dayOf rows b).filterMap Metric.temperatureC.raw).min? := by
  rw [dailyRow, dailyRow_eq, sqlMin_map, hourlyView_eq, List.filterMap_map]
  simp only [Function.comp_def, hourlyRow_min, Groups.min?_groups]

theorem dailyRow_max : (dailyRow (hourlyView rows) b).maxTemperatureC =
    ((Groups.group dayOf rows b).filterMap Metric.temperatureC.raw).max? := by
  rw [dailyRow, dailyRow_eq, sqlMax_map, hourlyView_eq, List.filterMap_map]
  simp only [Function.comp_def, hourlyRow_max, Groups.max?_groups]

/-! ## What a point says of its readings -/

/-- The extremes are those of the readings, and the averages lie between the extremes. -/
structure Summarises (rows : List (Time × SensorReading)) (p : HistoryRow) : Prop where
  min : p.minTemperatureC = sqlMin (rows.map Metric.temperatureC.raw)
  max : p.maxTemperatureC = sqlMax (rows.map Metric.temperatureC.raw)
  null : ∀ m : Metric, m.average p = none ↔ ∀ r ∈ rows, m.raw r = none
  le_average : ∀ (m : Metric) lo a, (∀ x ∈ rows.filterMap m.raw, lo ≤ x) → m.average p = some a →
    lo ≤ a
  average_le : ∀ (m : Metric) hi a, (∀ x ∈ rows.filterMap m.raw, x ≤ hi) → m.average p = some a →
    a ≤ hi

theorem hourlyRow_summarises (rows : List (Time × SensorReading)) (b : Time) :
    Summarises (Groups.group hourOf rows b) (hourlyRow rows b) where
  min := by rw [hourlyRow_min, sqlMin_map, Groups.values]
  max := by rw [hourlyRow_max, sqlMax_map, Groups.values]
  null m := by
    rw [hourlyRow_average, Groups.mean?_eq_none, Groups.values, List.filterMap_eq_nil_iff]
  le_average m lo a hlo ha := by
    rw [hourlyRow_average] at ha
    obtain ⟨hne, rfl⟩ := Groups.mean?_eq_some.mp ha
    exact Groups.le_mean hne hlo
  average_le m hi a hhi ha := by
    rw [hourlyRow_average] at ha
    obtain ⟨hne, rfl⟩ := Groups.mean?_eq_some.mp ha
    exact Groups.mean_le hne hhi

theorem dailyRow_summarises (rows : List (Time × SensorReading)) (b : Time) :
    Summarises (Groups.group dayOf rows b) (dailyRow (hourlyView rows) b) where
  min := by rw [dailyRow_min, sqlMin_map]
  max := by rw [dailyRow_max, sqlMax_map]
  null m := by
    rw [dailyRow_average, Groups.mean?_eq_none, Groups.means_eq_nil, List.filterMap_eq_nil_iff]
  le_average m lo a hlo ha := by
    rw [dailyRow_average] at ha
    exact Groups.le_mean?_groups hlo ha
  average_le m hi a hhi ha := by
    rw [dailyRow_average] at ha
    exact Groups.mean?_groups_le hhi ha

namespace Summarises

variable {p : HistoryRow}

/-- The average of a metric lies between its least and its greatest value. -/
theorem between (h : Summarises rows p) {m : Metric} {a : ℚ} (ha : m.average p = some a) :
    ∃ lo hi, sqlMin (rows.map m.raw) = some lo ∧ sqlMax (rows.map m.raw) = some hi ∧
      lo ≤ a ∧ a ≤ hi := by
  have hne : rows.filterMap m.raw ≠ [] := fun hnil => by
    cases ha.symm.trans ((h.null m).mpr (List.filterMap_eq_nil_iff.mp hnil))
  obtain ⟨x, hx⟩ := List.exists_mem_of_ne_nil _ hne
  obtain ⟨lo, hlo⟩ := Option.isSome_iff_exists.mp (List.isSome_min?_of_mem hx)
  obtain ⟨hi, hhi⟩ := Option.isSome_iff_exists.mp (List.isSome_max?_of_mem hx)
  refine ⟨lo, hi, (sqlMin_map _ _).trans hlo, (sqlMax_map _ _).trans hhi, ?_, ?_⟩
  · exact h.le_average m lo a (List.min?_eq_some_iff.mp hlo).2 ha
  · exact h.average_le m hi a (List.max?_eq_some_iff.mp hhi).2 ha

/-- The three temperatures are in order, or all missing. -/
theorem temperatures (h : Summarises rows p) :
    (p.minTemperatureC = none ∧ p.avgTemperatureC = none ∧ p.maxTemperatureC = none) ∨
      ∃ lo a hi, p.minTemperatureC = some lo ∧ p.avgTemperatureC = some a ∧
        p.maxTemperatureC = some hi ∧ lo ≤ a ∧ a ≤ hi := by
  cases ha : p.avgTemperatureC with
  | none =>
    have hnil : rows.filterMap Metric.temperatureC.raw = [] :=
      List.filterMap_eq_nil_iff.mpr ((h.null .temperatureC).mp ha)
    refine .inl ⟨?_, rfl, ?_⟩
    · rw [h.min, sqlMin_map, hnil]
      rfl
    · rw [h.max, sqlMax_map, hnil]
      rfl
  | some a =>
    obtain ⟨lo, hi, hlo, hhi, hle, hle'⟩ := h.between (m := .temperatureC) ha
    exact .inr ⟨lo, a, hi, h.min.trans hlo, rfl, h.max.trans hhi, hle, hle'⟩

end Summarises

end

/-! ## The responses -/

/-- The bucket of a reading. -/
def Interval.bucketOf : Interval → Time × SensorReading → Time
  | .day => dayOf
  | _ => hourOf

/-- The readings that are aggregated into the point of a bucket. -/
def Db.aggregated (db : Db) (d : Uuid) (interval : Interval) (start stop b : Time) :
    List (Time × SensorReading) :=
  Groups.group interval.bucketOf (inWindow start stop (db.timedReadings d)) b

section
variable {E : Env} {w : World} {credentials : String} {d : Uuid} {interval : Interval}
variable {start stop : Option PyDatetime} {draws : Draws} {h : TelemetryHistoryResponse}

theorem history_readings (hbody : (serve E
      (.user credentials (.getTelemetryHistory d interval start stop) draws) w).1.body =
        .history h) :
    h.readings = w.db.history d interval h.start.instant h.stop.instant := by
  have houtcome : HistoryOutcome E credentials d interval start stop w (serve E
      (.user credentials (.getTelemetryHistory d interval start stop) draws) w).1 := history_outcome
  rcases houtcome with hanswer | ⟨⟨_, htext⟩, _⟩
  · rw [hanswer, historyAnswer] at hbody
    split at hbody
    · rename_i e _
      cases e <;> cases hbody
    · cases hbody
    · split at hbody
      · cases hbody
      · cases hbody
        rfl
  · cases hbody.symm.trans htext

/-- The points are the view of the hours that start in the window, or its rollup. -/
theorem history_points (hbody : (serve E
      (.user credentials (.getTelemetryHistory d interval start stop) draws) w).1.body = .history h)
    (hrows : h.readings = .points rows) :
    let hours := hourlyView (inWindow h.start.instant h.stop.instant (w.db.timedReadings d))
    interval = .hour ∧ rows = hours ∨ interval = .day ∧ rows = dailyRollup hours := by
  have hreadings := hrows.symm.trans (history_readings hbody)
  cases interval with
  | raw => cases hreadings
  | hour =>
    rw [Db.history, Db.hourlyBetween_eq] at hreadings
    cases hreadings
    exact .inl ⟨rfl, rfl⟩
  | day =>
    rw [Db.history, Db.hourlyBetween_eq] at hreadings
    cases hreadings
    exact .inr ⟨rfl, rfl⟩

/-- **Points are in order.** Their buckets increase, and each average lies between the least and
the greatest value that is aggregated into it. -/
theorem points_ordered (hbody : (serve E
      (.user credentials (.getTelemetryHistory d interval start stop) draws) w).1.body = .history h)
    (hrows : h.readings = .points rows) :
    (rows.map (·.bucket)).Pairwise (· < ·) ∧ ∀ p ∈ rows,
      ((p.minTemperatureC = none ∧ p.avgTemperatureC = none ∧ p.maxTemperatureC = none) ∨
        ∃ lo a hi, p.minTemperatureC = some lo ∧ p.avgTemperatureC = some a ∧
          p.maxTemperatureC = some hi ∧ lo ≤ a ∧ a ≤ hi) ∧
      ∀ (m : Metric) (a : ℚ), m.average p = some a →
        let raw := (w.db.aggregated d interval h.start.instant h.stop.instant p.bucket).map m.raw
        ∃ lo hi, sqlMin raw = some lo ∧ sqlMax raw = some hi ∧ lo ≤ a ∧ a ≤ hi := by
  have hpoint {p : HistoryRow} (hp : Summarises
      (w.db.aggregated d interval h.start.instant h.stop.instant p.bucket) p) :=
    And.intro hp.temperatures fun (m : Metric) (a : ℚ) (ha : m.average p = some a) => hp.between ha
  obtain ⟨rfl, rfl⟩ | ⟨rfl, rfl⟩ := history_points hbody hrows
  · rw [hourlyView_buckets]
    refine ⟨Groups.keys_sorted .., fun p hp => hpoint ?_⟩
    obtain ⟨b, _, rfl⟩ := List.mem_map.mp hp
    exact hourlyRow_summarises ..
  · rw [dailyRollup_buckets]
    refine ⟨Groups.keys_sorted .., fun p hp => hpoint ?_⟩
    obtain ⟨b, _, rfl⟩ := List.mem_map.mp hp
    exact dailyRow_summarises ..

/-- All readings of the day are of hours that start in the window. -/
def Db.DayCovered (db : Db) (d : Uuid) (start stop b : Time) : Prop :=
  ∀ r ∈ db.timedReadings d, dayOf r = b → start ≤ hourOf r ∧ hourOf r ≤ stop

/-- What the daily rollup says of the readings of a day: the extremes are theirs, and the average of
a metric is the mean of the means of the hours, which is the mean of the day when the hours that
have values have equally many. -/
structure RolledUp (day : List (Time × SensorReading)) (p : HistoryRow) : Prop where
  min : p.minTemperatureC = sqlMin (day.map Metric.temperatureC.raw)
  max : p.maxTemperatureC = sqlMax (day.map Metric.temperatureC.raw)
  null : ∀ m : Metric, m.average p = none ↔ ∀ r ∈ day, m.raw r = none
  average : ∀ m : Metric, m.average p = sqlAvg ((Groups.keys hourOf day).map fun k =>
    sqlAvg ((Groups.group hourOf day k).map m.raw))
  balanced : ∀ (m : Metric) (n : ℕ), (∀ k ∈ Groups.keys hourOf day,
    let values := (Groups.group hourOf day k).filterMap m.raw
    values ≠ [] → values.length = n) → m.average p = sqlAvg (day.map m.raw)

theorem dailyRow_rolledUp (rows : List (Time × SensorReading)) (b : Time) :
    RolledUp (Groups.group dayOf rows b) (dailyRow (hourlyView rows) b) where
  min := (dailyRow_summarises rows b).min
  max := (dailyRow_summarises rows b).max
  null := (dailyRow_summarises rows b).null
  average m := by
    rw [dailyRow_average, sqlAvg_map]
    simp only [sqlAvg_map, Groups.values]
  balanced m n hn := by
    rw [dailyRow_average, sqlAvg_map]
    exact Groups.mean?_groups hn

/-- **Days are rolled up.** A day whose hours all lie in the window has a point if it has readings,
and the point says of them what `RolledUp` says. -/
theorem day_points (hbody : (serve E
      (.user credentials (.getTelemetryHistory d .day start stop) draws) w).1.body = .history h) :
    ∃ rows, h.readings = .points rows ∧
      ∀ b, w.db.DayCovered d h.start.instant h.stop.instant b →
        (∀ p ∈ rows, p.bucket = b → RolledUp (Groups.group dayOf (w.db.timedReadings d) b) p) ∧
        (b ∈ Groups.keys dayOf (w.db.timedReadings d) → ∃ p ∈ rows, p.bucket = b) := by
  have hreadings := history_readings hbody
  rw [Db.history, Db.hourlyBetween_eq] at hreadings
  refine ⟨_, hreadings, fun b hcovered => ?_⟩
  have hday : Groups.group dayOf (inWindow h.start.instant h.stop.instant
      (w.db.timedReadings d)) b =
      Groups.group dayOf (w.db.timedReadings d) b := by
    rw [Groups.group, inWindow, List.filter_filter, Groups.group]
    refine List.filter_congr fun r hr => ?_
    by_cases hb : dayOf r = b
    · simp [hb, hcovered r hr hb]
    · simp [hb]
  constructor
  · intro p hp hb
    obtain ⟨b', _, rfl⟩ := List.mem_map.mp hp
    obtain rfl : b' = b := hb
    rw [← hday]
    exact dailyRow_rolledUp ..
  · intro hb
    obtain ⟨r, hr, rfl⟩ := Groups.mem_keys.mp hb
    have hmem : dayOf r ∈ Groups.keys dayOf
        (inWindow h.start.instant h.stop.instant (w.db.timedReadings d)) := by
      refine Groups.mem_keys.mpr ⟨r, List.mem_filter.mpr ⟨hr, ?_⟩, rfl⟩
      simpa using hcovered r hr rfl
    rw [← dailyRollup_buckets] at hmem
    exact List.mem_map.mp hmem

theorem mem_inWindow {r : Time × SensorReading} {rows : List (Time × SensorReading)}
    {start stop : Time} : r ∈ inWindow start stop rows ↔
      r ∈ rows ∧ start ≤ hourOf r ∧ hourOf r ≤ stop := by
  rw [inWindow, List.mem_filter, Bool.and_eq_true_iff, decide_eq_true_iff, decide_eq_true_iff]

/-- Where an instant is that a window `[a, b]` and the window of the hours tell apart. -/
theorem inside_iff {a b t hour width : ℤ} (hle : hour ≤ t) (hlt : t < hour + width) :
    ((a ≤ t ∧ t ≤ b) ∧ ¬ (a ≤ hour ∧ hour ≤ b) ↔ (a ≤ t ∧ t ≤ b) ∧ hour < a) ∧
    (¬ (a ≤ t ∧ t ≤ b) ∧ (a ≤ hour ∧ hour ≤ b) ↔ a ≤ hour ∧ hour ≤ b ∧ b < t) ∧
    ((a ≤ t ∧ t ≤ b) ∧ ¬ (a ≤ hour ∧ hour ≤ b) → t < a + width) ∧
    (¬ (a ≤ t ∧ t ≤ b) ∧ (a ≤ hour ∧ hour ≤ b) → t < b + width) := by
  refine ⟨?_, ?_, ?_, ?_⟩
  · constructor <;> intro h <;> omega
  · constructor <;> intro h <;> omega
  · intro h
    omega
  · intro h
    omega

/-- **Tiers aggregate whole hours.** The readings of a response are those of the hours that start in
the window. One inside the window is left out if its hour started before the window, one after the
window is included if its hour started in it; either is less than an hour from the bound. -/
theorem history_hours (hinterval : interval ≠ .raw) (hbody : (serve E
      (.user credentials (.getTelemetryHistory d interval start stop) draws) w).1.body =
        .history h) :
    let rows := w.db.timedReadings d
    let aggregated := inWindow h.start.instant h.stop.instant rows
    let inside (r : Time × SensorReading) := h.start.instant ≤ r.1 ∧ r.1 ≤ h.stop.instant
    h.readings = .points (if interval = .day then dailyRollup (hourlyView aggregated)
      else hourlyView aggregated) ∧
    ∀ r ∈ rows,
      (inside r ∧ r ∉ aggregated ↔ inside r ∧ hourOf r < h.start.instant) ∧
      (¬ inside r ∧ r ∈ aggregated ↔
        h.start.instant ≤ hourOf r ∧ hourOf r ≤ h.stop.instant ∧ h.stop.instant < r.1) ∧
      (inside r ∧ r ∉ aggregated → r.1 < h.start.instant + hours 1) ∧
      (¬ inside r ∧ r ∈ aggregated → r.1 < h.stop.instant + hours 1) := by
  intro rows aggregated inside
  have hreadings := history_readings hbody
  constructor
  · cases interval with
    | raw => exact absurd rfl hinterval
    | hour =>
      rw [hreadings, Db.history, Db.hourlyBetween_eq]
      rfl
    | day =>
      rw [hreadings, Db.history, Db.hourlyBetween_eq]
      rfl
  · intro r hr
    have hmem : r ∈ aggregated ↔ r ∈ rows ∧ h.start.instant ≤ hourOf r ∧
        hourOf r ≤ h.stop.instant := mem_inWindow
    have hle : hourOf r ≤ r.1 := timeBucket_le (by decide) r.1
    have hlt : r.1 < hourOf r + hours 1 := lt_timeBucket_add (by decide) r.1
    simp only [hmem, hr, true_and, inside]
    exact inside_iff hle hlt

end

/-! ## Readings of device 7 -/

namespace Sample

/-- Device 7 has reported these temperatures. -/
def measured (temperatures : List (Time × ℚ)) : World :=
  { deviceWorld with
    db := { deviceWorld.db with
      sensorReadings := Table.empty.insertAll <| temperatures.map fun r =>
        ((r.1, 7), ⟨some r.2, none, none, none, none, none, none, none, none⟩) } }

/-- The response to Alice for a window. -/
def historyOf (w : World) (interval : Interval) (start stop : Time) : TelemetryHistoryResponse :=
  let readings := w.db.history 7 interval start stop
  ⟨7, interval, ⟨start, true⟩, ⟨stop, true⟩, readings.count, readings⟩

theorem history_body (temperatures : List (Time × ℚ)) {interval : Interval} {start stop : Time}
    (hinterval : interval ≠ .raw) (hlt : start < stop) :
    (serve env (history interval (some ⟨start, true⟩) (some ⟨stop, true⟩))
      (measured temperatures)).1.body =
      .history (historyOf (measured temperatures) interval start stop) := by
  have houtcome : HistoryOutcome env (jwtEncode ⟨1, .access, 0, 0, 0⟩) 7 interval
      (some ⟨start, true⟩) (some ⟨stop, true⟩) (measured temperatures) (serve env
        (history interval (some ⟨start, true⟩) (some ⟨stop, true⟩)) (measured temperatures)).1 :=
    history_outcome
  have hanswer := houtcome.resolve_right fun h =>
    h.2 1 (user "alice@rawbin.io") ⟨"uid", "f", "bin", false, none, 0⟩
      ⟨⟨1, .access, 1, 0, 0⟩, rfl, rfl, rfl, rfl, rfl⟩ ⟨rfl, rfl⟩
  rw [hanswer]
  show (historyAnswer _ 7 interval ⟨start, true⟩ ⟨stop, true⟩).body = _
  have haware : (PyDatetime.mk start true).aware = (PyDatetime.mk stop true).aware := rfl
  rw [historyAnswer_of_aware haware, if_neg (not_le.mpr hlt), if_neg fun h => hinterval h.1]
  rfl

end Sample

/-- The point of the first hour is in order. -/
theorem oneHour_points_ordered :
    let w := Sample.measured [(0, 10), (minutes 30, 20)]
    let rows := w.db.hourlyBetween 7 0 (hours 1)
    (rows.map (·.bucket)).Pairwise (· < ·) ∧ ∀ p ∈ rows,
      ((p.minTemperatureC = none ∧ p.avgTemperatureC = none ∧ p.maxTemperatureC = none) ∨
        ∃ lo a hi, p.minTemperatureC = some lo ∧ p.avgTemperatureC = some a ∧
          p.maxTemperatureC = some hi ∧ lo ≤ a ∧ a ≤ hi) ∧
      ∀ (m : Metric) (a : ℚ), m.average p = some a →
        let raw := (w.db.aggregated 7 .hour 0 (hours 1) p.bucket).map m.raw
        ∃ lo hi, sqlMin raw = some lo ∧ sqlMax raw = some hi ∧ lo ≤ a ∧ a ≤ hi :=
  points_ordered (Sample.history_body [(0, 10), (minutes 30, 20)]
    (show Interval.hour ≠ .raw by decide) (by decide)) rfl

/-- Two readings of one hour make a day. -/
theorem oneHour_rolledUp :
    let w := Sample.measured [(0, 10), (minutes 30, 20)]
    ∃ rows, w.db.history 7 .day 0 (days 1) = .points rows ∧
      ∀ b, w.db.DayCovered 7 0 (days 1) b →
        (∀ p ∈ rows, p.bucket = b → RolledUp (Groups.group dayOf (w.db.timedReadings 7) b) p) ∧
        (b ∈ Groups.keys dayOf (w.db.timedReadings 7) → ∃ p ∈ rows, p.bucket = b) :=
  day_points (Sample.history_body [(0, 10), (minutes 30, 20)] nofun (by decide))

/-- Two readings of one hour and one of the next: the mean of the day is 30. -/
theorem unevenHours_not_mean : ¬ ∀ (E : Env) (w : World) (credentials : String) (d : Uuid)
    (start stop : Option PyDatetime) (draws : Draws) (h : TelemetryHistoryResponse)
    (rows : List HistoryRow),
    (serve E (.user credentials (.getTelemetryHistory d .day start stop) draws) w).1.body =
      .history h → h.readings = .points rows →
    ∀ p ∈ rows, w.db.DayCovered d h.start.instant h.stop.instant p.bucket →
      ∀ m : Metric, m.average p =
        sqlAvg ((Groups.group dayOf (w.db.timedReadings d) p.bucket).map m.raw) := by
  intro hevery
  let w := Sample.measured [(0, 10), (minutes 30, 20), (hours 1, 60)]
  have h := hevery _ w _ _ _ _ _ _ (dailyRollup (w.db.hourlyBetween 7 0 (days 1)))
    (Sample.history_body _ nofun (by decide)) rfl
  have hrow : (dailyRollup (w.db.hourlyBetween 7 0 (days 1))).any (fun p =>
      p.bucket = 0 && p.avgTemperatureC = some (75 / 2)) = true := by decide +kernel
  obtain ⟨p, hp, hrow⟩ := List.any_eq_true.mp hrow
  obtain ⟨hbucket, haverage⟩ : p.bucket = 0 ∧ p.avgTemperatureC = some (75 / 2) := by
    simpa using hrow
  have hcovered : w.db.DayCovered 7 0 (days 1) 0 := by
    rw [Db.DayCovered]
    decide +kernel
  have hmean : sqlAvg ((Groups.group dayOf (w.db.timedReadings 7) 0).map
      Metric.temperatureC.raw) = some 30 := by decide +kernel
  have h := h p hp (hbucket ▸ hcovered) .temperatureC
  rw [hbucket, hmean] at h
  exact absurd (haverage.symm.trans h) (by decide +kernel)

/-- The response aggregates the readings in the window and no others. -/
def ExactlyInside (w : World) (d : Uuid) (h : TelemetryHistoryResponse) : Prop :=
  h.readings = .points (hourlyView ((w.db.timedReadings d).filter fun r =>
    h.start.instant ≤ r.1 && r.1 ≤ h.stop.instant))

/-- Whole hours of a window. -/
theorem oneHour_history_hours :
    let w := Sample.measured [(minutes 30, 50)]
    let h := Sample.historyOf w .hour 0 (minutes 45)
    let rows := w.db.timedReadings 7
    let aggregated := inWindow 0 (minutes 45) rows
    let inside (r : Time × SensorReading) := 0 ≤ r.1 ∧ r.1 ≤ minutes 45
    h.readings = .points (if Interval.hour = .day then dailyRollup (hourlyView aggregated)
      else hourlyView aggregated) ∧
    ∀ r ∈ rows,
      (inside r ∧ r ∉ aggregated ↔ inside r ∧ hourOf r < 0) ∧
      (¬ inside r ∧ r ∈ aggregated ↔ 0 ≤ hourOf r ∧ hourOf r ≤ minutes 45 ∧ minutes 45 < r.1) ∧
      (inside r ∧ r ∉ aggregated → r.1 < 0 + hours 1) ∧
      (¬ inside r ∧ r ∈ aggregated → r.1 < minutes 45 + hours 1) :=
  have hinterval : Interval.hour ≠ .raw := by decide
  history_hours hinterval (Sample.history_body [(minutes 30, 50)] hinterval (by decide))

/-- A reading at half past, between a quarter past and a quarter to, is left out; one at ten to is
included in a window that ends at twenty to. -/
theorem partialHours_not_exact :
    (∃ h, (serve Sample.env (Sample.history .hour (some ⟨minutes 15, true⟩)
        (some ⟨minutes 45, true⟩)) (Sample.measured [(minutes 30, 50)])).1.body = .history h ∧
      ¬ ExactlyInside (Sample.measured [(minutes 30, 50)]) 7 h) ∧
    ∃ h, (serve Sample.env (Sample.history .hour (some ⟨0, true⟩) (some ⟨minutes 40, true⟩))
        (Sample.measured [(minutes 50, 50)])).1.body = .history h ∧
      ¬ ExactlyInside (Sample.measured [(minutes 50, 50)]) 7 h := by
  refine ⟨⟨_, Sample.history_body _ nofun (by decide), ?_⟩,
    ⟨_, Sample.history_body _ nofun (by decide), ?_⟩⟩ <;>
  · rw [ExactlyInside]
    decide +kernel

end Rawbin
