import Rawbin.Workers.AlertCheck

/-!
# Alerts and bands

What `_evaluate` reports, metric by metric, against the band of each metric. The checks differ in
their order and CO₂ has no minimum, but each one reports at most one bound, and only a bound that
its value violates. The bounds may be in any order.
-/

namespace Rawbin

/-- The metrics that `_evaluate` checks. -/
inductive AlertMetric where
  | temperature
  | co2
  | humidity
  | ph
  deriving DecidableEq

namespace AlertMetric

/-- In the order of their checks. -/
def all : List AlertMetric := [.temperature, .co2, .humidity, .ph]

def name : AlertMetric → String
  | .temperature => "temperature_c"
  | .co2 => "co2_ppm"
  | .humidity => "humidity_pct"
  | .ph => "ph_level"

def measured (a : AlertCheck) : AlertMetric → Option Measurement
  | .temperature => a.temperatureC
  | .co2 => a.co2Ppm
  | .humidity => a.humidityPct
  | .ph => a.phLevel

def lower (t : Thresholds) : AlertMetric → Option ℚ
  | .temperature => some t.temperatureCMin
  | .co2 => none
  | .humidity => some t.humidityPctMin
  | .ph => some t.phMin

def upper (t : Thresholds) : AlertMetric → ℚ
  | .temperature => t.temperatureCMax
  | .co2 => t.co2PpmMax
  | .humidity => t.humidityPctMax
  | .ph => t.phMax

def check (t : Thresholds) : AlertMetric → Option Measurement → List Alert
  | .temperature => evaluateTemperature t
  | .co2 => evaluateCo2 t
  | .humidity => evaluateHumidity t
  | .ph => evaluatePh t

theorem mem_all (m : AlertMetric) : m ∈ all := by cases m <;> decide

theorem name_injective : Function.Injective name := by
  intro m m' h
  cases m <;> cases m' <;> first | rfl | exact absurd h (by decide)

theorem nodup_names : (all.map name).Nodup := by decide

/-- The bound `b` of the metric is strictly violated by the value. -/
inductive Violates (t : Thresholds) (m : AlertMetric) (q : ℚ) : ℚ → Prop where
  | below {b : ℚ} : m.lower t = some b → q < b → Violates t m q b
  | above : m.upper t < q → Violates t m q (m.upper t)

/-- The value is strictly outside the band. -/
def Outside (t : Thresholds) (m : AlertMetric) (q : ℚ) : Prop :=
  (∃ b, m.lower t = some b ∧ q < b) ∨ m.upper t < q

theorem Violates.outside {t : Thresholds} {m : AlertMetric} {q b : ℚ} (h : m.Violates t q b) :
    m.Outside t q := by
  cases h with
  | below hb hq => exact .inl ⟨b, hb, hq⟩
  | above hq => exact .inr hq

/-- What the alert of a metric says of its value. -/
structure Reports (t : Thresholds) (m : AlertMetric) (q : ℚ) (alert : Alert) : Prop where
  metric : alert.metric = m.name
  value : alert.value = q
  threshold : m.Violates t q alert.threshold
  severity : alert.severity = .critical ↔ m = .temperature ∧ t.temperatureCMax < q

variable {t t' : Thresholds} {m : AlertMetric} {q : ℚ} {a : AlertCheck} {alert : Alert}

theorem outside_iff_of_lower {lo : ℚ} (hlo : m.lower t = some lo) :
    m.Outside t q ↔ q < lo ∨ m.upper t < q := by
  simp only [Outside, hlo, Option.some_inj, exists_eq_left']

theorem outside_iff_of_none (hlo : m.lower t = none) : m.Outside t q ↔ m.upper t < q := by
  simp only [Outside, hlo, reduceCtorEq, false_and, exists_false, false_or]

/-- Two checks, the second one under `elif`, that report what they find and miss no value outside
the band. -/
theorem checks_report {p p' : Prop} [Decidable p] [Decidable p'] {x x' : Alert}
    (hout : m.Outside t q → p ∨ p') (hx : p → m.Reports t q x)
    (hx' : ¬ p → p' → m.Reports t q x') :
    let alerts := if p then [x] else if p' then [x'] else []
    (¬ m.Outside t q ∧ alerts = []) ∨ ∃ alert, m.Reports t q alert ∧ alerts = [alert] := by
  intro alerts
  by_cases hp : p
  · exact .inr ⟨x, hx hp, if_pos hp⟩
  · by_cases hp' : p'
    · exact .inr ⟨x', hx' hp hp', (if_neg hp).trans (if_pos hp')⟩
    · refine .inl ⟨fun ho => ?_, (if_neg hp).trans (if_neg hp')⟩
      exact (hout ho).elim hp hp'

/-- A check of a value reports nothing inside the band, and one alert outside of it. -/
theorem check_real (t : Thresholds) (m : AlertMetric) (q : ℚ) :
    (¬ m.Outside t q ∧ m.check t (some (.real q)) = []) ∨
      ∃ alert, m.Reports t q alert ∧ m.check t (some (.real q)) = [alert] := by
  cases m with
  | temperature =>
    -- The maximum comes first, so it decides the severity when both bounds are violated.
    refine checks_report (fun ho => ((outside_iff_of_lower rfl).mp ho).symm) (fun hhi => ?_)
      fun hhi hlo => ?_
    · exact ⟨rfl, rfl, .above hhi, iff_of_true rfl ⟨rfl, hhi⟩⟩
    · exact ⟨rfl, rfl, .below rfl hlo, iff_of_false nofun fun hc => hhi hc.2⟩
  | co2 =>
    by_cases hhi : t.co2PpmMax < q
    · refine .inr ⟨_, ?_, if_pos hhi⟩
      exact ⟨rfl, rfl, .above hhi, iff_of_false nofun nofun⟩
    · exact .inl ⟨mt (outside_iff_of_none rfl).mp hhi, if_neg hhi⟩
  | humidity | ph =>
    refine checks_report (outside_iff_of_lower rfl).mp (fun hlo => ?_) fun _ hhi => ?_
    · exact ⟨rfl, rfl, .below rfl hlo, iff_of_false nofun nofun⟩
    · exact ⟨rfl, rfl, .above hhi, iff_of_false nofun nofun⟩

/-- A null is not checked, and NaN violates no bound. -/
theorem check_eq_nil {v : Option Measurement} (h : ∀ q, v ≠ some (.real q)) :
    m.check t v = [] := by
  rcases v with _ | _ | q
  · cases m <;> rfl
  · cases m <;> rfl
  · exact absurd rfl (h q)

/-- Where a check reports, it reports one alert on a value outside the band. -/
theorem mem_check {v : Option Measurement} (h : alert ∈ m.check t v) :
    ∃ q, v = some (.real q) ∧ m.Reports t q alert ∧ m.check t v = [alert] := by
  by_cases hv : ∃ q, v = some (.real q)
  · obtain ⟨q, rfl⟩ := hv
    refine ⟨q, rfl, ?_⟩
    rcases check_real t m q with ⟨_, hnil⟩ | ⟨alert', hreports, hone⟩
    · rw [hnil] at h
      cases h
    · rw [hone, List.mem_singleton] at h
      exact h ▸ ⟨hreports, hone⟩
  · rw [check_eq_nil fun q hq => hv ⟨q, hq⟩] at h
    cases h

end AlertMetric

open AlertMetric

variable {t t' : Thresholds} {m : AlertMetric} {q : ℚ} {a : AlertCheck} {alert : Alert}

theorem evaluate_eq (t : Thresholds) (a : AlertCheck) :
    evaluate t a = all.flatMap fun m => m.check t (m.measured a) := by
  simp only [evaluate, all, List.flatMap_cons, List.flatMap_nil, List.append_nil,
    List.append_assoc, check, measured]

theorem mem_evaluate : alert ∈ evaluate t a ↔ ∃ m : AlertMetric,
    alert ∈ m.check t (m.measured a) := by
  rw [evaluate_eq, List.mem_flatMap]
  exact exists_congr fun m => and_iff_right (mem_all m)

/-- What a reading triggers: the metrics in order, each at most once, exactly those outside their
bands, with the value and a violated bound. -/
structure Triggered (t : Thresholds) (a : AlertCheck) (alerts : List Alert) : Prop where
  order : (alerts.map Alert.metric).Sublist (all.map name)
  unique : (alerts.map Alert.metric).Nodup
  metric : ∀ alert ∈ alerts, ∃ m : AlertMetric, alert.metric = m.name
  outside : ∀ m : AlertMetric, m.name ∈ alerts.map Alert.metric ↔
    ∃ q, m.measured a = some (.real q) ∧ m.Outside t q
  bound : ∀ alert ∈ alerts, ∀ m : AlertMetric, alert.metric = m.name →
    m.measured a = some (.real alert.value) ∧ m.Violates t alert.value alert.threshold
  severity : ∀ alert ∈ alerts, alert.severity = .critical ↔
    alert.metric = AlertMetric.temperature.name ∧ t.temperatureCMax < alert.value

/-- The band of every metric in `t'` contains the one in `t`. -/
structure Thresholds.Relaxes (t t' : Thresholds) : Prop where
  upper : ∀ m : AlertMetric, m.upper t ≤ m.upper t'
  lower : ∀ (m : AlertMetric) (b' : ℚ), m.lower t' = some b' → ∃ b, m.lower t = some b ∧ b' ≤ b

/-- The names of the alerts of one metric: its own, or none. -/
theorem map_metric_check (t : Thresholds) (m : AlertMetric) (v : Option Measurement) :
    ((m.check t v).map Alert.metric).Sublist [m.name] := by
  rcases hc : m.check t v with _ | ⟨alert, rest⟩
  · exact List.nil_sublist _
  · obtain ⟨q, _, hreports, hone⟩ := mem_check (hc ▸ List.mem_cons_self : alert ∈ m.check t v)
    rw [← hc, hone, List.map_singleton, hreports.metric]

theorem evaluate_order (t : Thresholds) (a : AlertCheck) :
    ((evaluate t a).map Alert.metric).Sublist (all.map name) := by
  rw [evaluate_eq, List.map_flatMap]
  induction all with
  | nil => exact List.Sublist.refl _
  | cons m ms ih =>
    rw [List.flatMap_cons, List.map_cons]
    exact (map_metric_check t m _).append ih

/-- An alert comes from the check of the metric that it names. -/
theorem mem_check_of_name (h : alert ∈ evaluate t a) (hm : alert.metric = m.name) :
    ∃ q, m.measured a = some (.real q) ∧ m.Reports t q alert := by
  obtain ⟨m', h'⟩ := mem_evaluate.mp h
  obtain ⟨q, hq, hreports, _⟩ := mem_check h'
  obtain rfl := name_injective (hm.symm.trans hreports.metric)
  exact ⟨q, hq, hreports⟩

/-- A value outside the band has its alert. -/
theorem exists_mem_evaluate (hq : m.measured a = some (.real q)) (ho : m.Outside t q) :
    ∃ alert ∈ evaluate t a, alert.metric = m.name ∧ m.Reports t q alert := by
  rcases check_real t m q with ⟨hin, _⟩ | ⟨alert, hreports, hone⟩
  · exact absurd ho hin
  · have hmem : alert ∈ m.check t (m.measured a) := by
      rw [hq, hone]
      exact List.mem_singleton_self alert
    exact ⟨alert, mem_evaluate.mpr ⟨m, hmem⟩, hreports.metric, hreports⟩

theorem evaluate_triggered (t : Thresholds) (a : AlertCheck) : Triggered t a (evaluate t a) where
  order := evaluate_order t a
  unique := nodup_names.sublist (evaluate_order t a)
  metric alert h := by
    obtain ⟨m, h⟩ := mem_evaluate.mp h
    obtain ⟨_, _, hreports, _⟩ := mem_check h
    exact ⟨m, hreports.metric⟩
  outside m := by
    constructor
    · intro h
      obtain ⟨alert, h, hm⟩ := List.mem_map.mp h
      obtain ⟨q, hq, hreports⟩ := mem_check_of_name h hm
      exact ⟨q, hq, hreports.threshold.outside⟩
    · rintro ⟨q, hq, ho⟩
      obtain ⟨alert, h, hm, _⟩ := exists_mem_evaluate hq ho
      exact List.mem_map.mpr ⟨alert, h, hm⟩
  bound alert h m hm := by
    obtain ⟨q, hq, hreports⟩ := mem_check_of_name h hm
    rw [hreports.value]
    exact ⟨hq, hreports.threshold⟩
  severity alert h := by
    obtain ⟨m, h⟩ := mem_evaluate.mp h
    obtain ⟨q, _, hreports, _⟩ := mem_check h
    rw [hreports.severity, hreports.metric, hreports.value, name_injective.eq_iff]

theorem Thresholds.Relaxes.outside (h : t.Relaxes t') (ho : m.Outside t' q) : m.Outside t q := by
  rcases ho with ⟨b', hb', hq⟩ | hq
  · obtain ⟨b, hb, hle⟩ := h.lower m b' hb'
    exact .inl ⟨b, hb, hq.trans_le hle⟩
  · exact .inr ((h.upper m).trans_lt hq)

/-- **Each metric is judged against its own band.** The alerts of a reading are exactly those of the
values outside their bands; where the bands are relaxed, every alert was there before, and was
critical if it still is. -/
theorem evaluate_bands (t : Thresholds) (a : AlertCheck) :
    Triggered t a (evaluate t a) ∧
    ∀ t', t.Relaxes t' → ∀ alert' ∈ evaluate t' a, ∃ alert ∈ evaluate t a,
      alert.metric = alert'.metric ∧ (alert'.severity = .critical →
        alert.severity = .critical) := by
  refine ⟨evaluate_triggered t a, fun t' hrelaxes alert' h' => ?_⟩
  obtain ⟨m, hm⟩ := (evaluate_triggered t' a).metric alert' h'
  obtain ⟨q, hq, hreports'⟩ := mem_check_of_name h' hm
  have ho : m.Outside t q := hrelaxes.outside hreports'.threshold.outside
  obtain ⟨alert, h, hname, hreports⟩ := exists_mem_evaluate hq ho
  refine ⟨alert, h, hname.trans hm.symm, fun hcritical => ?_⟩
  obtain ⟨rfl, hlt⟩ := hreports'.severity.mp hcritical
  exact hreports.severity.mpr ⟨rfl, (hrelaxes.upper .temperature).trans_lt hlt⟩

/-- With a minimum of 90 above the maximum of 50, a temperature of 60 violates both bounds: the
maximum is the one that is reported. -/
example :
    (evaluate ⟨50, 90, 5000, 40, 80, 5, 17 / 2⟩
      ⟨7, some (.real 60), none, none, none, .absent⟩).map
        (fun alert => (alert.metric, alert.severity, alert.threshold)) =
      [("temperature_c", .critical, 50)] := by
  decide +kernel

end Rawbin
