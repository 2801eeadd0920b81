import Rawbin.Verify.ThresholdPaths

/-!
# The bounds of a configuration

`DeviceConfigIn` bounds each field by itself, and a null field stands for the default. What is
effective keeps these bounds; whether a minimum is below its maximum is left to the client.
-/

namespace Rawbin

/-- The thresholds as a body that sets every field. -/
def Thresholds.body (t : Thresholds) : DeviceConfigIn where
  temperatureCMax := some t.temperatureCMax
  temperatureCMin := some t.temperatureCMin
  co2PpmMax := some t.co2PpmMax
  humidityPctMin := some t.humidityPctMin
  humidityPctMax := some t.humidityPctMax
  phMin := some t.phMin
  phMax := some t.phMax

theorem configErrors_eq_nil {body : DeviceConfigIn} :
    configErrors body = [] ↔ ∀ f ∈ configFields body, f.2.2.all f.2.1.admits = true := by
  rw [configErrors, List.map_eq_nil_iff, List.filter_eq_nil_iff]
  simp only [Bool.not_eq_true, Bool.not_eq_false']

theorem alertThresholds_admitted : configErrors alertThresholds.body = [] := by decide +kernel

theorem FieldBounds.admits_getD {b : FieldBounds} {v : Option ℚ} {q : ℚ} (h : v.all b.admits = true)
    (hq : b.admits q = true) : (some (v.getD q)).all b.admits = true := by
  cases v with
  | none => exact hq
  | some x => exact h

/-- A value that is admitted, or an admitted one in its place. -/
theorem overrideThresholds_admitted {row : DeviceConfig} {t : Thresholds}
    (h : configErrors row = []) (ht : configErrors t.body = []) :
    configErrors (overrideThresholds row t).body = [] := by
  rw [configErrors_eq_nil] at h ht ⊢
  simp only [configFields, List.forall_mem_cons, List.not_mem_nil, false_implies, implies_true,
    and_true] at h ht ⊢
  obtain ⟨h1, h2, h3, h4, h5, h6, h7⟩ := h
  obtain ⟨t1, t2, t3, t4, t5, t6, t7⟩ := ht
  exact ⟨FieldBounds.admits_getD h1 t1, FieldBounds.admits_getD h2 t2,
    FieldBounds.admits_getD h3 t3, FieldBounds.admits_getD h4 t4, FieldBounds.admits_getD h5 t5,
    FieldBounds.admits_getD h6 t6, FieldBounds.admits_getD h7 t7⟩

theorem effectiveThresholds_admitted {row : Option DeviceConfig}
    (h : ∀ r, row = some r → configErrors r = []) :
    configErrors (effectiveThresholds row).body = [] := by
  cases row with
  | none => exact alertThresholds_admitted
  | some r => exact overrideThresholds_admitted (h r rfl) alertThresholds_admitted

/-! ## Values without an alert -/

section
variable {t : Thresholds} {q : ℚ}

theorem checks_eq_nil {p p' : Prop} [Decidable p] [Decidable p'] {a a' : Alert} :
    (if p then [a] else if p' then [a'] else []) = [] ↔ ¬ p ∧ ¬ p' := by
  by_cases hp : p <;> by_cases hp' : p' <;> simp [hp, hp']

theorem evaluateTemperature_eq_nil : evaluateTemperature t (some (.real q)) = [] ↔
    t.temperatureCMin ≤ q ∧ q ≤ t.temperatureCMax := by
  rw [evaluateTemperature, checks_eq_nil, not_lt, not_lt, and_comm]

theorem evaluateHumidity_eq_nil : evaluateHumidity t (some (.real q)) = [] ↔
    t.humidityPctMin ≤ q ∧ q ≤ t.humidityPctMax := by
  rw [evaluateHumidity, checks_eq_nil, not_lt, not_lt]

theorem evaluatePh_eq_nil : evaluatePh t (some (.real q)) = [] ↔ t.phMin ≤ q ∧ q ≤ t.phMax := by
  rw [evaluatePh, checks_eq_nil, not_lt, not_lt]

theorem evaluateCo2_eq_nil : evaluateCo2 t (some (.real q)) = [] ↔ q ≤ t.co2PpmMax := by
  rw [evaluateCo2, ite_eq_right_iff, ← not_lt]
  exact imp_congr_right fun _ => iff_false_intro (List.cons_ne_nil _ _)

/-- Some value lies between two limits exactly when these are in order. -/
theorem exists_le_le_iff {lo hi : ℚ} : (∃ q, lo ≤ q ∧ q ≤ hi) ↔ lo ≤ hi :=
  ⟨fun ⟨_, hlo, hhi⟩ => hlo.trans hhi, fun h => ⟨lo, le_rfl, h⟩⟩

end

/-- Which metrics have a value that triggers no alert. -/
structure QuietBands (t : Thresholds) : Prop where
  temperature : (∃ q, evaluateTemperature t (some (.real q)) = []) ↔
    t.temperatureCMin ≤ t.temperatureCMax
  co2 : ∃ q, evaluateCo2 t (some (.real q)) = []
  humidity : (∃ q, evaluateHumidity t (some (.real q)) = []) ↔ t.humidityPctMin ≤ t.humidityPctMax
  ph : (∃ q, evaluatePh t (some (.real q)) = []) ↔ t.phMin ≤ t.phMax

theorem quietBands (t : Thresholds) : QuietBands t where
  temperature := by simp only [evaluateTemperature_eq_nil, exists_le_le_iff]
  co2 := ⟨t.co2PpmMax, evaluateCo2_eq_nil.mpr le_rfl⟩
  humidity := by simp only [evaluateHumidity_eq_nil, exists_le_le_iff]
  ph := by simp only [evaluatePh_eq_nil, exists_le_le_iff]

/-! ## Requests -/

/-- A PUT as it arrives: a body with errors does not reach the route. -/
def receivePut (E : Env) (credentials : String) (d : Uuid) (body : DeviceConfigIn) (draws : Draws)
    (w : World) : Option Response × World :=
  if configErrors body = [] then
    let r := serve E (.user credentials (.putDeviceConfig d body) draws) w
    (some r.1, r.2)
  else (none, w)

def ConfigEvent.receive (E : Env) : ConfigEvent → World → World
  | .put credentials d body draws, w => (receivePut E credentials d body draws w).2
  | e, w => e.apply E w

section
variable {E : Env} {w : World} {credentials : String} {u d : Uuid} {user : User} {device : Device}
variable {draws : Draws}

/-- A PUT by a member stores the body, any other one changes nothing. -/
theorem putDeviceConfig_cases (E : Env) (w : World) (credentials : String) (d : Uuid)
    (body : DeviceConfigIn) (draws : Draws) :
    let r := serve E (.user credentials (.putDeviceConfig d body) draws) w
    (r.1.status = 200 ∧ PutConfig d body w r.2) ∨ (r.1.status ≠ 200 ∧ r.2 = w) := by
  by_cases h : ∃ u user device, Authenticated E credentials u user w ∧ DeviceMember d u device w
  · obtain ⟨u, user, device, hu, hm⟩ := h
    obtain ⟨hresponse, hput⟩ := putDeviceConfig_serve hu hm body draws
    exact .inl ⟨congrArg Response.status hresponse, hput⟩
  · refine .inr (serve_ends (P := fun response w' => response.status ≠ 200 ∧ w' = w) ?_)
    refine getCurrentUser_ends rfl (fun _ _ => ⟨by decide, rfl⟩) fun t u user ht hu => ?_
    refine assertDeviceMember_ends ht (fun _ _ => ⟨by decide, rfl⟩) fun t device ht hm => ?_
    exact absurd ⟨u, user, device, hu, hm⟩ h

/-- The stored configuration of a device would be accepted. -/
def StoredAdmitted (d : Uuid) (w : World) : Prop :=
  ∀ row, w.db.deviceConfigs.get? d = some row → configErrors row = []

theorem StoredAdmitted.receive (h : StoredAdmitted d w) (e : ConfigEvent) :
    StoredAdmitted d (e.receive E w) := by
  cases e with
  | put credentials d' body draws =>
    rw [ConfigEvent.receive, receivePut]
    split
    · rename_i hbody
      rcases putDeviceConfig_cases E w credentials d' body draws with ⟨_, hput⟩ | ⟨_, hw⟩
      · intro row hrow
        by_cases hd : d = d'
        · subst d'
          cases hrow.symm.trans hput.row
          exact hbody
        · exact h row ((hput.others d hd).symm.trans hrow)
      · rw [hw]
        exact h
    · exact h
  | load d' x =>
    show StoredAdmitted d (machine.run x (loadThresholds d') .idle w).2.2
    rcases load_cases d' x w with hw | ⟨θ, hw, _⟩
    · rw [hw]
      exact h
    · rw [hw]
      exact h
  | tick dt => exact h

/-- **What is effective keeps the bounds of the fields.** In every state of a run of PUTs, loads and
passing time, each effective threshold would be accepted in a body; a metric has a value without an
alert exactly when its minimum is at most its maximum; the next body is refused without an effect,
or stored and effective with the defaults in the place of its nulls, or answered otherwise without
an effect. -/
theorem config_bounds {w₀ : World} (h₀ : StoredAdmitted d w₀)
    (H : Reach (ConfigEvent.receive E) (fun _ _ => True) w₀ w) :
    let effective := effectiveThresholds (w.db.deviceConfigs.get? d)
    configErrors effective.body = [] ∧ QuietBands effective ∧
    ∀ credentials body draws,
      let r := receivePut E credentials d body draws w
      (configErrors body ≠ [] ∧ r = (none, w)) ∨
      (configErrors body = [] ∧ ∃ response, r.1 = some response ∧
        (response.status = 200 ∧ r.2.db.deviceConfigs.get? d = some body ∨
          response.status ≠ 200 ∧ r.2 = w)) := by
  refine ⟨?_, quietBands _, fun credentials body draws => ?_⟩
  · exact effectiveThresholds_admitted (H.invariant h₀ fun w e h _ => h.receive e)
  · by_cases hbody : configErrors body = []
    · refine .inr ⟨hbody, ?_⟩
      rw [receivePut, if_pos hbody]
      refine ⟨_, rfl, ?_⟩
      rcases putDeviceConfig_cases E w credentials d body draws with ⟨hstatus, hput⟩ | h
      · exact .inl ⟨hstatus, hput.row⟩
      · exact .inr h
    · refine .inl ⟨hbody, ?_⟩
      rw [receivePut, if_neg hbody]

end

/-! ## A minimum above the maximum -/

/-- Alice sets the least temperature of device 7, and nothing else. -/
def Sample.setMinimum (q : ℚ) : ConfigEvent :=
  .put (Sample.jwtEncode ⟨1, .access, 0, 0, 0⟩) 7 ⟨none, some q, none, none, none, none, none⟩
    (Sample.draws 0)

theorem minimum50_bounds :
    let w := (Sample.setMinimum 50).receive Sample.env Sample.deviceWorld
    let effective := effectiveThresholds (w.db.deviceConfigs.get? 7)
    configErrors effective.body = [] ∧ QuietBands effective ∧
    ∀ credentials body draws,
      let r := receivePut Sample.env credentials 7 body draws w
      (configErrors body ≠ [] ∧ r = (none, w)) ∨
      (configErrors body = [] ∧ ∃ response, r.1 = some response ∧
        (response.status = 200 ∧ r.2.db.deviceConfigs.get? 7 = some body ∨
          response.status ≠ 200 ∧ r.2 = w)) :=
  config_bounds (show StoredAdmitted 7 Sample.deviceWorld from fun _ h => nomatch h)
    (Reach.refl.step trivial)

/-- A minimum of 90 is accepted, and every temperature then triggers an alert. -/
theorem minimum90_inconsistent :
    ∃ w, Reach (ConfigEvent.receive Sample.env) (fun _ _ => True) Sample.deviceWorld w ∧
      let effective := effectiveThresholds (w.db.deviceConfigs.get? 7)
      effective.temperatureCMax < effective.temperatureCMin ∧
        ∀ q, evaluateTemperature effective (some (.real q)) ≠ [] := by
  let w := (Sample.setMinimum 90).receive Sample.env Sample.deviceWorld
  have hlt : (effectiveThresholds (w.db.deviceConfigs.get? 7)).temperatureCMax <
      (effectiveThresholds (w.db.deviceConfigs.get? 7)).temperatureCMin := by decide +kernel
  refine ⟨w, Reach.refl.step trivial, hlt, fun q hq => ?_⟩
  obtain ⟨hmin, hmax⟩ := evaluateTemperature_eq_nil.mp hq
  exact absurd (hmin.trans hmax) (not_le.mpr hlt)

end Rawbin
