import Rawbin.Verify.ThresholdFaults
import Rawbin.Workers.AlertCheck

/-!
# Alerts that are not persisted

The session that persists the alerts is inside a `try` that only logs. What the task returns does
not depend on it.
-/

namespace Rawbin

/-- The row of the alert was not there before and is now. -/
def Persisted (db db' : Db) (deviceId : Uuid) (al : Alert) : Prop :=
  ∃ id row, db.alertEvents.get? id = none ∧ db'.alertEvents.get? id = some row ∧
    row.deviceId = deviceId ∧ row.metric = al.metric ∧ row.severity = al.severity ∧
      row.value = al.value ∧ row.threshold = al.threshold

/-- How many commands the loader issues: one on a cache hit; a commit that fails is followed by a
rollback. -/
def loadSteps (d : Uuid) (x : ℕ → Choice) (w : World) : ℕ :=
  if x 0 = .ok ∧ (w.redis.get w.now (.alertConfig d)).isSome then 1
  else if x 1 = .ok ∧ x 2 ≠ .ok then 5
  else 4

/-- How many commands come before the INSERT of the rows: those of the loader, and the clock when
the reading has no time. -/
def persistStart (a : AlertCheck) (x : ℕ → Choice) (w : World) : ℕ :=
  loadSteps a.deviceId x w + if a.readingTime = .absent then 1 else 0

/-- The device exists, the INSERT succeeds and the COMMIT takes effect. -/
def persists (a : AlertCheck) (x : ℕ → Choice) (w : World) : Bool :=
  w.db.devices.contains a.deviceId && x (persistStart a x w) = .ok &&
    x (persistStart a x w + 1) ≠ .fault

section
variable {a : AlertCheck} {x : ℕ → Choice} {ids : ℕ → Uuid} {w : World} {t : TaskSession}
variable {alerts : List Alert} {d : Uuid} {ts : Time}

theorem thresholdsFromDb_neverRaises (d : Uuid) : (thresholdsFromDb d).NeverRaises := by
  intro r
  cases r with
  | error e => exact fun _ => trivial
  | ok row =>
    intro r
    cases r with
    | error e => exact fun _ => trivial
    | ok u => trivial

theorem loadThresholds_neverRaises (d : Uuid) : (loadThresholds d).NeverRaises := by
  have hmiss : ((thresholdsFromDb d).bind fun thresholds =>
      (Prog.perform (.attempt (.redis (.setex (.alertConfig d) configCacheTtl thresholds)))).bind
        fun _ => (.pure thresholds : Prog Cmd Exn Thresholds)).NeverRaises :=
    (thresholdsFromDb_neverRaises d).bind fun _ _ => trivial
  intro r
  cases r with
  | error e => exact hmiss
  | ok cached =>
    cases cached with
    | none => exact hmiss
    | some thresholds => trivial

theorem steps_attempt (x : ℕ → Choice) (c : Cmd β) (k : Except Exn β → Prog Cmd Exn α)
    (t : Session) (w : World) : machine.steps x (.cmd (.attempt c) k) t w =
      let x' := fun n => x (n + 1)
      let r := c.exec .ok t w
      (match x 0 with
      | .ok => machine.steps x' (k (.ok r.1)) r.2.1 r.2.2
      | .fault => machine.steps x' (k (.error .operationalError)) t w
      | .lost => machine.steps x' (k (.error .operationalError)) r.2.1 r.2.2) + 1 := by
  rw [Machine.steps]
  simp only [machine, Cmd.exec]
  cases x 0 <;> rfl

theorem thresholdsFromDb_steps (d : Uuid) (x : ℕ → Choice) (t : Session) (w : World) :
    machine.steps x (thresholdsFromDb d) t w = if x 0 = .ok ∧ x 1 ≠ .ok then 3 else 2 := by
  rw [thresholdsFromDb, steps_attempt]
  cases x 0 with
  | fault | lost => rfl
  | ok =>
    dsimp only
    rw [steps_attempt]
    dsimp only
    cases x 1 <;> rfl

theorem loadThresholds_steps (d : Uuid) (x : ℕ → Choice) (w : World) :
    machine.steps x (loadThresholds d) .idle w = loadSteps d x w := by
  have hmiss (t : Session) (w : World) :
      machine.steps (fun n => x (n + 1)) ((thresholdsFromDb d).bind fun thresholds =>
        (Prog.perform (.attempt (.redis (.setex (.alertConfig d) configCacheTtl thresholds)))).bind
          fun _ => (.pure thresholds : Prog Cmd Exn Thresholds)) t w + 1 =
        if x 1 = .ok ∧ x 2 ≠ .ok then 5 else 4 := by
    obtain ⟨θ, hθ⟩ := machine.run_neverRaises (thresholdsFromDb_neverRaises d)
      (fun n => x (n + 1)) t w
    generalize hr : machine.run (fun n => x (n + 1)) (thresholdsFromDb d) t w = r at hθ
    obtain ⟨_, t', w'⟩ := r
    cases hθ
    rw [machine.steps_bind_ok hr, thresholdsFromDb_steps]
    show 1 + (if x 1 = .ok ∧ x 2 ≠ .ok then 3 else 2) + 1 = _
    split <;> rfl
  rw [loadThresholds, steps_attempt, loadSteps]
  cases h0 : x 0 with
  | fault | lost => exact hmiss _ _
  | ok =>
    cases hget : w.redis.get w.now (.alertConfig d) with
    | none =>
      simp only [Cmd.exec, RedisCmd.exec, hget]
      exact hmiss _ _
    | some θ =>
      simp only [Cmd.exec, RedisCmd.exec, hget]
      rfl

/-- The loader leaves the database as it is. -/
theorem load_db (d : Uuid) (x : ℕ → Choice) (w : World) :
    (machine.run x (loadThresholds d) .idle w).2.2.db = w.db := by
  rcases load_cases d x w with h | ⟨θ, h, -⟩
  · rw [h]
  · rw [h]

theorem withIds_fst (ids : ℕ → Uuid) (alerts : List Alert) :
    (withIds ids alerts).map Prod.fst = (List.range alerts.length).map ids :=
  List.map_fst_zip (by simp)

theorem withIds_snd (ids : ℕ → Uuid) (alerts : List Alert) :
    (withIds ids alerts).map Prod.snd = alerts :=
  List.map_snd_zip (by simp)

theorem mem_withIds {ids : ℕ → Uuid} {alerts : List Alert} {e : Uuid × Alert}
    (h : e ∈ withIds ids alerts) : ∃ n, e.1 = ids n := by
  have hkey : e.1 ∈ (withIds ids alerts).map Prod.fst := List.mem_map_of_mem h
  rw [withIds_fst] at hkey
  obtain ⟨n, -, hn⟩ := List.mem_map.mp hkey
  exact ⟨n, hn.symm⟩

/-- The keys that are drawn are different, and new. -/
structure FreshIds (db : Db) (ids : ℕ → Uuid) : Prop where
  injective : Function.Injective ids
  isNew : ∀ i, db.alertEvents.contains (ids i) = false

namespace FreshIds

variable {db : Db}

theorem nodup (H : FreshIds db ids) (alerts : List Alert) :
    ((withIds ids alerts).map Prod.fst).Nodup := by
  rw [withIds_fst]
  exact List.nodup_range.map H.injective

theorem isNew_of_mem (H : FreshIds db ids) (h : r ∈ withIds ids alerts) :
    db.alertEvents.contains r.1 = false := by
  have hr := List.mem_map_of_mem (f := Prod.fst) h
  rw [withIds_fst] at hr
  obtain ⟨i, -, hi⟩ := List.mem_map.mp hr
  exact hi ▸ H.isNew i

/-- Nothing but a missing device makes the INSERT fail. -/
theorem alertsViolate_iff (H : FreshIds db ids) (d : Uuid) (alerts : List Alert) :
    db.alertsViolate d ((withIds ids alerts).map Prod.fst) = !db.devices.contains d := by
  have hany : ((withIds ids alerts).map Prod.fst).any db.alertEvents.contains = false := by
    refine List.any_eq_false.mpr fun id hid => ?_
    obtain ⟨r, hr, rfl⟩ := List.mem_map.mp hid
    rw [H.isNew_of_mem hr]
    exact Bool.false_ne_true
  rw [Db.alertsViolate, hany, decide_eq_true (H.nodup alerts)]
  rfl

/-- Each alert has its row, once the rows are inserted. -/
theorem persisted (H : FreshIds db ids) (d : Uuid) (ts now : Time) (h : al ∈ alerts) :
    Persisted db (db.insertAlerts ((withIds ids alerts).map fun a =>
      (a.1, alertEvent d ts now a.2))) d al := by
  have hal : al ∈ (withIds ids alerts).map Prod.snd := (withIds_snd ids alerts).symm ▸ h
  obtain ⟨r, hr, rfl⟩ := List.mem_map.mp hal
  refine ⟨r.1, alertEvent d ts now r.2, ?_, ?_, rfl, rfl, rfl, rfl, rfl⟩
  · exact Table.get?_eq_none_iff.mpr (Table.contains_eq_false_iff.mp (H.isNew_of_mem hr))
  · refine Table.get?_insertAll_of_mem ?_ (fun e he => ?_) (List.mem_map.mpr ⟨r, hr, rfl⟩)
    · rw [List.map_map]
      exact H.nodup alerts
    · obtain ⟨r', hr', rfl⟩ := List.mem_map.mp he
      exact H.isNew_of_mem hr'

end FreshIds

/-! ## The sessions of the task -/

theorem rollback_exec (x : Choice) (t : TaskSession) (w : World) :
    (taskMachine.exec x .rollback t w).2 = ({ t with alerts := [] }, w) := by
  cases x <;> rfl

/-- An exception ends in a rollback, and is swallowed. -/
theorem rollback_run (x : ℕ → Choice) (t : TaskSession) (w : World) :
    taskMachine.run x (.cmd .rollback fun _ => (.pure () : Prog TaskCmd Exn Unit)) t w =
      (.ok (), { t with alerts := [] }, w) := by
  rw [Machine.run, rollback_exec]
  rfl

theorem insertAlertEvents_exec (H : FreshIds w.db ids) (x : Choice) (t : TaskSession) :
    taskMachine.exec x (.insertAlertEvents d ts (withIds ids alerts)) t w =
      TaskCmd.attempt x
        (if w.db.devices.contains d then
          (.ok (), { t with
            alerts := t.alerts ++ (withIds ids alerts).map fun a =>
              (a.1, alertEvent d ts w.now a.2) }, w)
        else (.error .integrityError, t, w)) t w := by
  simp only [taskMachine, TaskCmd.exec, H.alertsViolate_iff]
  cases w.db.devices.contains d <;> rfl

/-- The database after the session that persists the alerts, which never raises. -/
theorem persistAlerts_run (d : Uuid) (ts : Time) (H : FreshIds w.db ids) (hne : alerts ≠ [])
    (ht : t.alerts = []) :
    ∃ t' w', taskMachine.run x (persistAlerts d alerts ts ids) t w = (.ok (), t', w') ∧
      t'.alerts = [] ∧
      w'.db = if w.db.devices.contains d && x 0 = .ok && x 1 ≠ .fault then
          w.db.insertAlerts ((withIds ids alerts).map fun a => (a.1, alertEvent d ts w.now a.2))
        else w.db := by
  obtain ⟨base, _⟩ := t
  subst ht
  rw [persistAlerts, if_neg hne, Machine.run, insertAlertEvents_exec H]
  cases hd : w.db.devices.contains d with
  | false => cases x 0 <;> exact ⟨_, w, rollback_run _ _ _, rfl, rfl⟩
  | true =>
    cases x 0 with
    | fault | lost => exact ⟨_, w, rollback_run _ _ _, rfl, rfl⟩
    | ok =>
      rw [if_pos rfl]
      simp only [TaskCmd.attempt, Machine.run, taskMachine, TaskCmd.exec]
      cases x 1 with
      | ok => exact ⟨_, _, rfl, rfl, rfl⟩
      | fault => exact ⟨_, w, rollback_run _ _ _, rfl, rfl⟩
      | lost => exact ⟨_, _, rollback_run _ _ _, rfl, rfl⟩

theorem sendPushes_run (ps : List PushNotification) (x : ℕ → Choice) (t : TaskSession) (w : World) :
    taskMachine.run x (sendPushes ps) t w = (.ok (), t, w) := by
  induction ps generalizing x with
  | nil => rfl
  | cons p ps ih =>
    rw [sendPushes, Machine.run]
    simp only [taskMachine, TaskCmd.exec, TaskCmd.attempt]
    cases x 0 with
    | ok => exact ih _
    | fault | lost => rfl

/-- The fan-out leaves the database as it is, and never raises. -/
theorem dispatchPushes_run (d : Uuid) (alerts : List Alert) (x : ℕ → Choice) (w : World)
    (ht : t.alerts = []) :
    ∃ t' w', taskMachine.run x (dispatchPushes d alerts) t w = (.ok (), t', w') ∧ w'.db = w.db := by
  obtain ⟨base, _⟩ := t
  subst ht
  rw [dispatchPushes, Machine.run]
  simp only [taskMachine, TaskCmd.exec, TaskCmd.attempt]
  cases x 0 with
  | fault | lost => exact ⟨_, w, rollback_run _ _ _, rfl⟩
  | ok =>
    simp only [Machine.run, TaskCmd.exec, TaskCmd.attempt]
    cases x 1 with
    | ok => exact ⟨_, _, sendPushes_run _ _ _ _, rfl⟩
    | fault => exact ⟨_, w, rollback_run _ _ _, rfl⟩
    | lost => exact ⟨_, _, rollback_run _ _ _, rfl⟩

/-- The time of the alerts, unless its text is malformed. -/
theorem alertTime_run (r : IsoText) (x : ℕ → Choice) (t : TaskSession) (w : World) :
    (r = .malformed ∧ taskMachine.run x (alertTime r) t w = (.error .valueError, t, w)) ∨
      ∃ ts, taskMachine.run x (alertTime r) t w = (.ok ts, t, w) ∧
        taskMachine.steps x (alertTime r) t w = if r = .absent then 1 else 0 := by
  cases r with
  | absent => exact .inr ⟨w.now, rfl, rfl⟩
  | datetime t' => exact .inr ⟨t'.instant, rfl, rfl⟩
  | malformed => exact .inl ⟨rfl, rfl⟩

/-- The database after the alerts are handled; nothing but a malformed time is raised. -/
theorem handleAlerts_run (H : FreshIds w.db ids) (hne : alerts ≠ []) (ht : t.alerts = []) :
    (taskMachine.run x (handleAlerts a alerts ids) t w).1 = .error .valueError ∨
      ∃ t' w' ts, taskMachine.run x (handleAlerts a alerts ids) t w =
        (.ok (.returned alerts), t', w') ∧
      w'.db = if w.db.devices.contains a.deviceId &&
            x (if a.readingTime = .absent then 1 else 0) = .ok &&
            x ((if a.readingTime = .absent then 1 else 0) + 1) ≠ .fault then
          w.db.insertAlerts ((withIds ids alerts).map fun al =>
            (al.1, alertEvent a.deviceId ts w.now al.2))
        else w.db := by
  rw [handleAlerts]
  rcases alertTime_run a.readingTime x t w with ⟨-, hrun⟩ | ⟨ts, hrun, hsteps⟩
  · refine .inl ?_
    rw [taskMachine.run_bind, hrun]
  · rw [taskMachine.run_bind_ok hrun, hsteps]
    generalize (if a.readingTime = .absent then 1 else 0) = k
    obtain ⟨t₁, w₁, hpersist, ht₁, hdb₁⟩ := persistAlerts_run a.deviceId ts
      (x := fun n => x (n + k)) H hne ht
    rw [taskMachine.run_bind_ok hpersist]
    obtain ⟨t₂, w₂, hpush, hdb₂⟩ := dispatchPushes_run a.deviceId alerts _ w₁ ht₁
    refine .inr ⟨t₂, w₂, ts, (taskMachine.run_bind_ok hpush).trans rfl, ?_⟩
    rw [hdb₂, hdb₁, Nat.zero_add, Nat.add_comm 1]

/-- The database that the task leaves when it returns alerts. -/
theorem processTelemetryAlertCheck_db (H : FreshIds w.db ids) (hne : alerts ≠ [])
    (hrun : taskMachine.run x (processTelemetryAlertCheck a ids) .idle w =
      (.ok (.returned alerts), t, w')) :
    ∃ ts now, w'.db = if persists a x w then
      w.db.insertAlerts ((withIds ids alerts).map fun al =>
        (al.1, alertEvent a.deviceId ts now al.2))
      else w.db := by
  obtain ⟨θ, hθ⟩ := machine.run_neverRaises (loadThresholds_neverRaises a.deviceId) x .idle w
  have hload : taskMachine.run x ((loadThresholds a.deviceId).lift taskEmbedding.cmd) .idle w =
      (.ok θ, ⟨(machine.run x (loadThresholds a.deviceId) .idle w).2.1, []⟩,
        (machine.run x (loadThresholds a.deviceId) .idle w).2.2) :=
    (taskEmbedding.run_lift ..).trans (congrArg (fun r => (r, _)) hθ)
  have hdb := load_db a.deviceId x w
  generalize (machine.run x (loadThresholds a.deviceId) .idle w).2.1 = t₁ at hload
  generalize (machine.run x (loadThresholds a.deviceId) .idle w).2.2 = w₁ at hload hdb
  have hsteps : taskMachine.steps x ((loadThresholds a.deviceId).lift taskEmbedding.cmd) .idle w =
      loadSteps a.deviceId x w :=
    (taskEmbedding.steps_lift ..).trans (loadThresholds_steps a.deviceId x w)
  rw [processTelemetryAlertCheck, taskMachine.run_tryCatch, taskMachine.run_bind_ok hload,
    hsteps] at hrun
  dsimp only at hrun
  by_cases hnil : evaluate θ a = []
  · rw [if_pos hnil] at hrun
    cases hrun
    exact absurd rfl hne
  · rw [if_neg hnil] at hrun
    rw [← hdb] at H
    rcases handleAlerts_run (a := a) (t := ⟨t₁, []⟩)
      (x := fun n => x (n + loadSteps a.deviceId x w)) H hnil rfl with
      hbody | ⟨t₂, w₂, ts, hbody, hdb₂⟩
    · generalize taskMachine.run _ (handleAlerts a _ ids) _ _ = r at hbody hrun
      obtain ⟨r, t₂, w₂⟩ := r
      dsimp only at hbody
      cases hbody
      cases hrun
    · rw [hbody] at hrun
      cases hrun
      refine ⟨ts, w₁.now, ?_⟩
      simp only [persists, persistStart]
      rw [hdb₂, hdb]
      simp only [Nat.add_right_comm, Nat.add_comm (loadSteps a.deviceId x w)]

/-- **The breaches are persisted** by a task that returns them if and only if the device exists,
the INSERT succeeds and the COMMIT takes effect. -/
theorem persisted_iff (H : FreshIds w.db ids) (hne : alerts ≠ [])
    (hrun : taskMachine.run x (processTelemetryAlertCheck a ids) .idle w =
      (.ok (.returned alerts), t, w')) :
    (∀ al ∈ alerts, Persisted w.db w'.db a.deviceId al) ↔ persists a x w = true := by
  obtain ⟨ts, now, hdb⟩ := processTelemetryAlertCheck_db H hne hrun
  rw [hdb]
  constructor
  · intro hall
    by_contra hp
    obtain ⟨al, hal⟩ := List.exists_mem_of_ne_nil alerts hne
    obtain ⟨id, row, hnone, hsome, -⟩ := hall al hal
    rw [if_neg hp] at hsome
    cases hnone.symm.trans hsome
  · intro hp al hal
    rw [if_pos hp]
    exact H.persisted a.deviceId ts now hal

end

/-! ## An INSERT that fails -/

/-- The pile of device 7 is at 90 degrees. -/
def Sample.hotCheck : AlertCheck := ⟨7, some (.real 90), none, none, none, .datetime ⟨5, true⟩⟩

/-- The task for it, when these are the choices of the database and of Redis. -/
def hotRun (x : ℕ → Choice) : Except Exn TaskResult × TaskSession × World :=
  taskMachine.run x (processTelemetryAlertCheck Sample.hotCheck id) .idle Sample.deviceWorld

/-- The first command after the four of the loader is the INSERT. -/
def failingInsert : ℕ → Choice := fun n => if n = 4 then .fault else .ok

theorem deviceWorld_freshIds : FreshIds Sample.deviceWorld.db id :=
  ⟨Function.injective_id, fun _ => rfl⟩

theorem hotRun_persisted : ∃ alerts ≠ [], ∃ t w',
    hotRun (fun _ => .ok) = (.ok (.returned alerts), t, w') ∧
    ∀ al ∈ alerts, Persisted Sample.deviceWorld.db w'.db 7 al :=
  have hne : evaluate alertThresholds Sample.hotCheck ≠ [] := by decide +kernel
  have hrun : hotRun (fun _ => .ok) = (.ok (.returned (evaluate alertThresholds Sample.hotCheck)),
    (hotRun fun _ => .ok).2) := rfl
  ⟨_, hne, _, _, hrun, (persisted_iff deviceWorld_freshIds hne hrun).mpr rfl⟩

theorem failingInsert_not_persisted : ¬ ∀ (a : AlertCheck) (x : ℕ → Choice) (ids : ℕ → Uuid)
    (w : World) (alerts : List Alert) (t : TaskSession) (w' : World), FreshIds w.db ids →
    alerts ≠ [] → taskMachine.run x (processTelemetryAlertCheck a ids) .idle w =
      (.ok (.returned alerts), t, w') → ∀ al ∈ alerts, Persisted w.db w'.db a.deviceId al := by
  intro hevery
  have hne : evaluate alertThresholds Sample.hotCheck ≠ [] := by decide +kernel
  have hrun : hotRun failingInsert = (.ok (.returned (evaluate alertThresholds Sample.hotCheck)),
    (hotRun failingInsert).2) := rfl
  obtain ⟨al, hal⟩ := List.exists_mem_of_ne_nil _ hne
  obtain ⟨id, row, -, hsome, -⟩ := hevery _ _ _ _ _ _ _ deviceWorld_freshIds hne hrun al hal
  have hempty : (hotRun failingInsert).2.2.db.alertEvents.get? id = none := rfl
  cases hempty.symm.trans hsome

end Rawbin
