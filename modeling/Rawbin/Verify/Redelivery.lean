import Rawbin.Verify.PersistedAlerts

/-!
# Deliveries of the alert task

A task is acknowledged after it has ended, so the task of a worker that is lost is delivered
again. Nothing tells the new delivery what the old one did: its rows have keys of their own, and
the pushes are handed to Celery once more.
-/

namespace Rawbin

abbrev TaskThread := Thread TaskCmd TaskSession Exn TaskDelivery TaskResult

abbrev TaskConfig := Config TaskCmd World TaskSession Exn TaskDelivery TaskResult

/-- The reading that the task is for. -/
def TaskDelivery.key (r : TaskDelivery) : Time × Uuid := r.message.key

/-- The metrics of the alert rows of a reading. -/
def alertMetrics (db : Db) (k : Time × Uuid) : List String :=
  (db.alertEvents.select fun _ row => (row.readingTime, row.deviceId) = k).map fun r => r.2.metric

/-- A push notification that Celery was handed, and the reading that it is for. -/
structure Handed where
  key : Time × Uuid
  push : PushNotification

/-- The push that the thread is about to hand over, if it is. -/
def handing (t : TaskThread) : List Handed :=
  match t.prog with
  | .cmd (.sendPush p) _ => [⟨t.req.key, p⟩]
  | _ => []

/-- What a step hands to Celery, whether or not the answer is lost. -/
def handed (c : TaskConfig) : Label Choice TaskDelivery World → List Handed
  | .step _ .fault => []
  | .step i _ => c.threads[i]?.elim [] handing
  | _ => []

/-- The users who were sent a push for a reading, with repetitions. -/
def usersHanded (os : List Handed) (k : Time × Uuid) : List Uuid :=
  (os.filter fun o => o.key = k).map fun o => o.push.userId

/-- The readings of the deliveries, in their order. -/
def deliveredKeys (c : TaskConfig) : List (Time × Uuid) := c.threads.map fun t => t.req.key

/-- The thread is the last delivery for its reading. -/
def isLast (c : TaskConfig) (i : ℕ) : Bool :=
  (deliveredKeys c)[i]?.all fun k => k ∉ (deliveredKeys c).drop (i + 1)

/-- A task is delivered again when its worker is lost: the old delivery goes no further. -/
def lastRuns (c : TaskConfig) : Label Choice TaskDelivery World → Bool
  | .step i _ => isLast c i
  | _ => true

/-- A task is delivered again only while there are no alert rows for its reading and no push for
it was handed over. -/
def redeliversUnseen (os : List Handed) (c : TaskConfig) : Label Choice TaskDelivery World → Bool
  | .spawn r =>
    r.key ∉ deliveredKeys c || (alertMetrics c.state.db r.key = [] && usersHanded os r.key = [])
  | _ => true

/-! ## What the task does -/

def TaskCmd.isCommit : {β : Type} → TaskCmd β → Bool
  | _, .commit => true
  | _, _ => false

/-- The user for whom a command hands over a push. -/
def TaskCmd.pushed : {β : Type} → TaskCmd β → Option Uuid
  | _, .sendPush p => some p.userId
  | _, _ => none

/-- The task has tried to commit its rows, or has done without. -/
def triedCommit (log : TaskLog) : Bool := log.any fun e => e.cmd.isCommit

def pushedTo (log : TaskLog) : List Uuid := log.filterMap fun e => e.cmd.pushed

namespace TaskDelivery

/-- These are rows for the reading, one for each metric. -/
def Rows (r : TaskDelivery) (rows : List (Uuid × AlertEvent)) : Prop :=
  (∀ e ∈ rows, (e.2.readingTime, e.2.deviceId) = r.key) ∧ (rows.map fun e => e.2.metric).Nodup

/-- Rows are inserted before the first commit, and each user gets one push. -/
def expects (r : TaskDelivery) : {β : Type} → TaskLog → TaskSession → TaskCmd β → Prop
  | _, log, t, .commit => r.Rows t.alerts ∧ (t.alerts ≠ [] → triedCommit log = false)
  | _, log, _, .sendPush p => p.userId ∉ pushedTo log
  | _, _, _, _ => True

end TaskDelivery

section
variable {r : TaskDelivery} {log : TaskLog} {t : TaskSession} {β : Type}

@[simp] theorem triedCommit_snoc (log : TaskLog) (e : Event TaskCmd) :
    triedCommit (log ++ [e]) = (triedCommit log || e.cmd.isCommit) := by
  simp only [triedCommit, List.any_append, List.any_cons, List.any_nil, Bool.or_false]

theorem pushedTo_snoc (log : TaskLog) (e : Event TaskCmd) :
    pushedTo (log ++ [e]) = pushedTo log ++ e.cmd.pushed.toList := by
  rw [pushedTo, List.filterMap_append]
  cases h : e.cmd.pushed <;> simp [h, pushedTo]

theorem TaskDelivery.Rows.nil : r.Rows [] := ⟨fun _ h => absurd h List.not_mem_nil, List.nodup_nil⟩

/-- The four checks report at most one breach each, of their own metric. -/
theorem evaluate_metrics (θ : Thresholds) (a : AlertCheck) :
    ((evaluate θ a).map Alert.metric).Sublist
      ["temperature_c", "co2_ppm", "humidity_pct", "ph_level"] := by
  have htemp : ((evaluateTemperature θ a.temperatureC).map Alert.metric).Sublist
      ["temperature_c"] := by
    unfold evaluateTemperature
    repeat' split
    all_goals first | exact List.Sublist.refl _ | exact List.nil_sublist _
  have hco2 : ((evaluateCo2 θ a.co2Ppm).map Alert.metric).Sublist ["co2_ppm"] := by
    unfold evaluateCo2
    repeat' split
    all_goals first | exact List.Sublist.refl _ | exact List.nil_sublist _
  have hhumidity : ((evaluateHumidity θ a.humidityPct).map Alert.metric).Sublist
      ["humidity_pct"] := by
    unfold evaluateHumidity
    repeat' split
    all_goals first | exact List.Sublist.refl _ | exact List.nil_sublist _
  have hph : ((evaluatePh θ a.phLevel).map Alert.metric).Sublist ["ph_level"] := by
    unfold evaluatePh
    repeat' split
    all_goals first | exact List.Sublist.refl _ | exact List.nil_sublist _
  simp only [evaluate, List.map_append]
  exact ((htemp.append hco2).append hhumidity).append hph

theorem evaluate_metrics_nodup (θ : Thresholds) (a : AlertCheck) :
    ((evaluate θ a).map Alert.metric).Nodup :=
  (show ["temperature_c", "co2_ppm", "humidity_pct", "ph_level"].Nodup by decide).sublist
    (evaluate_metrics θ a)

/-- A member is found once, whatever the database holds. -/
theorem memberTokens_nodup (db : Db) (d : Uuid) : ((db.memberTokens d).map Prod.fst).Nodup := by
  have hsub (rows : List (Uuid × User)) : ((rows.filterMap fun r =>
      r.2.firebasePushToken.map fun token => (r.1, token)).map Prod.fst).Sublist
        (rows.map Prod.fst) := by
    induction rows with
    | nil => exact List.Sublist.refl _
    | cons e rows ih =>
      rw [List.filterMap_cons]
      cases e.2.firebasePushToken with
      | none => exact ih.cons _
      | some token => exact ih.cons_cons _
  exact db.users.nodup.sublist ((hsub _).trans (List.filter_sublist.map Prod.fst))

theorem alertEvent_rows (r : TaskDelivery) (θ : Thresholds) (now : Time) :
    r.Rows ((withIds r.ids (evaluate θ r.message.alertCheck)).map fun al =>
      (al.1, alertEvent r.message.deviceId r.message.reading.time.instant now al.2)) := by
  refine ⟨fun e he => ?_, ?_⟩
  · obtain ⟨al, -, rfl⟩ := List.mem_map.mp he
    rfl
  · have hmetrics := evaluate_metrics_nodup θ r.message.alertCheck
    rw [← withIds_snd r.ids (evaluate θ r.message.alertCheck), List.map_map] at hmetrics
    rw [List.map_map]
    exact hmetrics

theorem sendPushes_expects (ps : List PushNotification)
    (hnd : (ps.map PushNotification.userId).Nodup) (hps : ∀ p ∈ ps, p.userId ∉ pushedTo log) :
    alertTasks.Always r.expects (fun _ _ _ => True) log t (sendPushes ps) := by
  induction ps generalizing log t with
  | nil => exact trivial
  | cons p ps ih =>
    refine ⟨hps p List.mem_cons_self, fun x w => ?_⟩
    generalize alertTasks.exec x (.sendPush p) t w = res
    obtain ⟨ans, t', w'⟩ := res
    cases ans with
    | error e => exact trivial
    | ok u =>
      obtain ⟨hp, hnd⟩ := List.nodup_cons.mp hnd
      refine ih hnd fun p' hp' => ?_
      rw [pushedTo_snoc, List.mem_append, not_or]
      refine ⟨hps p' (List.mem_cons_of_mem _ hp'), fun h => hp ?_⟩
      rw [← List.mem_singleton.mp h]
      exact List.mem_map_of_mem hp'

/-- Nothing was inserted, committed or handed over so far. -/
def Unstarted (log : TaskLog) (t : TaskSession) : Prop :=
  t.alerts = [] ∧ triedCommit log = false ∧ pushedTo log = []

/-- What the session that persists the alerts leaves for the one that reads the tokens. -/
def Persisting (log : TaskLog) (t : TaskSession) : Prop := t.alerts = [] ∧ pushedTo log = []

theorem rollback_persisting (h : pushedTo log = []) :
    alertTasks.Always r.expects (fun log t _ => Persisting log t) log t
      (.cmd .rollback fun _ => (.pure () : Prog TaskCmd Exn Unit)) := by
  refine ⟨trivial, fun x w => ⟨?_, ?_⟩⟩
  · cases x <;> rfl
  · rw [pushedTo_snoc, h]
    rfl

theorem commit_persisting {k : Prog TaskCmd Exn Unit}
    {Q : TaskLog → TaskSession → Except Exn Unit → Prop} (hrows : r.Rows t.alerts)
    (htried : t.alerts ≠ [] → triedCommit log = false) (h : pushedTo log = [])
    (hQ : ∀ log t u, Persisting log t → Q log t u)
    (hk : ∀ log t, Persisting log t → alertTasks.Always r.expects Q log t k) :
    alertTasks.Always r.expects Q log t (.cmd .commit fun
      | .error _ => .cmd .rollback fun _ => .pure ()
      | .ok _ => k) := by
  refine ⟨⟨hrows, htried⟩, fun x w => ?_⟩
  have hlog (e : Except Exn Unit) : pushedTo (log ++ [⟨_, .commit, e⟩]) = [] := by
    rw [pushedTo_snoc, h]
    rfl
  cases x with
  | ok => exact hk _ _ ⟨rfl, hlog _⟩
  | fault | lost => exact (rollback_persisting (hlog _)).mono hQ

/-- An INSERT that succeeds leaves its rows in the session. -/
theorem exec_insert_cases (x : Choice) (d : Uuid) (ts : Time) (alerts : List (Uuid × Alert))
    (ht : t.alerts = []) (w : World) :
    (∃ e, (alertTasks.exec x (.insertAlertEvents d ts alerts) t w).1 = .error e) ∨
      (alertTasks.exec x (.insertAlertEvents d ts alerts) t w).2.1.alerts =
        alerts.map fun al => (al.1, alertEvent d ts w.now al.2) := by
  simp only [alertTasks, TaskCmd.exec]
  split
  · cases x <;> exact .inl ⟨_, rfl⟩
  · cases x with
    | ok => exact .inr (congrArg (· ++ _) ht)
    | fault | lost => exact .inl ⟨_, rfl⟩

theorem persistAlerts_expects (θ : Thresholds) (h : Unstarted log t) :
    alertTasks.Always r.expects (fun log t _ => Persisting log t) log t
      (persistAlerts r.message.deviceId (evaluate θ r.message.alertCheck)
        r.message.reading.time.instant r.ids) := by
  obtain ⟨ht, htried, hpushed⟩ := h
  rw [persistAlerts]
  split
  · exact ⟨ht, hpushed⟩
  · refine ⟨trivial, fun x w => ?_⟩
    have hlog (e : Except Exn Unit) : pushedTo (log ++ [⟨_, .insertAlertEvents
        r.message.deviceId r.message.reading.time.instant
        (withIds r.ids (evaluate θ r.message.alertCheck)), e⟩]) = [] := by
      rw [pushedTo_snoc, hpushed]
      rfl
    have hcases := exec_insert_cases x r.message.deviceId r.message.reading.time.instant
      (withIds r.ids (evaluate θ r.message.alertCheck)) ht w
    have hrows := alertEvent_rows r θ w.now
    generalize alertTasks.exec x (.insertAlertEvents _ _ _) t w = res at hcases ⊢
    obtain ⟨ans, t', w'⟩ := res
    cases ans with
    | error e => exact rollback_persisting (hlog _)
    | ok u =>
      obtain ⟨e, he⟩ | ht' := hcases
      · cases he
      · refine commit_persisting ?_ (fun _ => ?_) (hlog _) (fun _ _ _ h => h) fun _ _ h => ?_
        · exact ht' ▸ hrows
        · rw [triedCommit_snoc, htried]
          rfl
        · exact h

theorem dispatchPushes_expects (d : Uuid) (alerts : List Alert) (h : Persisting log t) :
    alertTasks.Always r.expects (fun _ _ _ => True) log t (dispatchPushes d alerts) := by
  obtain ⟨ht, hpushed⟩ := h
  refine ⟨trivial, fun x w => ?_⟩
  have hlog (e : Except Exn (List (Uuid × String))) :
      pushedTo (log ++ [⟨_, .memberTokens d, e⟩]) = [] := by
    rw [pushedTo_snoc, hpushed]
    rfl
  have hmembers (members : List (Uuid × String)) (hnd : (members.map Prod.fst).Nodup) :
      alertTasks.Always r.expects (fun _ _ _ => True)
        (log ++ [⟨_, .memberTokens d, .ok members⟩]) t (.cmd .commit fun
          | .error _ => .cmd .rollback fun _ => .pure ()
          | .ok _ => sendPushes (members.map (pushNotification d alerts))) := by
    refine commit_persisting (ht ▸ .nil) (absurd ht) (hlog _)
      (fun _ _ _ _ => trivial) fun log t h => ?_
    refine sendPushes_expects _ ?_ fun p _ => ?_
    · rw [List.map_map]
      exact hnd
    · rw [h.2]
      exact List.not_mem_nil
  cases x with
  | ok => exact hmembers _ (memberTokens_nodup w.db d)
  | fault | lost => exact (rollback_persisting (hlog _)).mono fun _ _ _ _ => trivial

/-- A base command is none that counts. -/
theorem loadThresholds_expects (d : Uuid) :
    alertTasks.Always r.expects (fun log t _ => Unstarted log t) [] .idle
      ((loadThresholds d).lift taskEmbedding.cmd) := by
  refine taskEmbedding.always_lift (J := Unstarted) (fun _ _ _ _ => trivial)
    (fun log t c x w h => ⟨h.1, ?_, ?_⟩) _ ⟨rfl, rfl, rfl⟩
  · rw [triedCommit_snoc, h.2.1]
    rfl
  · rw [pushedTo_snoc, h.2.2]
    rfl

/-- What the task does, whatever it is answered. -/
theorem processTelemetryAlertCheck_expects (r : TaskDelivery) :
    alertTasks.Always r.expects (fun _ _ _ => True) [] .idle (alertTasks.prog r) := by
  refine Machine.Always.tryCatch (Q := fun _ _ _ => True) ?_ (fun _ _ _ _ => trivial)
    fun _ _ _ _ => trivial
  refine (loadThresholds_expects r.message.deviceId).bind (fun log t θ h => ?_) fun _ _ _ _ =>
    trivial
  dsimp only
  split
  · exact trivial
  · refine (persistAlerts_expects θ h).bind (fun log t _ h => ?_) fun _ _ _ _ => trivial
    exact (dispatchPushes_expects _ _ h).bind (fun _ _ _ _ => trivial) fun _ _ _ _ => trivial

/-! ## What a run keeps -/

/-- The statements of the other code write no alert rows. -/
theorem view_alertEvents (t : Session) (db : Db) : (t.view db).alertEvents = db.alertEvents := by
  rw [Session.view]
  induction t.written generalizing db with
  | nil => rfl
  | cons wr written ih =>
    refine (ih (wr.apply db)).trans ?_
    cases wr <;> rfl

theorem exec_alertEvents (x : Choice) (cm : TaskCmd β) (t : TaskSession) (w : World) :
    (alertTasks.exec x cm t w).2.2.db.alertEvents = w.db.alertEvents ∨
      cm.isCommit = true ∧
        (alertTasks.exec x cm t w).2.2.db.alertEvents = w.db.alertEvents.insertAll t.alerts := by
  cases cm with
  | base c =>
    refine .inl ?_
    rcases c.exec_db x t.base w with h | ⟨-, h⟩
    · exact congrArg Db.alertEvents h
    · refine (congrArg (fun r => r.2.db.alertEvents) h).trans ?_
      exact view_alertEvents ..
  | insertAlertEvents d ts alerts =>
    refine .inl ?_
    simp only [alertTasks, TaskCmd.exec]
    split <;> cases x <;> rfl
  | memberTokens d | rollback | sendPush p => cases x <;> exact .inl rfl
  | commit =>
    cases x with
    | ok | lost => exact .inr ⟨rfl, rfl⟩
    | fault => exact .inl rfl

variable {k : Time × Uuid} {rows : List (Uuid × AlertEvent)} {db : Db}

/-- Rows for another reading. -/
theorem alertMetrics_insertAlerts_ne (h : r.Rows rows) (hk : r.key ≠ k) :
    alertMetrics (db.insertAlerts rows) k = alertMetrics db k := by
  refine congrArg (List.map _) (Table.select_insertAll fun e he => ?_)
  rw [h.1 e he]
  exact decide_eq_false hk

/-- The first rows for a reading. -/
theorem alertMetrics_insertAlerts_nodup (h : r.Rows rows) (hdb : alertMetrics db k = []) :
    (alertMetrics (db.insertAlerts rows) k).Nodup := by
  have hnil := List.map_eq_nil_iff.mp hdb
  have hsub := Table.select_insertAll_sublist rows db.alertEvents
    fun _ row => (row.readingTime, row.deviceId) = k
  rw [hnil, List.nil_append] at hsub
  exact h.2.sublist ((hsub.trans List.filter_sublist).map _)

theorem alertMetrics_congr {db' : Db} (h : db'.alertEvents = db.alertEvents) :
    alertMetrics db' k = alertMetrics db k := by rw [alertMetrics, h, alertMetrics]

theorem alertMetrics_exec_ne {cm : TaskCmd β} {w : World} (x : Choice)
    (he : r.expects log t cm) (hk : r.key ≠ k) :
    alertMetrics (alertTasks.exec x cm t w).2.2.db k = alertMetrics w.db k := by
  rcases exec_alertEvents x cm t w with h | ⟨hcommit, h⟩
  · exact alertMetrics_congr h
  · cases cm with
    | commit =>
      have hinsert : (alertTasks.exec x .commit t w).2.2.db.alertEvents =
          (w.db.insertAlerts t.alerts).alertEvents := h
      exact (alertMetrics_congr hinsert).trans (alertMetrics_insertAlerts_ne he.1 hk)
    | _ => cases hcommit

/-- Only a commit adds rows, and it adds the first ones. -/
theorem alertMetrics_exec {cm : TaskCmd β} {w : World} (x : Choice) (he : r.expects log t cm)
    (hnew : triedCommit log = false → alertMetrics w.db k = []) :
    alertMetrics (alertTasks.exec x cm t w).2.2.db k = alertMetrics w.db k ∨
      cm.isCommit = true ∧ (alertMetrics (alertTasks.exec x cm t w).2.2.db k).Nodup := by
  rcases exec_alertEvents x cm t w with h | ⟨hcommit, h⟩
  · exact .inl (alertMetrics_congr h)
  · cases cm with
    | commit =>
      have hinsert : (alertTasks.exec x .commit t w).2.2.db.alertEvents =
          (w.db.insertAlerts t.alerts).alertEvents := h
      rw [alertMetrics_congr hinsert]
      by_cases hrows : t.alerts = []
      · rw [hrows]
        exact .inl rfl
      · exact .inr ⟨rfl, alertMetrics_insertAlerts_nodup he.1 (hnew (he.2 hrows))⟩
    | _ => cases hcommit

/-- What is handed over in a step is for the reading of the thread. -/
theorem usersHanded_step_ne {c : TaskConfig} {i : ℕ} {t : TaskThread} {x : Choice}
    (hi : c.threads[i]? = some t) (hk : t.req.key ≠ k) :
    usersHanded (handed c (.step i x)) k = [] := by
  have hhanding : usersHanded (handing t) k = [] := by
    unfold handing
    split
    · simp [usersHanded, hk]
    · rfl
  cases x with
  | fault => rfl
  | ok | lost => simpa only [handed, hi, Option.elim_some] using hhanding

theorem usersHanded_step_sublist {c : TaskConfig} {i : ℕ} {t : TaskThread} {x : Choice}
    {cm : TaskCmd β} {f : β → Prog TaskCmd Exn TaskResult} (hi : c.threads[i]? = some t)
    (hp : t.prog = .cmd cm f) :
      (usersHanded (handed c (.step i x)) k).Sublist cm.pushed.toList := by
  have hhanding : (usersHanded (handing t) k).Sublist cm.pushed.toList := by
    rw [handing, hp]
    cases cm with
    | sendPush p =>
      rw [usersHanded]
      exact List.filter_sublist.map _
    | _ => exact List.Sublist.refl _
  cases x with
  | fault => exact List.nil_sublist _
  | ok | lost => simpa only [handed, hi, Option.elim_some] using hhanding

theorem usersHanded_append (os os' : List Handed) :
    usersHanded (os ++ os') k = usersHanded os k ++ usersHanded os' k := by
  rw [usersHanded, List.filter_append, List.map_append]
  rfl

/-- The last delivery for the reading `k` has not tried to commit before there are rows, and has
sent what was sent. -/
structure DeliveredOnce (k : Time × Uuid) (os : List Handed) (c : TaskConfig) : Prop where
  undelivered : k ∉ deliveredKeys c → alertMetrics c.state.db k = [] ∧ usersHanded os k = []
  metrics : (alertMetrics c.state.db k).Nodup
  users : (usersHanded os k).Nodup
  unrecorded : ∀ i t, c.threads[i]? = some t → t.req.key = k →
    k ∉ (deliveredKeys c).drop (i + 1) → triedCommit t.log = false → alertMetrics c.state.db k = []
  sent : ∀ i t, c.threads[i]? = some t → t.req.key = k → k ∉ (deliveredKeys c).drop (i + 1) →
    ∀ u ∈ usersHanded os k, u ∈ pushedTo t.log

theorem deliveredKeys_getElem? {c : TaskConfig} {i : ℕ} {t : TaskThread}
    (h : c.threads[i]? = some t) : (deliveredKeys c)[i]? = some t.req.key := by
  rw [deliveredKeys, List.getElem?_map, h]
  rfl

/-- A step leaves the deliveries as they are. -/
theorem deliveredKeys_set (w w' : World) {ts : List TaskThread} {i : ℕ} {t u : TaskThread}
    (hi : ts[i]? = some t) (hu : u.req = t.req) :
    deliveredKeys ⟨w, ts.set i u⟩ = deliveredKeys ⟨w', ts⟩ := by
  have hkey := deliveredKeys_getElem? (c := ⟨w', ts⟩) hi
  rw [← hu] at hkey
  obtain ⟨hlt, hget⟩ := List.getElem?_eq_some_iff.mp hkey
  refine List.map_set.trans ?_
  rw [← hget]
  exact List.set_getElem_self hlt

/-- There is one last delivery. -/
theorem mem_drop_or {ks : List (Time × Uuid)} {i j : ℕ} (hi : ks[i]? = some k)
    (hj : ks[j]? = some k) (hij : i ≠ j) : k ∈ ks.drop (i + 1) ∨ k ∈ ks.drop (j + 1) := by
  rcases Nat.lt_or_gt_of_ne hij with hlt | hlt
  · refine .inl (List.mem_of_getElem? (i := j - (i + 1)) ?_)
    rw [List.getElem?_drop, ← hj]
    congr 1
    omega
  · refine .inr (List.mem_of_getElem? (i := i - (j + 1)) ?_)
    rw [List.getElem?_drop, ← hi]
    congr 1
    omega

/-- Every delivery does what the task does. -/
def Delivering (c : TaskConfig) : Prop :=
  ∀ t ∈ c.threads, alertTasks.Always t.req.expects (fun _ _ _ => True) t.log t.sess t.prog

theorem Delivering.step {c c' : TaskConfig} {l : Label Choice TaskDelivery World}
    (h : Delivering c) (hs : alertTasks.Step c l c') : Delivering c' :=
  hs.always (I := TaskDelivery.expects) (Q := fun _ _ _ _ => True) h fun r _ =>
    processTelemetryAlertCheck_expects r

namespace DeliveredOnce

variable {os : List Handed} {c c' : TaskConfig} {i : ℕ} {x : Choice}

theorem start {w : World} (h : alertMetrics w.db k = []) : DeliveredOnce k [] ⟨w, []⟩ where
  undelivered _ := ⟨h, rfl⟩
  metrics := h ▸ List.nodup_nil
  users := List.nodup_nil
  unrecorded _ _ hi := nomatch hi
  sent _ _ hi := nomatch hi

theorem spawn {s : World} {ts : List TaskThread} (h : DeliveredOnce k os ⟨s, ts⟩)
    (hok : redeliversUnseen os ⟨s, ts⟩ (.spawn r) = true) :
    DeliveredOnce k os ⟨s, ts ++ [alertTasks.spawn r]⟩ := by
  have hkeys : deliveredKeys (⟨s, ts ++ [alertTasks.spawn r]⟩ : TaskConfig) =
      deliveredKeys (⟨s, ts⟩ : TaskConfig) ++ [r.key] := List.map_append
  have hunseen : r.key = k → alertMetrics s.db k = [] ∧ usersHanded os k = [] := by
    rintro rfl
    by_cases hmem : r.key ∈ deliveredKeys ⟨s, ts⟩
    · simpa [redeliversUnseen, hmem] using hok
    · exact h.undelivered hmem
  -- an old thread that is still the last was the last before
  have hold {i : ℕ} {t : TaskThread} (hi : ts[i]? = some t)
      (hlast : k ∉ (deliveredKeys (⟨s, ts ++ [alertTasks.spawn r]⟩ : TaskConfig)).drop (i + 1)) :
      k ∉ (deliveredKeys (⟨s, ts⟩ : TaskConfig)).drop (i + 1) := by
    rw [hkeys] at hlast
    refine fun hmem => hlast (List.Sublist.mem hmem (List.Sublist.drop ?_ _))
    exact List.sublist_append_left ..
  refine ⟨fun hmem => h.undelivered ?_, h.metrics, h.users, fun i t hi ht hlast hc => ?_,
    fun i t hi ht hlast => ?_⟩
  · rw [hkeys] at hmem
    exact fun h => hmem (List.mem_append_left _ h)
  · rcases System.getElem?_snoc hi with hi | ⟨rfl, rfl⟩
    · exact h.unrecorded i t hi ht (hold hi hlast) hc
    · exact (hunseen ht).1
  · rcases System.getElem?_snoc hi with hi | ⟨rfl, rfl⟩
    · exact h.sent i t hi ht (hold hi hlast)
    · rw [(hunseen ht).2]
      exact fun _ hu => absurd hu List.not_mem_nil

/-- A step of a delivery for another reading. -/
theorem step_ne {s : World} {ts : List TaskThread} {t : TaskThread} {cm : TaskCmd β}
    {f : β → Prog TaskCmd Exn TaskResult} (h : DeliveredOnce k os ⟨s, ts⟩) (hi : ts[i]? = some t)
    (he : t.req.expects t.log t.sess cm) (hk : t.req.key ≠ k) :
    DeliveredOnce k (os ++ handed ⟨s, ts⟩ (.step i x))
      ⟨(alertTasks.exec x cm t.sess s).2.2, ts.set i (alertTasks.advance x t cm f s)⟩ := by
  have hkeys := deliveredKeys_set (alertTasks.exec x cm t.sess s).2.2 s hi
    (show (alertTasks.advance x t cm f s).req = t.req from rfl)
  have hmetrics := alertMetrics_exec_ne (w := s) x he hk
  have husers : usersHanded (os ++ handed ⟨s, ts⟩ (.step i x)) k = usersHanded os k := by
    rw [usersHanded_append, usersHanded_step_ne hi hk, List.append_nil]
  -- the threads for the reading are the old ones
  have hold {j : ℕ} {u : TaskThread} (hj : (ts.set i (alertTasks.advance x t cm f s))[j]? = some u)
      (hu : u.req.key = k) : ts[j]? = some u := by
    rw [List.getElem?_set] at hj
    split at hj
    · cases (Option.ite_none_right_eq_some.mp hj).2
      exact absurd hu hk
    · exact hj
  constructor
  · intro hmem
    rw [hmetrics, husers]
    exact h.undelivered (hkeys ▸ hmem)
  · exact hmetrics ▸ h.metrics
  · exact husers ▸ h.users
  · intro j u hj hu hlast hc
    exact hmetrics.trans (h.unrecorded j u (hold hj hu) hu (hkeys ▸ hlast) hc)
  · intro j u hj hu hlast
    rw [husers]
    exact h.sent j u (hold hj hu) hu (hkeys ▸ hlast)

/-- A step of the last delivery for the reading. -/
theorem step_eq {s : World} {ts : List TaskThread} {t : TaskThread} {cm : TaskCmd β}
    {f : β → Prog TaskCmd Exn TaskResult} (h : DeliveredOnce k os ⟨s, ts⟩) (hi : ts[i]? = some t)
    (hp : t.prog = .cmd cm f) (he : t.req.expects t.log t.sess cm) (hk : t.req.key = k)
    (hlast : k ∉ (deliveredKeys ⟨s, ts⟩).drop (i + 1)) :
    DeliveredOnce k (os ++ handed ⟨s, ts⟩ (.step i x))
      ⟨(alertTasks.exec x cm t.sess s).2.2, ts.set i (alertTasks.advance x t cm f s)⟩ := by
  have hkeys := deliveredKeys_set (alertTasks.exec x cm t.sess s).2.2 s hi
    (show (alertTasks.advance x t cm f s).req = t.req from rfl)
  have hlog : (alertTasks.advance x t cm f s).log =
      t.log ++ [⟨_, cm, (alertTasks.exec x cm t.sess s).1⟩] := rfl
  have hsent := h.sent i t hi hk hlast
  have hmetrics := alertMetrics_exec (w := s) x he (h.unrecorded i t hi hk hlast)
  have husers : (usersHanded (os ++ handed ⟨s, ts⟩ (.step i x)) k).Sublist
      (usersHanded os k ++ cm.pushed.toList) := by
    rw [usersHanded_append]
    exact List.Sublist.append_left (usersHanded_step_sublist hi hp) _
  -- no other thread for the reading is the last
  have hself {j : ℕ} {u : TaskThread} (hj : (ts.set i (alertTasks.advance x t cm f s))[j]? = some u)
      (hu : u.req.key = k) (hl : k ∉ (deliveredKeys ⟨s, ts⟩).drop (j + 1)) :
      u = alertTasks.advance x t cm f s := by
    rw [List.getElem?_set] at hj
    split at hj
    · exact (Option.some.inj (Option.ite_none_right_eq_some.mp hj).2).symm
    · rename_i hij
      have hki := deliveredKeys_getElem? (c := ⟨s, ts⟩) hi
      have hkj := deliveredKeys_getElem? (c := ⟨s, ts⟩) hj
      rw [hk] at hki
      rw [hu] at hkj
      exact absurd (mem_drop_or hki hkj hij) (not_or.mpr ⟨hlast, hl⟩)
  constructor
  · intro hmem
    rw [hkeys] at hmem
    exact absurd (hk ▸ List.mem_of_getElem? (deliveredKeys_getElem? (c := ⟨s, ts⟩) hi)) hmem
  · rcases hmetrics with hm | ⟨-, hm⟩
    · exact hm ▸ h.metrics
    · exact hm
  · refine List.Nodup.sublist husers (List.nodup_append.mpr ⟨h.users, ?_, ?_⟩)
    · cases cm.pushed with
      | none => exact List.nodup_nil
      | some u => exact List.nodup_singleton u
    · intro u hu v hv huv
      cases cm with
      | sendPush p =>
        cases List.mem_singleton.mp hv
        exact he (huv ▸ hsent u hu)
      | _ => exact List.not_mem_nil hv
  · intro j u hj hu hl hc
    cases hself hj hu (hkeys ▸ hl)
    rw [hlog, triedCommit_snoc, Bool.or_eq_false_iff] at hc
    rcases hmetrics with hm | ⟨hcommit, -⟩
    · exact hm.trans (h.unrecorded i t hi hk hlast hc.1)
    · exact absurd hcommit (by rw [hc.2]; exact Bool.false_ne_true)
  · intro j u hj hu hl v hv
    cases hself hj hu (hkeys ▸ hl)
    rw [hlog, pushedTo_snoc]
    rcases List.mem_append.mp (husers.mem hv) with hv | hv
    · exact List.mem_append_left _ (hsent v hv)
    · exact List.mem_append_right _ hv

theorem step {l : Label Choice TaskDelivery World} (h : DeliveredOnce k os c)
    (he : Delivering c) (hlast : lastRuns c l = true) (hunseen : redeliversUnseen os c l = true)
    (hs : alertTasks.Step c l c') : DeliveredOnce k (os ++ handed c l) c' := by
  cases hs with
  | @spawn s ts r =>
    show DeliveredOnce k (os ++ []) _
    rw [List.append_nil]
    exact h.spawn hunseen
  | @env s ts w =>
    show DeliveredOnce k (os ++ []) _
    rw [List.append_nil]
    exact ⟨h.undelivered, h.metrics, h.users, h.unrecorded, h.sent⟩
  | @step ts i s β cm f t x hi hp hb =>
    have hcm := he t (List.mem_of_getElem? hi)
    rw [hp] at hcm
    by_cases hk : t.req.key = k
    · refine h.step_eq hi hp hcm.1 hk ?_
      rw [lastRuns, isLast, deliveredKeys_getElem? (c := ⟨s, ts⟩) hi, hk] at hlast
      simpa using hlast
    · exact h.step_ne hi hcm.1 hk

end DeliveredOnce

/-- **Each breach is recorded once, and each member is sent one push**, in a run in which a task
is delivered again only while its reading has no alert rows and no push for it was handed over. -/
theorem delivered_once {w₀ : World} {os : List Handed} {c : TaskConfig}
    (h₀ : alertMetrics w₀.db k = [])
    (H : alertTasks.Traced (fun os c l => lastRuns c l = true ∧ redeliversUnseen os c l = true)
      handed ⟨w₀, []⟩ os c) :
    (alertMetrics c.state.db k).Nodup ∧ (usersHanded os k).Nodup := by
  have hinv := H.invariant (P := fun os c => DeliveredOnce k os c ∧ Delivering c)
    ⟨.start h₀, fun _ ht => absurd ht List.not_mem_nil⟩
    fun os c l c' ⟨hc, he⟩ ⟨hlast, hunseen⟩ hs => ⟨hc.step he hlast hunseen hs, he.step hs⟩
  exact ⟨hinv.1.metrics, hinv.1.users⟩

end

/-! ## A worker that is lost -/

namespace Sample

/-- Alice, the member of device 7, has a phone. -/
def phoneWorld : World :=
  { deviceWorld with
    db := { deviceWorld.db with
      users := deviceWorld.db.users.update 1
        (UserPatch.apply { firebasePushToken := some "phone-token" }) } }

/-- A reading at 90 degrees, whose rows get keys from `n` on. -/
def hotDelivery (n : ℕ) : TaskDelivery where
  message := ⟨7, ⟨⟨5, true⟩, some (.real 90), none, none, none, none, none, none, none, none⟩⟩
  ids i := n + i

def taskSteps (i n : ℕ) : List (Label Choice TaskDelivery World) := List.replicate n (.step i .ok)

/-- The worker of the first delivery is lost after `n` commands. The second one finds the
thresholds in the cache. -/
def lostAfter (n : ℕ) : List (Label Choice TaskDelivery World) :=
  .spawn (hotDelivery 10) :: taskSteps 0 n ++ .spawn (hotDelivery 20) :: taskSteps 1 6

end Sample

/-- The worker is lost when the thresholds are loaded. -/
theorem lostEarly_delivered_once : ∃ os c,
    alertTasks.traceIf (fun os c l => lastRuns c l && redeliversUnseen os c l) handed []
      ⟨Sample.phoneWorld, []⟩ (Sample.lostAfter 4) = some (os, c) ∧
    alertMetrics c.state.db (5, 7) = ["temperature_c"] ∧ usersHanded os (5, 7) = [1] ∧
    (alertMetrics c.state.db (5, 7)).Nodup ∧ (usersHanded os (5, 7)).Nodup := by
  have h : (alertTasks.traceIf (fun os c l => lastRuns c l && redeliversUnseen os c l) handed []
      ⟨Sample.phoneWorld, []⟩ (Sample.lostAfter 4)).any (fun r =>
        alertMetrics r.2.state.db (5, 7) = ["temperature_c"] && usersHanded r.1 (5, 7) = [1]) =
      true := by decide +kernel
  obtain ⟨⟨os, c⟩, hc, h⟩ := (Option.any_eq_true _ _).mp h
  simp only [Bool.and_eq_true, decide_eq_true_eq] at h
  have H := System.Traced.of_traceIf .refl hc
  simp only [Bool.and_eq_true] at H
  exact ⟨os, c, hc, h.1, h.2, delivered_once rfl H⟩

/-- The worker is lost after its last command, before the task is acknowledged. -/
theorem lostLate_not_once : ¬ ∀ w₀ k os c, alertMetrics (World.db w₀) k = [] →
    alertTasks.Traced (fun _ c l => lastRuns c l = true) handed ⟨w₀, []⟩ os c →
    (alertMetrics c.state.db k).Nodup ∧ (usersHanded os k).Nodup := by
  intro hevery
  have h : (alertTasks.traceIf (fun _ c l => lastRuns c l) handed [] ⟨Sample.phoneWorld, []⟩
      (Sample.lostAfter 9)).any (fun r =>
        alertMetrics r.2.state.db (5, 7) = ["temperature_c", "temperature_c"] &&
          usersHanded r.1 (5, 7) = [1, 1]) = true := by decide +kernel
  obtain ⟨⟨os, c⟩, hc, h⟩ := (Option.any_eq_true _ _).mp h
  simp only [Bool.and_eq_true, decide_eq_true_eq] at h
  have hnodup := hevery _ (5, 7) os c rfl (System.Traced.of_traceIf .refl hc)
  rw [h.1, h.2] at hnodup
  exact absurd hnodup (by decide)

end Rawbin
