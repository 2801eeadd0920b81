import Rawbin.Verify.Redelivery
import Rawbin.Verify.PushTokens

/-!
# What an alert check has done

The log of a check tells what it has done: its thresholds are what the loader was answered, its rows
and its pushes are those of the alerts that these thresholds make of the reading, and a check that
ends without a failed command has missed none of them.
-/

namespace Rawbin

/-! ## The thresholds -/

/-- What the loader was answered when it gave these thresholds: the cache had them, or they are
those of the row, or the row could not be read. -/
inductive ThresholdsFrom (d : Uuid) (log : Log) : Thresholds → Prop where
  | cached {θ : Thresholds}
    (h : ⟨_, .attempt (.redis (.get (.alertConfig d))), .ok (some θ)⟩ ∈ log) :
    ThresholdsFrom d log θ
  | stored {row : Option DeviceConfig}
    (h : ⟨_, .attempt (.select (.deviceConfig d)), .ok row⟩ ∈ log) :
    ThresholdsFrom d log (effectiveThresholds row)
  | defaults {e : Exn} (h : ⟨_, .attempt (.select (.deviceConfig d)), .error e⟩ ∈ log) :
    ThresholdsFrom d log alertThresholds

/-- The alerts of a reading, by thresholds that were loaded. -/
def Evaluated (a : AlertCheck) (log : TaskLog) (alerts : List Alert) : Prop :=
  ∃ θ, ThresholdsFrom a.deviceId (baseLog log) θ ∧ alerts = evaluate θ a

/-! ## The log of a check -/

/-- The pushes that were handed over. -/
def taskPushes (log : TaskLog) : List PushNotification := log.filterMap fun
  | ⟨_, .sendPush p, _⟩ => some p
  | _ => none

/-- A command after the loader has failed. -/
def taskFailed (log : TaskLog) : Bool := log.any fun
  | ⟨_, .insertAlertEvents _ _ _, .error _⟩ => true
  | ⟨_, .memberTokens _, .error _⟩ => true
  | ⟨_, .commit, .error _⟩ => true
  | ⟨_, .sendPush _, .error _⟩ => true
  | _ => false

/-- A push of these alerts, to a member that was found. -/
def PushedFor (a : AlertCheck) (log : TaskLog) (p : PushNotification) : Prop :=
  ∃ alerts members member, Evaluated a log alerts ∧ alerts ≠ [] ∧
    ⟨_, .memberTokens a.deviceId, .ok members⟩ ∈ log ∧ member ∈ members ∧
    p = pushNotification a.deviceId alerts member

/-- The time of the reading, if the arguments have one. -/
def AlertCheck.At (a : AlertCheck) (ts : Time) : Prop :=
  ∀ t, a.readingTime = .datetime t → ts = t.instant

/-- What holds at each command of a check. -/
def CheckExpects (a : AlertCheck) (ids : ℕ → Uuid) :
    {β : Type} → TaskLog → TaskSession → TaskCmd β → Prop
  | _, _, t, .base _ => t.base.written = []
  | _, log, t, .insertAlertEvents d ts rows => t.alerts = [] ∧ triedCommit log = false ∧
    d = a.deviceId ∧ a.At ts ∧ ∃ alerts, Evaluated a log alerts ∧ rows = withIds ids alerts
  | _, log, _, .rollback => taskFailed log = true
  | _, log, t, .commit => t.alerts ≠ [] → triedCommit log = false
  | _, log, _, .sendPush p => PushedFor a log p
  | _, _, _, _ => True

/-- The alerts have their rows, and their pushes to the members that were found. -/
structure Raised (a : AlertCheck) (ids : ℕ → Uuid) (log : TaskLog) (alerts : List Alert) :
    Prop where
  inserted : ∃ ts, a.At ts ∧
    ⟨_, .insertAlertEvents a.deviceId ts (withIds ids alerts), .ok ()⟩ ∈ log
  pushed : ∃ members, ⟨_, .memberTokens a.deviceId, .ok members⟩ ∈ log ∧
    ∀ member ∈ members, pushNotification a.deviceId alerts member ∈ taskPushes log

/-- What holds at its end. -/
def CheckEnds (a : AlertCheck) (ids : ℕ → Uuid) (log : TaskLog) (t : TaskSession) : Prop :=
  t.alerts = [] ∧ (taskFailed log = true ∨ a.readingTime = .malformed ∨
    ∃ alerts, Evaluated a log alerts ∧ (alerts ≠ [] → Raised a ids log alerts))

section
variable {d : Uuid} {a : AlertCheck} {ids : ℕ → Uuid} {log log₀ log' : TaskLog} {t : TaskSession}
variable {alerts : List Alert} {θ : Thresholds} {ts : Time}

theorem ThresholdsFrom.mono {log log' : Log} (h : log <+: log') (H : ThresholdsFrom d log θ) :
    ThresholdsFrom d log' θ := by
  cases H with
  | cached he => exact .cached (h.subset he)
  | stored he => exact .stored (h.subset he)
  | defaults he => exact .defaults (h.subset he)

theorem Evaluated.mono (h : log <+: log') (H : Evaluated a log alerts) : Evaluated a log' alerts :=
  let ⟨θ, hθ, halerts⟩ := H
  ⟨θ, hθ.mono (h.filterMap _), halerts⟩

theorem PushedFor.mono {p : PushNotification} (h : log <+: log') (H : PushedFor a log p) :
    PushedFor a log' p :=
  let ⟨alerts, members, member, he, hne, hread, hmem, hp⟩ := H
  ⟨alerts, members, member, he.mono h, hne, h.subset hread, hmem, hp⟩

theorem taskPushes_mono (h : log <+: log') : taskPushes log ⊆ taskPushes log' :=
  (h.filterMap _).subset

@[simp] theorem taskFailed_append (log log' : TaskLog) :
    taskFailed (log ++ log') = (taskFailed log || taskFailed log') := List.any_append

theorem taskFailed_snoc {e : Event TaskCmd} (h : taskFailed [e] = true) :
    taskFailed (log ++ [e]) = true := by
  rw [taskFailed_append, h, Bool.or_true]

theorem taskFailed_mono (h : log <+: log') (hf : taskFailed log = true) :
    taskFailed log' = true := by
  obtain ⟨es, rfl⟩ := h
  rw [taskFailed_append, hf, Bool.true_or]

theorem mem_snoc {A : Type*} (as : List A) (x : A) : x ∈ as ++ [x] :=
  List.mem_append_right _ (List.mem_singleton_self x)

/-! ## The loader -/

/-- Whatever the loader is answered, it gives thresholds, and the answers tell which. -/
theorem loadThresholds_answers (d : Uuid) : Keeps (fun _ ws _ => ws = [])
    (fun log ws r => ws = [] ∧ ∃ θ, r = .ok θ ∧ ThresholdsFrom d log θ) [] []
    (loadThresholds d) := by
  -- Filling the cache changes nothing, whether it works or not.
  have hfill (log : Log) (θ : Thresholds) (hθ : ThresholdsFrom d log θ) :
      Keeps (fun _ ws _ => ws = [])
        (fun log ws r => ws = [] ∧ ∃ θ, r = .ok θ ∧ ThresholdsFrom d log θ) log []
        ((Prog.perform (.attempt (.redis (.setex (.alertConfig d) configCacheTtl θ)))).bind
          fun _ => (.pure θ : Prog Cmd Exn Thresholds)) :=
    .quiet rfl rfl fun _ => .pure ⟨rfl, θ, rfl, hθ.mono (List.prefix_append ..)⟩
  have hmiss (log : Log) : Keeps (fun _ ws _ => ws = [])
      (fun log ws r => ws = [] ∧ ∃ θ, r = .ok θ ∧ ThresholdsFrom d log θ) log []
      ((thresholdsFromDb d).bind fun θ =>
        (Prog.perform (.attempt (.redis (.setex (.alertConfig d) configCacheTtl θ)))).bind
          fun _ => (.pure θ : Prog Cmd Exn Thresholds)) := by
    refine .quiet rfl rfl fun answer => ?_
    cases answer with
    | error e =>
      have hdefaults : ThresholdsFrom d
          (log ++ [⟨_, .attempt (.select (.deviceConfig d)), .error e⟩]) alertThresholds :=
            .defaults (mem_snoc _ _)
      exact .quiet rfl rfl fun _ => hfill _ _ (hdefaults.mono (List.prefix_append ..))
    | ok row =>
      have hstored : ThresholdsFrom d (log ++ [⟨_, .attempt (.select (.deviceConfig d)), .ok row⟩])
          (effectiveThresholds row) := .stored (mem_snoc _ _)
      refine .quiet rfl rfl fun committed => ?_
      have hcommitted := hstored.mono (List.prefix_append _ [⟨_, .attempt .commit, committed⟩])
      cases committed with
      | ok u => exact hfill _ _ hcommitted
      | error e => exact .quiet rfl rfl fun _ => hfill _ _ (hcommitted.mono (List.prefix_append ..))
  refine .quiet rfl rfl fun cached => ?_
  cases cached with
  | error e => exact hmiss _
  | ok cached =>
    cases cached with
    | none => exact hmiss _
    | some θ => exact .pure ⟨rfl, θ, rfl, .cached (mem_snoc _ _)⟩

/-- The loader in a check: nothing is inserted or committed yet. -/
theorem loadThresholds_checks (a : AlertCheck) (ids : ℕ → Uuid) :
    taskMachine.Always (CheckExpects a ids)
      (fun log t r => t.base.written = [] ∧ t.alerts = [] ∧ triedCommit log = false ∧
        ∃ θ, r = .ok θ ∧ Evaluated a log (evaluate θ a))
      [] .idle ((loadThresholds a.deviceId).lift taskEmbedding.cmd) := by
  have hbase := ((loadThresholds_answers a.deviceId).always .idle rfl)
  have hlift := taskEmbedding.always (J := CheckExpects a ids)
    (R := fun log t r => t.base.written = [] ∧ ∃ θ, r = .ok θ ∧ Evaluated a log (evaluate θ a))
    (t := .idle) (fun _ _ _ h => h) (fun log t r h => by
      obtain ⟨ht, θ, hr, hθ⟩ := h
      exact ⟨ht, θ, hr, θ, (baseLog_map log).symm ▸ hθ, rfl⟩) hbase
  -- The commands of the loader are none that count.
  have hquiet : taskMachine.Always (fun _ _ _ => True)
      (fun log t _ => t.alerts = [] ∧ triedCommit log = false) [] .idle
      ((loadThresholds a.deviceId).lift taskEmbedding.cmd) :=
    taskEmbedding.always_lift (J := fun (log : TaskLog) t =>
      t.alerts = [] ∧ triedCommit log = false)
      (fun _ _ _ _ => trivial) (fun log t c x w h => ⟨h.1, by rw [triedCommit_snoc, h.2]; rfl⟩) _
      ⟨rfl, rfl⟩
  exact (Machine.Always.and hlift hquiet).imp (fun _ _ _ _ h => h.1)
    fun _ _ _ h => ⟨h.1.1, h.2.1, h.2.2, h.1.2⟩

/-! ## The rows and the pushes -/

/-- The rollback of a session that has failed. -/
theorem rollback_checks {P : TaskLog → Prop} (hl : log₀ <+: log) (hf : taskFailed log = true) :
    taskMachine.Always (CheckExpects a ids)
      (fun log t r => r = .ok () ∧ log₀ <+: log ∧ t.alerts = [] ∧ (taskFailed log = true ∨ P log))
      log t (.cmd .rollback fun _ => (.pure () : Prog TaskCmd Exn Unit)) := by
  refine ⟨hf, fun x w => ⟨rfl, hl.trans (List.prefix_append ..), ?_, .inl ?_⟩⟩
  · rw [rollback_exec]
  · exact taskFailed_mono (List.prefix_append ..) hf

theorem persistAlerts_checks (he : Evaluated a log alerts) (hne : alerts ≠ []) (hts : a.At ts)
    (ht : t.alerts = []) (htried : triedCommit log = false) :
    taskMachine.Always (CheckExpects a ids)
      (fun log' t r => r = .ok () ∧ log <+: log' ∧ t.alerts = [] ∧ (taskFailed log' = true ∨
        ⟨_, .insertAlertEvents a.deviceId ts (withIds ids alerts), .ok ()⟩ ∈ log'))
      log t (persistAlerts a.deviceId alerts ts ids) := by
  rw [persistAlerts, if_neg hne]
  refine ⟨⟨ht, htried, rfl, hts, alerts, he, rfl⟩, fun x w => ?_⟩
  generalize taskMachine.exec x (.insertAlertEvents _ _ _) t w = res
  obtain ⟨answer, t', w'⟩ := res
  cases answer with
  | error e => exact rollback_checks (List.prefix_append ..) (taskFailed_snoc rfl)
  | ok u =>
    refine ⟨fun _ => by rw [triedCommit_snoc, htried]; rfl, fun x w => ?_⟩
    have hgrows (e : Event TaskCmd) : log <+: (log ++ [⟨_, .insertAlertEvents a.deviceId
        ts (withIds ids alerts), .ok u⟩]) ++ [e] :=
      (List.prefix_append ..).trans (List.prefix_append ..)
    cases x with
    | ok => exact ⟨rfl, hgrows _, rfl, .inr (List.mem_append_left _ (mem_snoc _ _))⟩
    | fault | lost => exact rollback_checks (hgrows _) (taskFailed_snoc rfl)

theorem sendPushes_checks {ps : List PushNotification} (hps : ∀ p ∈ ps, PushedFor a log p)
    (ht : t.alerts = []) :
    taskMachine.Always (CheckExpects a ids)
      (fun log' t r => r = .ok () ∧ log <+: log' ∧ t.alerts = [] ∧ (taskFailed log' = true ∨
        ∀ p ∈ ps, p ∈ taskPushes log')) log t (sendPushes ps) := by
  induction ps generalizing log t with
  | nil => exact ⟨rfl, List.prefix_rfl, ht, .inr (fun p hp => absurd hp List.not_mem_nil)⟩
  | cons p ps ih =>
    refine ⟨hps p List.mem_cons_self, fun x w => ?_⟩
    have hlog (e : Event TaskCmd) : log <+: log ++ [e] := List.prefix_append ..
    cases x with
    | ok =>
      refine (ih (fun p' hp' => (hps p' (List.mem_cons_of_mem _ hp')).mono (hlog _)) ht).mono
        fun log' t r h => ⟨h.1, (hlog _).trans h.2.1, h.2.2.1,
          h.2.2.2.imp_right fun hall p' hp' => ?_⟩
      rcases List.mem_cons.mp hp' with rfl | hp'
      · refine taskPushes_mono h.2.1 ?_
        rw [taskPushes, List.filterMap_append]
        exact mem_snoc _ _
      · exact hall p' hp'
    | fault | lost => exact ⟨rfl, hlog _, ht, .inl (taskFailed_snoc rfl)⟩

theorem dispatchPushes_checks (he : Evaluated a log alerts) (hne : alerts ≠ [])
    (ht : t.alerts = []) :
    taskMachine.Always (CheckExpects a ids)
      (fun log' t r => r = .ok () ∧ log <+: log' ∧ t.alerts = [] ∧ (taskFailed log' = true ∨
        ∃ members, ⟨_, .memberTokens a.deviceId, .ok members⟩ ∈ log' ∧
          ∀ member ∈ members, pushNotification a.deviceId alerts member ∈ taskPushes log'))
      log t (dispatchPushes a.deviceId alerts) := by
  refine ⟨trivial, fun x w => ?_⟩
  have ht' : (taskMachine.exec x (.memberTokens a.deviceId) t w).2.1.alerts = [] := by
    cases x <;> exact ht
  generalize taskMachine.exec x (.memberTokens a.deviceId) t w = res at ht'
  obtain ⟨answer, t', w'⟩ := res
  cases answer with
  | error e => exact rollback_checks (List.prefix_append ..) (taskFailed_snoc rfl)
  | ok members =>
    refine ⟨fun hsome => absurd ht' hsome, fun x w => ?_⟩
    have hgrows (e : Event TaskCmd) :
        log <+: (log ++ [⟨_, .memberTokens a.deviceId, .ok members⟩]) ++ [e] :=
      (List.prefix_append ..).trans (List.prefix_append ..)
    have hfound (e : Event TaskCmd) : (⟨_, .memberTokens a.deviceId, .ok members⟩ : Event TaskCmd) ∈
        (log ++ [⟨_, .memberTokens a.deviceId, .ok members⟩]) ++ [e] :=
      List.mem_append_left _ (mem_snoc _ _)
    cases x with
    | ok =>
      refine (sendPushes_checks (t := { t' with alerts := [] }) (fun p hp => ?_) rfl).mono
        fun log' t r h => ⟨h.1, (hgrows _).trans h.2.1, h.2.2.1, h.2.2.2.imp_right fun hall =>
          ⟨members, h.2.1.subset (hfound _), fun member hmem => hall _ (List.mem_map_of_mem hmem)⟩⟩
      obtain ⟨member, hmem, rfl⟩ := List.mem_map.mp hp
      exact ⟨alerts, members, member, he.mono (hgrows _), hne, hfound _, hmem, rfl⟩
    | fault | lost => exact rollback_checks (hgrows _) (taskFailed_snoc rfl)

theorem alertTime_checks (r : IsoText) (hbase : t.base.written = []) (ht : t.alerts = [])
    (htried : triedCommit log = false) :
    taskMachine.Always (CheckExpects a ids)
      (fun log' t res => log <+: log' ∧ t.alerts = [] ∧ triedCommit log' = false ∧
        match res with
        | .ok ts => ∀ t', r = .datetime t' → ts = t'.instant
        | .error _ => r = .malformed) log t (alertTime r) := by
  cases r with
  | absent =>
    refine ⟨hbase, fun x w => ⟨List.prefix_append .., ht, ?_, fun t' h => by cases h⟩⟩
    rw [triedCommit_snoc, htried]
    rfl
  | datetime t' => exact ⟨List.prefix_rfl, ht, htried, fun t'' h => by cases h; rfl⟩
  | malformed => exact ⟨List.prefix_rfl, ht, htried, rfl⟩

/-- What the check does when there are alerts. -/
theorem handleAlerts_checks (he : Evaluated a log alerts) (hne : alerts ≠ [])
    (hbase : t.base.written = []) (ht : t.alerts = []) (htried : triedCommit log = false) :
    taskMachine.Always (CheckExpects a ids) (fun log t _ => CheckEnds a ids log t) log t
      (handleAlerts a alerts ids) := by
  refine (alertTime_checks a.readingTime hbase ht htried).bind (fun log₀ t ts h => ?_)
    fun log₀ t e h => ⟨h.2.1, .inr (.inl h.2.2.2)⟩
  obtain ⟨hl₀, ht, htried, hts⟩ := h
  have he₀ := he.mono hl₀
  refine (persistAlerts_checks he₀ hne hts ht htried).bind (fun log₁ t _ h => ?_)
    fun _ _ _ h => by cases h.1
  obtain ⟨-, hl₁, ht, hinserted⟩ := h
  have he₁ := he₀.mono hl₁
  refine (dispatchPushes_checks he₁ hne ht).bind (fun log₂ t _ h => ?_) fun _ _ _ h => by cases h.1
  obtain ⟨-, hl₂, ht, hpushed⟩ := h
  refine ⟨ht, ?_⟩
  rcases hinserted with hfailed | hinserted
  · exact .inl (taskFailed_mono hl₂ hfailed)
  · exact hpushed.imp_right fun hpushed =>
      .inr ⟨alerts, he₁.mono hl₂, fun _ => ⟨⟨ts, hts, hl₂.subset hinserted⟩, hpushed⟩⟩

/-- **The check of a reading**, whatever its commands answer. -/
theorem processTelemetryAlertCheck_checks (a : AlertCheck) (ids : ℕ → Uuid) :
    taskMachine.Always (CheckExpects a ids) (fun log t _ => CheckEnds a ids log t) [] .idle
      (processTelemetryAlertCheck a ids) := by
  refine Machine.Always.tryCatch (Q := fun log t _ => CheckEnds a ids log t) ?_
    (fun _ _ _ h => h) fun _ _ _ h => h
  refine (loadThresholds_checks a ids).bind (fun log t θ h => ?_) fun log t e h => ?_
  · obtain ⟨hbase, ht, htried, θ, hθ, he⟩ := h
    cases hθ
    dsimp only
    split
    · rename_i hnil
      exact ⟨ht, .inr (.inr ⟨_, he, fun hne => absurd hnil hne⟩)⟩
    · rename_i hne
      exact handleAlerts_checks he hne hbase ht htried
  · obtain ⟨-, -, -, θ, hθ, -⟩ := h
    cases hθ

/-! ## What a check knows -/

/-- A row of the check: one of the alerts that its thresholds make of the reading. -/
def AlertRow (a : AlertCheck) (ids : ℕ → Uuid) (log : TaskLog) (r : Uuid × AlertEvent) : Prop :=
  ∃ alerts al ts now, Evaluated a log alerts ∧ a.At ts ∧ al ∈ withIds ids alerts ∧
    r = (al.1, alertEvent a.deviceId ts now al.2)

/-- The inserted rows have the first of the keys; the pushes are those that were handed over. -/
structure CheckKnows (a : AlertCheck) (ids : ℕ → Uuid) (log : TaskLog) (t : TaskSession) :
    Prop where
  keys : ∃ n, t.alerts.map Prod.fst = (List.range n).map ids
  rows : ∀ r ∈ t.alerts, AlertRow a ids log r
  pushes : ∀ p ∈ taskPushes log, PushedFor a log p

theorem AlertRow.mono {r : Uuid × AlertEvent} (h : log <+: log') (H : AlertRow a ids log r) :
    AlertRow a ids log' r := by
  obtain ⟨alerts, al, ts, now, he, hts, hal, hr⟩ := H
  exact ⟨alerts, al, ts, now, he.mono h, hts, hal, hr⟩

theorem CheckKnows.nil (t : TaskSession) (ht : t.alerts = []) : CheckKnows a ids [] t where
  keys := ⟨0, by rw [ht]; rfl⟩
  rows r hr := absurd (ht ▸ hr) List.not_mem_nil
  pushes p hp := absurd hp List.not_mem_nil

/-- The rows that an INSERT adds to the session. -/
def TaskCmd.inserts (now : Time) : {β : Type} → TaskCmd β → List (Uuid × AlertEvent)
  | _, .insertAlertEvents d ts rows => rows.map fun al => (al.1, alertEvent d ts now al.2)
  | _, _ => []

/-- The session is as before, or without rows, or has the rows that an INSERT has added. -/
theorem exec_rows (x : Choice) (cm : TaskCmd β) (t : TaskSession) (w : World) :
    (taskMachine.exec x cm t w).2.1.alerts = t.alerts ∨
      (taskMachine.exec x cm t w).2.1.alerts = [] ∨
      (taskMachine.exec x cm t w).2.1.alerts = t.alerts ++ cm.inserts w.now := by
  cases cm with
  | base c => exact .inl rfl
  | memberTokens d | sendPush p => cases x <;> exact .inl rfl
  | commit =>
    cases x with
    | fault => exact .inl rfl
    | ok | lost => exact .inr (.inl rfl)
  | rollback => cases x <;> exact .inr (.inl rfl)
  | insertAlertEvents d ts rows =>
    simp only [taskMachine, TaskCmd.exec]
    split
    · cases x <;> exact .inl rfl
    · cases x with
      | fault => exact .inl rfl
      | ok | lost => exact .inr (.inr rfl)

/-- What the INSERT of a check adds. -/
theorem CheckExpects.inserts {cm : TaskCmd β} (he : CheckExpects a ids log t cm) (now : Time) :
    cm.inserts now = [] ∨ t.alerts = [] ∧ ∃ alerts ts, Evaluated a log alerts ∧ a.At ts ∧
      cm.inserts now = (withIds ids alerts).map fun al =>
        (al.1, alertEvent a.deviceId ts now al.2) := by
  cases cm with
  | insertAlertEvents d ts rows =>
    obtain ⟨ht, -, rfl, hts, alerts, halerts, rfl⟩ := he
    exact .inr ⟨ht, alerts, ts, halerts, hts, rfl⟩
  | _ => exact .inl rfl

theorem CheckKnows.step {cm : TaskCmd β} {x : Choice} {w : World} (h : CheckKnows a ids log t)
    (he : CheckExpects a ids log t cm) :
    CheckKnows a ids (log ++ [⟨_, cm, (taskMachine.exec x cm t w).1⟩])
      (taskMachine.exec x cm t w).2.1 := by
  have hl : log <+: log ++ [⟨_, cm, (taskMachine.exec x cm t w).1⟩] := List.prefix_append ..
  have hpushes : ∀ p ∈ taskPushes (log ++ [⟨_, cm, (taskMachine.exec x cm t w).1⟩]),
      PushedFor a (log ++ [⟨_, cm, (taskMachine.exec x cm t w).1⟩]) p := by
    intro p hp
    rw [taskPushes, List.filterMap_append] at hp
    rcases List.mem_append.mp hp with hp | hp
    · exact (h.pushes p hp).mono hl
    · cases cm with
      | sendPush p' =>
        obtain rfl := List.mem_singleton.mp hp
        exact PushedFor.mono hl he
      | _ => cases hp
  have hsame (hrows : (taskMachine.exec x cm t w).2.1.alerts = t.alerts) :=
    CheckKnows.mk (by rw [hrows]; exact h.keys) (fun r hr => (h.rows r (hrows ▸ hr)).mono hl)
      hpushes
  rcases exec_rows x cm t w with hrows | hrows | hrows
  · exact hsame hrows
  · exact ⟨⟨0, by rw [hrows]; rfl⟩, fun r hr => absurd (hrows ▸ hr) List.not_mem_nil, hpushes⟩
  · rcases he.inserts w.now with hnone | ⟨ht, alerts, ts, halerts, hts, hinserts⟩
    · exact hsame (by rw [hrows, hnone, List.append_nil])
    rw [ht, List.nil_append, hinserts] at hrows
    refine ⟨⟨alerts.length, ?_⟩, fun r hr => ?_, hpushes⟩
    · rw [hrows, List.map_map, ← withIds_fst ids alerts]
      rfl
    · rw [hrows] at hr
      obtain ⟨al, hal, rfl⟩ := List.mem_map.mp hr
      exact ⟨alerts, al, ts, w.now, halerts.mono hl, hts, hal, rfl⟩

end

end Rawbin
