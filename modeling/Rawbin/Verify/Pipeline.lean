import Rawbin.Library.Coupled
import Rawbin.Verify.CheckedReadings
import Rawbin.Verify.AlertBands
import Rawbin.Verify.Notified
import Rawbin.Verify.StoredReadings

/-!
# From a message of the broker to the phone

The listener and the workers beside each other: a coroutine stores the reading of a message that the
client accepted and enqueues its check, a worker runs checks that were enqueued, and a push that a
check has handed over is sent. Any of these may fail, or be delivered again, at any time.
-/

namespace Rawbin

/-- The listener stores what the client makes of the messages of the broker. -/
def listens (M : MqttIngestionClient) (msgs : List MqttMessage) :
    Label (Option Exn) Telemetry DevicesChange → Bool
  | .spawn m => msgs.any fun msg =>
    M.onMessage msg = .ok (.scheduled m.deviceId m.reading.sensorReadingIn)
  | _ => true

/-- The workers run the checks that a coroutine has enqueued, or tried to: the broker may have them
although the coroutine was told otherwise. -/
def works (c : IngestConfig) (d : PipelineConfig) (l : Label PipelineChoice PipelineJob World) :
    Bool :=
  delivers d l && match l with
    | .spawn (.task (.alertCheck a _)) => c.threads.any fun u => a ∈ attempts u.log
    | _ => true

/-- The configurations that the listener and the workers reach together. -/
abbrev Pipeline (E : Env) (M : MqttIngestionClient) (msgs : List MqttMessage)
    (devices : Table Uuid Device) (w₀ : World) : IngestConfig → PipelineConfig → Prop :=
  System.Coupled ingestion (alertPipeline E) (fun _ _ l => listens M msgs l = true)
    (fun c d l => works c d l = true) (ingestStart devices) ⟨w₀, []⟩

/-! ## The logs of the workers -/

def taskEvent : Event PipelineCmd → Option (Event TaskCmd)
  | ⟨β, .task c, b⟩ => some ⟨β, c, b⟩
  | _ => none

/-- What a worker has seen of the commands of the check. -/
def taskLog (log : PipelineLog) : TaskLog := log.filterMap taskEvent

def sentMessages (log : PipelineLog) : List FcmMessage := log.filterMap fun
  | ⟨_, .notify (.send message), _⟩ => some message
  | _ => none

namespace PipelineJob

def expects : PipelineJob → {β : Type} → PipelineLog → TaskSession → PipelineCmd β → Prop
  | .task (.alertCheck a ids), _, log, t, .task c => CheckExpects a ids (taskLog log) t c
  | .task (.job _), _, _, _, .task (.base _) => True
  | .push _ _ _, _, _, _, .notify .getFirebaseApp => True
  | .push _ p _, _, _, _, .notify (.send message) => message = p.message
  | _, _, _, _, _ => False

def ends : PipelineJob → PipelineLog → TaskSession → Except Exn PipelineOutcome → Prop
  | .task (.alertCheck a ids), log, t, _ => CheckEnds a ids (taskLog log) t
  | .task (.job _), _, _, _ => True
  | .push _ _ _, _, _, r => ∃ result, r = .ok (.push result)

/-- Only a check has rows and hands pushes over, and only a call of the push task sends. -/
def knows : PipelineJob → PipelineLog → TaskSession → Prop
  | .task (.alertCheck a ids), log, t => CheckKnows a ids (taskLog log) t ∧ sentMessages log = []
  | .task (.job _), log, t => t.alerts = [] ∧ handedOver log = [] ∧ sentMessages log = []
  | .push _ p _, log, t => t.alerts = [] ∧ handedOver log = [] ∧
    ∀ message ∈ sentMessages log, message = p.message

end PipelineJob

section
variable {E : Env} {log : PipelineLog} {t : TaskSession} {a : AlertCheck} {ids : ℕ → Uuid}

theorem handedOver_eq (log : PipelineLog) : handedOver log = taskPushes (taskLog log) := by
  rw [handedOver, taskPushes, taskLog, List.filterMap_filterMap]
  congr 1
  funext e
  obtain ⟨β, cm, b⟩ := e
  cases cm with
  | task c => cases c <;> rfl
  | notify c => rfl

/-- The commands of a check among those of the workers. -/
def pipelineEmbedding (E : Env) :
    Machine.Embedding (taskMachine.comap PipelineChoice.task) (alertPipeline E).toMachine where
  cmd := .task
  get t := t
  put _ u := u
  get_put _ _ := rfl
  put_put _ _ _ := rfl
  put_get _ := rfl
  exec _ _ _ _ := rfl

theorem taskLog_map (log : TaskLog) : taskLog (log.map (pipelineEmbedding E).event) = log := by
  induction log with
  | nil => rfl
  | cons e log ih => exact congrArg (e :: ·) ih

/-- An assertion about a job or a check, among the workers. -/
theorem TaskJob.pipeline {I : {β : Type} → TaskLog → TaskSession → TaskCmd β → Prop}
    {Q : TaskLog → TaskSession → Except Exn TaskOutcome → Prop} {j : TaskJob}
    (h : taskMachine.Always I Q [] .idle (j.prog E))
    (hI : ∀ {β : Type} (log : PipelineLog) (t : TaskSession) (c : TaskCmd β), I (taskLog log) t c →
      (PipelineJob.task j).expects log t (.task c))
    (hQ : ∀ log t r r', Q (taskLog log) t r → (PipelineJob.task j).ends log t r') :
    (alertPipeline E).Always (PipelineJob.task j).expects (PipelineJob.task j).ends [] .idle
      (PipelineJob.prog E (.task j)) := by
  have hlift := (pipelineEmbedding E).always (J := (PipelineJob.task j).expects)
    (R := fun log t r => Q (taskLog log) t r) (t := .idle)
    (fun log t c h => hI _ t c (by rw [taskLog_map]; exact h))
    (fun log t r h => by rw [taskLog_map]; exact h) (h.comap PipelineChoice.task)
  exact hlift.bind (fun _ _ _ h => hQ _ _ _ _ h) fun _ _ _ h => hQ _ _ _ _ h

theorem task_pipeline (j : TaskJob) :
    (alertPipeline E).Always (PipelineJob.task j).expects (PipelineJob.task j).ends [] .idle
      (PipelineJob.prog E (.task j)) := by
  cases j with
  | alertCheck a ids =>
    have hcheck : taskMachine.Always (CheckExpects a ids) (fun log t _ => CheckEnds a ids log t)
        [] .idle (TaskJob.prog E (.alertCheck a ids)) :=
      (processTelemetryAlertCheck_checks a ids).bind (fun _ _ _ h => h) fun _ _ _ h => h
    exact TaskJob.pipeline hcheck (fun _ _ _ h => h) fun _ _ _ _ h => h
  | job j =>
    have hbase : taskMachine.Always (fun {β} _ _ c => ∃ c' : Cmd β, c = .base c')
        (fun _ _ _ => True)
        [] .idle ((j.prog E).lift taskEmbedding.cmd) :=
      taskEmbedding.always_lift (J := fun _ _ => True) (fun _ _ c _ => ⟨c, rfl⟩)
        (fun _ _ _ _ _ _ => trivial) _ trivial
    have hjob : taskMachine.Always (fun {β} _ _ c => ∃ c' : Cmd β, c = .base c') (fun _ _ _ => True)
        [] .idle (TaskJob.prog E (.job j)) :=
      hbase.bind (fun _ _ _ _ => trivial) fun _ _ _ _ => trivial
    refine TaskJob.pipeline hjob (fun log t c h => ?_) fun _ _ _ _ _ => trivial
    obtain ⟨c', rfl⟩ := h
    trivial

theorem push_pipeline (i : ℕ) (p : PushNotification) (n : ℕ) :
    (alertPipeline E).Always (PipelineJob.push i p n).expects (PipelineJob.push i p n).ends
      [] .idle (PipelineJob.prog E (.push i p n)) := by
  refine ⟨trivial, ?_⟩
  rintro ⟨_, firebaseApp, _⟩ w
  cases firebaseApp with
  | false => exact ⟨.stub, rfl⟩
  | true =>
    refine ⟨rfl, ?_⟩
    rintro ⟨_, _, fcm⟩ w
    cases fcm with
    | ok messageId => exact ⟨.sent messageId, rfl⟩
    | error exception =>
      show (alertPipeline E).Always _ _ _ _ (Prog.bind (Prog.lift _ (ite _ _ _)) _)
      split
      · exact ⟨.failed, rfl⟩
      · exact ⟨selfRetry exception n, rfl⟩

theorem pipeline_expects (r : PipelineJob) :
    (alertPipeline E).Always r.expects r.ends [] .idle (r.prog E) := by
  cases r with
  | task j => exact task_pipeline j
  | push i p n => exact push_pipeline i p n

theorem pipeline_knows_nil (r : PipelineJob) : r.knows [] .idle := by
  cases r with
  | push i p n => exact ⟨rfl, rfl, fun message h => absurd h List.not_mem_nil⟩
  | task j =>
    cases j with
    | job j => exact ⟨rfl, rfl, rfl⟩
    | alertCheck a ids => exact ⟨.nil .idle rfl, rfl⟩

theorem taskLog_snoc (log : PipelineLog) (c : TaskCmd β) (b : β) :
    taskLog (log ++ [⟨β, .task c, b⟩]) = taskLog log ++ [⟨β, c, b⟩] := List.filterMap_append

theorem pipeline_knows_step (r : PipelineJob) (log : PipelineLog) (t : TaskSession)
    (cm : PipelineCmd β) (x : PipelineChoice) (w : World) (he : r.expects log t cm)
    (h : r.knows log t) : r.knows (log ++ [⟨β, cm, ((alertPipeline E).exec x cm t w).1⟩])
      ((alertPipeline E).exec x cm t w).2.1 := by
  have hquiet (e : Event PipelineCmd) (hp : handedOver [e] = []) (hs : sentMessages [e] = []) :
      handedOver (log ++ [e]) = handedOver log ∧ sentMessages (log ++ [e]) = sentMessages log := by
    constructor
    · rw [handedOver, List.filterMap_append, ← handedOver, ← handedOver, hp, List.append_nil]
    · rw [sentMessages, List.filterMap_append, ← sentMessages, ← sentMessages, hs, List.append_nil]
  cases r with
  | push i p n =>
    cases cm with
    | task c => exact he.elim
    | notify c =>
      cases c with
      | getFirebaseApp =>
        obtain ⟨hh, hs⟩ := hquiet ⟨_, .notify .getFirebaseApp, x.firebaseApp⟩ rfl rfl
        exact ⟨h.1, hh.trans h.2.1, fun message hm => h.2.2 message (hs ▸ hm)⟩
      | send message =>
        refine ⟨h.1, ?_, fun message' hm => ?_⟩
        · exact (List.filterMap_append.trans (List.append_nil _)).trans h.2.1
        · rw [sentMessages, List.filterMap_append] at hm
          rcases List.mem_append.mp hm with hm | hm
          · exact h.2.2 message' hm
          · exact (List.mem_singleton.mp hm).trans he
  | task j =>
    cases cm with
    | notify c => cases j <;> exact he.elim
    | task c =>
      cases j with
      | job j =>
        cases c with
        | base c =>
          obtain ⟨hh, hs⟩ := hquiet ⟨β, .task (.base c), ((alertPipeline E).exec x _ t w).1⟩ rfl rfl
          exact ⟨h.1, hh.trans h.2.1, hs.trans h.2.2⟩
        | _ => exact he.elim
      | alertCheck a ids =>
        refine ⟨?_, ?_⟩
        · rw [taskLog_snoc]
          exact h.1.step he
        · exact (List.filterMap_append.trans (List.append_nil _)).trans h.2

/-! ## What a run of the workers keeps -/

/-- Every job of the workers knows what it has done. -/
theorem pipeline_knows {ok : PipelineConfig → Label PipelineChoice PipelineJob World → Prop}
    {w₀ : World} {d : PipelineConfig} (H : (alertPipeline E).Run ok ⟨w₀, []⟩ d) :
    ∀ t ∈ d.threads, t.req.knows t.log t.sess :=
  H.known (I := PipelineJob.expects) (Q := PipelineJob.ends) rfl
    (fun _ r _ => pipeline_expects r) pipeline_knows_nil
    fun r _ log _ cm x w he h => pipeline_knows_step r log _ cm x w he h

theorem pipeline_always {ok : PipelineConfig → Label PipelineChoice PipelineJob World → Prop}
    {w₀ : World} {d : PipelineConfig} (H : (alertPipeline E).Run ok ⟨w₀, []⟩ d) :
    ∀ t ∈ d.threads, (alertPipeline E).Always t.req.expects t.req.ends t.log t.sess t.prog :=
  H.always (fun _ ht => absurd ht List.not_mem_nil) fun _ r _ => pipeline_expects r

/-- Only a commit of a check changes the alert rows: those of its session join them. -/
theorem pipeline_alertEvents (x : PipelineChoice) (cm : PipelineCmd β) (t : TaskSession)
    (w : World) :
    ((alertPipeline E).exec x cm t w).2.2.db.alertEvents = w.db.alertEvents ∨
      ((alertPipeline E).exec x cm t w).2.2.db.alertEvents =
        w.db.alertEvents.insertAll t.alerts := by
  cases cm with
  | notify c => cases c <;> exact .inl rfl
  | task c => exact (exec_alertEvents x.task c t w).imp_right And.right

/-- The rows in a session are those of a check. -/
theorem PipelineJob.knows_rows {r : PipelineJob} {e : Uuid × AlertEvent} (h : r.knows log t)
    (he : e ∈ t.alerts) :
    ∃ a ids, r = .task (.alertCheck a ids) ∧ AlertRow a ids (taskLog log) e := by
  cases r with
  | push i p n => exact absurd (h.1 ▸ he) List.not_mem_nil
  | task j =>
    cases j with
    | job j => exact absurd (h.1 ▸ he) List.not_mem_nil
    | alertCheck a ids => exact ⟨a, ids, rfl, h.1.rows e he⟩

/-- The pushes that were handed over are those of a check. -/
theorem PipelineJob.knows_pushes {r : PipelineJob} {p : PushNotification} (h : r.knows log t)
    (hp : p ∈ handedOver log) :
    ∃ a ids, r = .task (.alertCheck a ids) ∧ PushedFor a (taskLog log) p := by
  cases r with
  | push i p n => exact absurd (h.2.1 ▸ hp) List.not_mem_nil
  | task j =>
    cases j with
    | job j => exact absurd (h.2.1 ▸ hp) List.not_mem_nil
    | alertCheck a ids => exact ⟨a, ids, rfl, h.1.pushes p (handedOver_eq log ▸ hp)⟩

/-- Only a call of the push task sends, and only the message of its push. -/
theorem PipelineJob.knows_sent {r : PipelineJob} {message : FcmMessage} (h : r.knows log t)
    (hm : message ∈ sentMessages log) : ∃ i p n, r = .push i p n ∧ message = p.message := by
  cases r with
  | push i p n => exact ⟨i, p, n, rfl, h.2.2 message hm⟩
  | task j =>
    cases j with
    | job j => exact absurd (h.2.2 ▸ hm) List.not_mem_nil
    | alertCheck a ids => exact absurd (h.2 ▸ hm) List.not_mem_nil

/-- **Every committed alert row is one of a check.** -/
theorem rows_traced {ok : PipelineConfig → Label PipelineChoice PipelineJob World → Prop}
    {w₀ : World} {d : PipelineConfig} {id : Uuid} {row : AlertEvent}
    (h₀ : w₀.db.alertEvents = .empty) (H : (alertPipeline E).Run ok ⟨w₀, []⟩ d)
    (hrow : d.state.db.alertEvents.get? id = some row) :
    ∃ t ∈ d.threads, ∃ a ids, t.req = .task (.alertCheck a ids) ∧
      AlertRow a ids (taskLog t.log) (id, row) := by
  induction H with
  | refl =>
    rw [h₀] at hrow
    cases hrow
  | @step c l c' H hok hs ih =>
    -- The rows of before, and the rows of the session that is committed.
    have hstays (h : ∃ t ∈ c.threads, ∃ a ids, t.req = .task (.alertCheck a ids) ∧
        AlertRow a ids (taskLog t.log) (id, row)) := hs.exists_thread
      (P := fun r log => ∃ a ids, r = .task (.alertCheck a ids) ∧
        AlertRow a ids (taskLog log) (id, row))
      (fun r log log' hl h => by
        obtain ⟨a, ids, hr, hrow⟩ := h
        exact ⟨a, ids, hr, hrow.mono (hl.filterMap _)⟩) h
    cases hs with
    | spawn r => exact hstays (ih hrow)
    | env e => exact hstays (ih hrow)
    | @step ts i s β cm k t x hi hp hb =>
      have ht := List.mem_of_getElem? hi
      have hrow : ((alertPipeline E).exec x cm t.sess s).2.2.db.alertEvents.get? id = some row :=
        hrow
      rcases pipeline_alertEvents x cm t.sess s with hsame | hnew
      · exact hstays (ih (hsame ▸ hrow))
      · rw [hnew] at hrow
        rcases Table.get?_of_insertAll hrow with hold | hnew
        · exact hstays (ih hold)
        · exact hstays ⟨t, ht, PipelineJob.knows_rows (pipeline_knows H t ht) hnew⟩

/-! ## The moments of a check -/

/-- Task `i` was answered this event when the world had this property. -/
abbrev SeenAt (E : Env) (w₀ : World) (d : PipelineConfig) (i : ℕ) (e : Event PipelineCmd)
    (P : World → Prop) : Prop :=
  (alertPipeline E).AnsweredAt (fun c l => delivers c l = true) ⟨w₀, []⟩ d i e P

/-- Where the thresholds of check `i` come from: when it asked the cache, the cache had them; or
when it read the row of the configuration, the row made them; or it could not read the row, and they
are the defaults. -/
inductive LoadedIn (E : Env) (w₀ : World) (d : PipelineConfig) (i : ℕ) (deviceId : Uuid) :
    Thresholds → Prop where
  | cached {θ : Thresholds}
    (h : SeenAt E w₀ d i
      ⟨_, .task (.base (.attempt (.redis (.get (.alertConfig deviceId))))), .ok (some θ)⟩
      fun w => w.redis.get w.now (.alertConfig deviceId) = some θ) :
    LoadedIn E w₀ d i deviceId θ
  | stored {row : Option DeviceConfig}
    (h : SeenAt E w₀ d i
      ⟨_, .task (.base (.attempt (.select (.deviceConfig deviceId)))), .ok row⟩
      fun w => row = w.db.deviceConfigs.get? deviceId) :
    LoadedIn E w₀ d i deviceId (effectiveThresholds row)
  | defaults {e : Exn}
    (h : SeenAt E w₀ d i
      ⟨_, .task (.base (.attempt (.select (.deviceConfig deviceId)))), .error e⟩ fun _ => True) :
    LoadedIn E w₀ d i deviceId alertThresholds

theorem mem_taskLog {e : Event TaskCmd} (h : e ∈ taskLog log) : ⟨_, .task e.cmd, e.ans⟩ ∈ log := by
  obtain ⟨⟨β, cm, b⟩, he, hsome⟩ := List.mem_filterMap.mp h
  cases cm with
  | task c =>
    cases hsome
    exact he
  | notify c => cases hsome

theorem mem_baseLog {log : TaskLog} {e : Event Cmd} (h : e ∈ baseLog log) :
    ⟨_, .base e.cmd, e.ans⟩ ∈ log := by
  obtain ⟨⟨β, cm, b⟩, he, hsome⟩ := List.mem_filterMap.mp h
  cases cm with
  | base c =>
    cases hsome
    exact he
  | _ => cases hsome

section
variable {w₀ : World} {d : PipelineConfig} {t : PipelineThread} {i : ℕ}

/-- What a check was answered when it read the tokens. -/
theorem members_seenAt {members : List (Uuid × String)} {deviceId : Uuid}
    (H : (alertPipeline E).Run (fun c l => delivers c l = true) ⟨w₀, []⟩ d)
    (hi : d.threads[i]? = some t)
    (h : ⟨_, .memberTokens deviceId, .ok members⟩ ∈ taskLog t.log) :
    SeenAt E w₀ d i ⟨_, .task (.memberTokens deviceId), .ok members⟩
      fun w => members = w.db.memberTokens deviceId := by
  refine H.answeredAt rfl hi (mem_taskLog h) fun c₁ t₁ x β cm k _ _ _ _ he => ?_
  generalize ha : ((alertPipeline E).exec x cm t₁.sess c₁.state).1 = b at he
  cases he
  obtain ⟨x, _, _⟩ := x
  cases x with
  | ok => exact (Except.ok.inj ha).symm
  | fault | lost => cases ha

/-- What a worker was answered to a command that is inside a `try`, when it did not fail. -/
theorem attempt_seenAt {β : Type} {cm : Cmd β} {b : β} {P : World → Prop}
    (H : (alertPipeline E).Run (fun c l => delivers c l = true) ⟨w₀, []⟩ d)
    (hi : d.threads[i]? = some t) (h : ⟨_, .attempt cm, .ok b⟩ ∈ baseLog (taskLog t.log))
    (hP : ∀ (log : PipelineLog) (s : TaskSession) (w : World),
      t.req.expects log s (.task (.base (.attempt cm))) → (cm.exec .ok s.base w).1 = b → P w) :
    SeenAt E w₀ d i ⟨_, .task (.base (.attempt cm)), .ok b⟩ P := by
  refine H.answeredAt rfl hi (mem_taskLog (mem_baseLog h))
    fun c₁ t₁ x β cm' k H₁ ht₁ hreq hp he => ?_
  have halways := pipeline_always H₁ t₁ ht₁
  rw [hp, hreq] at halways
  have hexpects := halways.1
  generalize ha : ((alertPipeline E).exec x cm' t₁.sess c₁.state).1 = a at he
  cases he
  obtain ⟨x, _, _⟩ := x
  cases x with
  | ok => exact hP _ _ _ hexpects (Except.ok.inj ha)
  | fault | lost => cases ha

theorem ThresholdsFrom.loadedIn {θ : Thresholds}
    (H : (alertPipeline E).Run (fun c l => delivers c l = true) ⟨w₀, []⟩ d)
    (hi : d.threads[i]? = some t) (hr : t.req = .task (.alertCheck a ids))
    (h : ThresholdsFrom a.deviceId (baseLog (taskLog t.log)) θ) :
    LoadedIn E w₀ d i a.deviceId θ := by
  cases h with
  | defaults h =>
    exact .defaults (H.answeredAt rfl hi (mem_taskLog (mem_baseLog h)) fun _ _ _ _ _ _ _ _ _ _ _ =>
      trivial)
  | cached h => exact .cached (attempt_seenAt H hi h fun _ _ _ _ ha => ha)
  | stored h =>
    refine .stored (attempt_seenAt H hi h fun log s w he ha => ?_)
    rw [hr] at he
    have hwritten : s.base.written = [] := he
    rw [← ha]
    show (s.base.view w.db).deviceConfigs.get? a.deviceId = _
    rw [Session.view_of_nil hwritten]

end

/-! ## The listener -/

/-- A reading that the client made of a message, and that is stored. -/
structure StoredMessage (M : MqttIngestionClient) (msgs : List MqttMessage) (c : IngestConfig)
    (m : Telemetry) : Prop where
  accepted : ∃ msg ∈ msgs, M.onMessage msg = .ok (.scheduled m.deviceId m.reading.sensorReadingIn)
  stored : c.state.sensorReadings.get? m.key = some m.row

section
variable {M : MqttIngestionClient} {msgs : List MqttMessage} {devices : Table Uuid Device}
variable {w₀ : World} {c : IngestConfig} {d : PipelineConfig}

theorem listener_accepted
    (H : ingestion.Run (fun _ l => listens M msgs l = true) (ingestStart devices) c) :
    ∀ u ∈ c.threads, ∃ msg ∈ msgs,
      M.onMessage msg = .ok (.scheduled u.req.deviceId u.req.reading.sensorReadingIn) := by
  refine H.invariant (P := fun c => ∀ u ∈ c.threads, ∃ msg ∈ msgs,
    M.onMessage msg = .ok (.scheduled u.req.deviceId u.req.reading.sensorReadingIn))
    (fun u hu => absurd hu List.not_mem_nil) fun c l c' h hok hs => ?_
  refine hs.thread_cases h (fun m hm => ?_) fun {β cm k u x} hu _ => h u hu
  subst hm
  obtain ⟨msg, hmsg, hm⟩ := List.any_eq_true.mp hok
  exact ⟨msg, hmsg, of_decide_eq_true hm⟩

/-- A check that was enqueued is the one of a reading that is stored. -/
theorem listener_stored {u : Coroutine}
    (H : ingestion.Run (fun _ l => listens M msgs l = true) (ingestStart devices) c)
    (hu : u ∈ c.threads) (ha : a ∈ attempts u.log) :
    a = u.req.alertCheck ∧ StoredMessage M msgs c u.req := by
  obtain ⟨hexpecting, hconsistent⟩ := ingest_invariant H
  have hattempts := hexpecting.attempts hu
  cases hc : hasCommitted u.log with
  | false =>
    rw [hattempts.2 hc] at ha
    cases ha
  | true =>
    rcases hattempts.1 hc with hone | ⟨hnone, _⟩
    · rw [hone] at ha
      exact ⟨List.mem_singleton.mp ha, listener_accepted H u hu, (hconsistent.each u hu).stored hc⟩
    · rw [hnone] at ha
      cases ha

theorem Pipeline.listener (H : Pipeline E M msgs devices w₀ c d) :
    ingestion.Run (fun _ l => listens M msgs l = true) (ingestStart devices) c :=
  H.left_run fun _ _ _ h => h

theorem Pipeline.workers (H : Pipeline E M msgs devices w₀ c d) :
    (alertPipeline E).Run (fun c l => delivers c l = true) ⟨w₀, []⟩ d :=
  H.right_run fun _ _ _ h => (Bool.and_eq_true_iff.mp h).1

/-- **Every check is one of a stored reading.** -/
theorem Pipeline.checks {t : PipelineThread} (H : Pipeline E M msgs devices w₀ c d)
    (ht : t ∈ d.threads) (hr : t.req = .task (.alertCheck a ids)) :
    ∃ m, StoredMessage M msgs c m ∧ a = m.alertCheck := by
  have hasked := H.asked (P := fun c r => ∀ a ids, r = .task (.alertCheck a ids) →
      ∃ u ∈ c.threads, a ∈ attempts u.log) rfl (fun c d r hok a ids hr => ?_)
    (fun c d l c' r _ hs h a ids hr => ?_)
  · obtain ⟨u, hu, ha⟩ := hasked t ht a ids hr
    obtain ⟨ha, hstored⟩ := listener_stored H.listener hu ha
    exact ⟨u.req, hstored, ha⟩
  · subst hr
    obtain ⟨u, hu, ha⟩ := List.any_eq_true.mp (Bool.and_eq_true_iff.mp hok).2
    exact ⟨u, hu, of_decide_eq_true ha⟩
  · exact hs.exists_thread (P := fun _ log => a ∈ attempts log)
      (fun _ _ _ hl ha => (hl.sublist.filterMap _).subset ha) (h a ids hr)

/-! ## Where an alert and a push come from -/

/-- The row reports a value of the reading that is outside its band. -/
structure Justifies (m : Telemetry) (θ : Thresholds) (row : AlertEvent) : Prop where
  deviceId : row.deviceId = m.deviceId
  readingTime : row.readingTime = m.reading.time.instant
  band : ∃ metric : AlertMetric, row.metric = metric.name ∧
    metric.measured m.alertCheck = some (.real row.value) ∧
    metric.Violates θ row.value row.threshold

/-- Task `i` is a check of the reading of this message, which is stored; `θ` are the thresholds that
it has loaded. -/
structure ChecksReading (E : Env) (M : MqttIngestionClient) (msgs : List MqttMessage) (w₀ : World)
    (c : IngestConfig) (d : PipelineConfig) (i : ℕ) (t : PipelineThread) (ids : ℕ → Uuid)
    (m : Telemetry) (θ : Thresholds) : Prop where
  message : StoredMessage M msgs c m
  task : d.threads[i]? = some t
  check : t.req = .task (.alertCheck m.alertCheck ids)
  loaded : LoadedIn E w₀ d i m.deviceId θ

/-- A row of a check has one of the keys of the check. -/
theorem AlertRow.key {log : TaskLog} {e : Uuid × AlertEvent} (h : AlertRow a ids log e) :
    ∃ n, e.1 = ids n := by
  obtain ⟨alerts, al, ts, now, -, -, hal, rfl⟩ := h
  exact mem_withIds hal

theorem AlertRow.justifies {m : Telemetry} {log : TaskLog} {id : Uuid} {row : AlertEvent}
    (h : AlertRow m.alertCheck ids log (id, row)) :
    ∃ θ, ThresholdsFrom m.deviceId (baseLog log) θ ∧ Justifies m θ row := by
  obtain ⟨alerts, al, ts, now, ⟨θ, hθ, rfl⟩, hts, hal, hr⟩ := h
  cases hr
  refine ⟨θ, hθ, rfl, hts _ rfl, ?_⟩
  have hmem : al.2 ∈ evaluate θ m.alertCheck := (List.of_mem_zip hal).2
  obtain ⟨metric, hmetric⟩ := mem_evaluate.mp hmem
  obtain ⟨q, hq, hreports, _⟩ := AlertMetric.mem_check hmetric
  obtain rfl := hreports.value
  exact ⟨metric, hreports.metric, hq, hreports.threshold⟩

/-- Check `i` has handed the push over: the reading is outside of a band, and the phone was one of
those that it was answered when it read the tokens of the members. -/
structure PushJustified (E : Env) (w₀ : World) (d : PipelineConfig) (i : ℕ) (t : PipelineThread)
    (m : Telemetry) (θ : Thresholds) (p : PushNotification) : Prop where
  handedOver : p ∈ handedOver t.log
  outside : evaluate θ m.alertCheck ≠ []
  member : ∃ members, SeenAt E w₀ d i ⟨_, .task (.memberTokens m.deviceId), .ok members⟩
      (fun w => members = w.db.memberTokens m.deviceId) ∧
    ∃ member ∈ members, p = pushNotification m.deviceId (evaluate θ m.alertCheck) member

/-- **Nothing is raised without a reading.** Whatever fails and whatever is delivered again, in any
interleaving, each alert row was inserted by a check of a stored reading, of a message of the
broker, and its value violates its band by the thresholds that this check has loaded; and each
message to Firebase is that of a call, with at most three repetitions before it, for a push that
such a check has handed over, to a phone that was the phone of a member when the check read the
tokens. -/
theorem alarms_traced (h₀ : w₀.db.alertEvents = .empty) (H : Pipeline E M msgs devices w₀ c d) :
    (∀ id row, d.state.db.alertEvents.get? id = some row →
      ∃ m i t ids θ, ChecksReading E M msgs w₀ c d i t ids m θ ∧ (∃ n, id = ids n) ∧
        Justifies m θ row) ∧
    ∀ u ∈ d.threads, ∀ message ∈ sentMessages u.log, ∃ i p n, u.req = .push i p n ∧
      n ≤ maxRetries ∧ message = p.message ∧
      ∃ m t ids θ, ChecksReading E M msgs w₀ c d i t ids m θ ∧ PushJustified E w₀ d i t m θ p := by
  have hknows := pipeline_knows H.workers
  refine ⟨fun id row hrow => ?_, fun u hu message hmessage => ?_⟩
  · obtain ⟨t, ht, a, ids, hr, hrow⟩ := rows_traced h₀ H.workers hrow
    obtain ⟨m, hm, rfl⟩ := H.checks ht hr
    obtain ⟨θ, hθ, hjustifies⟩ := hrow.justifies
    obtain ⟨i, hi⟩ := List.getElem?_of_mem ht
    exact ⟨m, i, t, ids, θ, ⟨hm, hi, hr, hθ.loadedIn H.workers hi hr⟩, hrow.key, hjustifies⟩
  · obtain ⟨i, p, n, hreq⟩ := PipelineJob.knows_sent (hknows u hu) hmessage
    obtain ⟨hn, t, hi, hhanded⟩ := (push_called H.workers u hu).calledBy i p n hreq.1
    have ht := List.mem_of_getElem? hi
    obtain ⟨a, ids, hr, alerts, members, member, he, hne, hread, hmem, hp⟩ :=
      PipelineJob.knows_pushes (hknows t ht) hhanded
    obtain ⟨m, hm, rfl⟩ := H.checks ht hr
    obtain ⟨θ, hθ, rfl⟩ := he
    exact ⟨i, p, n, hreq.1, hn, hreq.2, m, t, ids, θ, ⟨hm, hi, hr, hθ.loadedIn H.workers hi hr⟩,
      hhanded, hne, members, members_seenAt H.workers hi hread, member, hmem, hp⟩

end

end

/-! ## A reading that reaches the phone -/

namespace Sample

/-- A message of device 7, whose pile is at 90 degrees. -/
def hotPayload : MqttMessage := telemetry "\x7b\"time\":\"t\",\"temperature_c\":90\x7d".toUTF8

def hotTelemetry : Telemetry :=
  ⟨7, ⟨⟨0, true⟩, some (.real 90), none, none, none, none, none, none, none, none⟩⟩

def hotPhone : PushNotification :=
  pushNotification 7 (evaluate alertThresholds hotTelemetry.alertCheck) (1, "phone-token")

/-- The message is stored, its check runs, and the push goes to Alice's phone. -/
def hotJourney : List (Label (Option Exn) Telemetry DevicesChange ⊕
    Label PipelineChoice PipelineJob World) :=
  .inl (.spawn hotTelemetry) :: List.replicate 4 (.inl (.step 0 none)) ++
    .inr (.spawn (.task (.alertCheck hotTelemetry.alertCheck id))) ::
      List.replicate 9 (.inr (.step 0 ⟨.ok, true, .ok "message"⟩)) ++
    .inr (.spawn (.push 0 hotPhone 0)) ::
      List.replicate 2 (.inr (.step 1 ⟨.ok, true, .ok "message"⟩))

def hotEnd : Option (IngestConfig × PipelineConfig) :=
  System.Coupled.followIf ingestion (alertPipeline env) (fun _ _ l => listens client [hotPayload] l)
    works (ingestStart devices) ⟨pushWorld, []⟩ hotJourney

theorem hotEnd_reached {c : IngestConfig} {d : PipelineConfig} (h : hotEnd = some (c, d)) :
    Pipeline env client [hotPayload] devices pushWorld c d := .of_followIf .refl h

end Sample

/-- The row and the push of the hot pile come from the message. -/
theorem hotJourney_traced : ∃ c d id row u message, Sample.hotEnd = some (c, d) ∧
    d.state.db.alertEvents.get? id = some row ∧ u ∈ d.threads ∧ message ∈ sentMessages u.log ∧
    (∃ m i t ids θ,
      ChecksReading Sample.env Sample.client [Sample.hotPayload] Sample.pushWorld c d i t ids m θ ∧
      (∃ n, id = ids n) ∧ Justifies m θ row) ∧
    ∃ i p n, u.req = .push i p n ∧ n ≤ maxRetries ∧ message = p.message ∧
      ∃ m t ids θ,
        ChecksReading Sample.env Sample.client [Sample.hotPayload] Sample.pushWorld c d i
          t ids m θ ∧
        PushJustified Sample.env Sample.pushWorld d i t m θ p := by
  have h : Sample.hotEnd.any (fun r => r.2.state.db.alertEvents.contains 0 &&
      r.2.threads.any fun u => Sample.hotPhone.message ∈ sentMessages u.log) = true := by
    decide +kernel
  obtain ⟨⟨c, d⟩, hend, h⟩ := (Option.any_eq_true _ _).mp h
  simp only [Bool.and_eq_true, List.any_eq_true, decide_eq_true_eq] at h
  obtain ⟨hrow, u, hu, hsent⟩ := h
  obtain ⟨row, hrow⟩ := Table.contains_iff.mp hrow
  have htraced := alarms_traced rfl (Sample.hotEnd_reached hend)
  exact ⟨c, d, 0, row, u, _, hend, hrow, hu, hsent, htraced.1 0 row hrow, htraced.2 u hu _ hsent⟩

end Rawbin
