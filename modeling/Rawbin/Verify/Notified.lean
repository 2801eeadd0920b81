import Rawbin.Verify.Redelivery
import Rawbin.Workers.Notifications

/-!
# Alerts that were pushed

The row of an alert is written by the check, before the check hands the pushes over, and that a push
was sent is known to the push task only. The push task has neither the keys of the rows nor a
session, so the column `notified` keeps its first value.
-/

namespace Rawbin

abbrev PipelineLog := List (Event PipelineCmd)

abbrev PipelineThread := Thread PipelineCmd TaskSession Exn PipelineJob PipelineOutcome

abbrev PipelineConfig := Config PipelineCmd World TaskSession Exn PipelineJob PipelineOutcome

/-! ## Dispatches -/

/-- The keys of the alert rows that a check has inserted. -/
def insertedAlerts (log : PipelineLog) : List Uuid := log.flatMap fun
  | ⟨_, .task (.insertAlertEvents _ _ alerts), .ok _⟩ => alerts.map Prod.fst
  | _ => []

/-- The pushes that a check has handed to Celery, or tried to: the broker may have them although
the check was told otherwise. -/
def handedOver (log : PipelineLog) : List PushNotification := log.filterMap fun
  | ⟨_, .task (.sendPush p), _⟩ => some p
  | _ => none

/-- Firebase has accepted the message. -/
def wasSent (log : PipelineLog) : Bool := log.any fun
  | ⟨_, .notify (.send _), .ok _⟩ => true
  | _ => false

/-- The call asks for its repetition. -/
def asksRetry (prog : Prog PipelineCmd Exn PipelineOutcome) : Bool :=
  match prog with
  | .pure (.push .retry) => true
  | _ => false

/-- A call of the push task was handed over by the check, or asked for by the call before. -/
def delivers (c : PipelineConfig) : Label PipelineChoice PipelineJob World → Bool
  | .spawn (.push i p 0) => c.threads[i]?.any fun t => p ∈ handedOver t.log
  | .spawn (.push i p (n + 1)) => c.threads.any fun t => match t.req with
    | .push i' p' n' => i' = i && p' = p && n' = n && asksRetry t.prog
    | .task _ => false
  | _ => true

/-- A push of the check that wrote the alert row was sent to some member. -/
def dispatched (c : PipelineConfig) (id : Uuid) : Bool :=
  c.threads.any fun u => match u.req with
    | .push i _ _ => wasSent u.log && c.threads[i]?.any fun t => id ∈ insertedAlerts t.log
    | .task _ => false

/-! ## The column -/

/-- No alert row is marked, neither a committed nor an inserted one. -/
structure Unnotified (c : PipelineConfig) : Prop where
  rows : ∀ id row, c.state.db.alertEvents.get? id = some row → row.notified = false
  sessions : ∀ t ∈ c.threads, ∀ r ∈ t.sess.alerts, r.2.notified = false

section
variable {E : Env} {c c' : PipelineConfig}

/-- A new row in a session is not marked. -/
theorem exec_alerts (x : Choice) (cm : TaskCmd β) (t : TaskSession) (w : World)
    (h : ∀ r ∈ t.alerts, r.2.notified = false) :
    ∀ r ∈ (cm.exec x t w).2.1.alerts, r.2.notified = false := by
  cases cm with
  | base c => exact h
  | memberTokens d | sendPush p => cases x <;> exact h
  | commit =>
    cases x with
    | fault => exact h
    | ok | lost => nofun
  | rollback => cases x <;> nofun
  | insertAlertEvents d ts alerts =>
    have hnew : ∀ r ∈ t.alerts ++ alerts.map fun a => (a.1, alertEvent d ts w.now a.2),
        r.2.notified = false := by
      intro r hr
      rcases List.mem_append.mp hr with hr | hr
      · exact h r hr
      · obtain ⟨a, _, rfl⟩ := List.mem_map.mp hr
        rfl
    simp only [TaskCmd.exec]
    split
    · cases x <;> exact h
    · cases x with
      | fault => exact h
      | ok | lost => exact hnew

/-- What a command does to alert rows, committed and inserted ones. -/
theorem exec_unnotified (x : PipelineChoice) (cm : PipelineCmd β) (t : TaskSession) (w : World)
    (hw : ∀ id row, w.db.alertEvents.get? id = some row → row.notified = false)
    (ht : ∀ r ∈ t.alerts, r.2.notified = false) :
    (∀ id row, (cm.exec x t w).2.2.db.alertEvents.get? id = some row → row.notified = false) ∧
      ∀ r ∈ (cm.exec x t w).2.1.alerts, r.2.notified = false := by
  cases cm with
  | notify c => cases c <;> exact ⟨hw, ht⟩
  | task c =>
    refine ⟨fun id row hrow => ?_, exec_alerts x.task c t w ht⟩
    have hrow : (alertTasks.exec x.task c t w).2.2.db.alertEvents.get? id = some row := hrow
    rcases exec_alertEvents x.task c t w with h | ⟨_, h⟩
    · rw [h] at hrow
      exact hw id row hrow
    · rw [h] at hrow
      rcases Table.get?_of_insertAll hrow with hold | hnew
      · exact hw id row hold
      · exact ht (id, row) hnew

theorem Unnotified.step {l : Label PipelineChoice PipelineJob World} (h : Unnotified c)
    (hs : (alertPipeline E).Step c l c') : Unnotified c' := by
  have hmoved {β : Type} {cm : PipelineCmd β} {t : PipelineThread} (ht : t ∈ c.threads)
      (x : PipelineChoice) := exec_unnotified x cm t.sess c.state h.rows (h.sessions t ht)
  constructor
  · cases hs with
    | spawn r => exact h.rows
    | env e => exact h.rows
    | step x hi hp hb => exact (hmoved (List.mem_of_getElem? hi) x).1
  · refine hs.thread_cases h.sessions (fun r _ => nofun) fun {β cm k t x} ht hp => ?_
    exact (hmoved ht x).2

/-! ## Calls of the push task -/

/-- A call that asks for its repetition may do so. -/
theorem sendPushNotification_expects (i : ℕ) (p : PushNotification) (n : ℕ) :
    (alertPipeline E).Always (fun _ _ _ => True)
      (fun _ _ r => r = .ok (.push .retry) → n < maxRetries) [] .idle
      ((alertPipeline E).prog (.push i p n)) := by
  refine ⟨trivial, ?_⟩
  rintro ⟨_, firebaseApp, _⟩ w
  cases firebaseApp with
  | false =>
    show Except.ok (PipelineOutcome.push .stub) = .ok (.push .retry) → _
    simp
  | true =>
    refine ⟨trivial, ?_⟩
    rintro ⟨_, _, fcm⟩ w
    cases fcm with
    | ok messageId =>
      show Except.ok (PipelineOutcome.push (.sent messageId)) = .ok (.push .retry) → _
      simp
    | error exception =>
      show (alertPipeline E).Always _ _ _ _ (Prog.bind (Prog.lift _ (ite _ _ _)) _)
      split
      · show Except.ok (PipelineOutcome.push .failed) = .ok (.push .retry) → _
        simp
      · intro hretry
        by_contra hn
        rw [selfRetry, if_neg hn] at hretry
        cases hretry

/-- A call that the run contains was handed over by its check, and is at most the fourth. -/
def CalledBy (c : PipelineConfig) (i : ℕ) (p : PushNotification) (n : ℕ) : Prop :=
  n ≤ maxRetries ∧ ∃ t, c.threads[i]? = some t ∧ p ∈ handedOver t.log

theorem CalledBy.step {l : Label PipelineChoice PipelineJob World} {i n : ℕ} {p : PushNotification}
    (h : CalledBy c i p n) (hs : (alertPipeline E).Step c l c') : CalledBy c' i p n := by
  obtain ⟨hn, t, hi, hp⟩ := h
  obtain ⟨t', hi', _, hlog⟩ := hs.thread_grows hi
  exact ⟨hn, t', hi', (hlog.sublist.filterMap _).subset hp⟩

/-- What holds of a thread when it is a call of the push task. -/
structure Called (E : Env) (c : PipelineConfig) (u : PipelineThread) : Prop where
  calledBy : ∀ i p n, u.req = .push i p n → CalledBy c i p n
  expects : ∀ i p n, u.req = .push i p n → (alertPipeline E).Always (fun _ _ _ => True)
    (fun _ _ r => r = .ok (.push .retry) → n < maxRetries) u.log u.sess u.prog

/-- A delivered call has been handed over, or is a repetition that was asked for. -/
theorem CalledBy.of_delivers {i n : ℕ} {p : PushNotification} (h : ∀ u ∈ c.threads, Called E c u)
    (hok : delivers c (.spawn (.push i p n)) = true) : CalledBy c i p n := by
  cases n with
  | zero =>
    obtain ⟨t, hi, hp⟩ := (Option.any_eq_true _ _).mp hok
    exact ⟨Nat.zero_le _, t, hi, of_decide_eq_true hp⟩
  | succ n =>
    obtain ⟨u, hu, hasks⟩ := List.any_eq_true.mp hok
    split at hasks
    · rename_i i' p' n' hreq
      simp only [Bool.and_eq_true, decide_eq_true_eq] at hasks
      obtain ⟨⟨⟨rfl, rfl⟩, rfl⟩, hasks⟩ := hasks
      have hexpects := (h u hu).expects _ _ _ hreq
      unfold asksRetry at hasks
      split at hasks
      · rename_i hprog
        rw [hprog] at hexpects
        exact ⟨hexpects rfl, ((h u hu).calledBy _ _ _ hreq).2⟩
      · cases hasks
    · cases hasks

theorem push_called {w₀ : World}
    (H : (alertPipeline E).Run (fun c l => delivers c l = true) ⟨w₀, []⟩ c) :
    ∀ u ∈ c.threads, Called E c u := by
  refine H.invariant (P := fun c => ∀ u ∈ c.threads, Called E c u)
    (fun u hu => absurd hu List.not_mem_nil) fun c l c' h hok hs => ?_
  refine hs.thread_cases (fun u hu => ⟨fun i p n hr => ?_, (h u hu).expects⟩) (fun r hl => ?_)
    fun {β cm k u x} hu hp => ⟨fun i p n hr => ?_, fun i p n hr => ?_⟩
  · exact ((h u hu).calledBy i p n hr).step hs
  · subst hl
    refine ⟨fun i p n hr => ?_, fun i p n hr => ?_⟩ <;> cases hr
    · exact (CalledBy.of_delivers h hok).step hs
    · exact sendPushNotification_expects i p n
  · exact ((h u hu).calledBy i p n hr).step hs
  · have hexpects := (h u hu).expects i p n hr
    rw [hp] at hexpects
    exact hexpects.2 x c.state

/-! ## The column in a run -/

/-- **The column of an alert** is right in a state exactly when no push of the alert has been
sent. -/
theorem notified_iff_dispatched {w₀ : World} (h₀ : w₀.db.alertEvents = .empty)
    (H : (alertPipeline E).Run (fun c l => delivers c l = true) ⟨w₀, []⟩ c) {id : Uuid}
    {row : AlertEvent} (hrow : c.state.db.alertEvents.get? id = some row) :
    (row.notified = true ↔ dispatched c id = true) ↔ dispatched c id = false := by
  have hstart : Unnotified (⟨w₀, []⟩ : PipelineConfig) := by
    refine ⟨fun id row h => ?_, fun t ht => absurd ht List.not_mem_nil⟩
    have h : w₀.db.alertEvents.get? id = some row := h
    rw [h₀] at h
    cases h
  have hinv : Unnotified c := H.invariant hstart fun _ _ _ hc _ hs => hc.step hs
  rw [hinv.rows id row hrow]
  cases dispatched c id <;> decide

end

/-! ## A push that arrives -/

namespace Sample

/-- Alice has registered a phone. -/
def pushWorld : World :=
  { deviceWorld with
    db := { deviceWorld.db with
      users := Table.empty.insert 1
        { user "alice@rawbin.io" with firebasePushToken := some "phone-token" } } }

/-- The push of the hot pile to Alice's phone. -/
def hotPush : PushNotification :=
  pushNotification 7 (evaluate alertThresholds hotCheck) (1, "phone-token")

/-- Both tasks, one after the other, when Firebase answers with this. -/
def pushedAlert (fcm : Except String String) : List (Label PipelineChoice PipelineJob World) :=
  .spawn (.task (.alertCheck hotCheck id)) :: List.replicate 9 (.step 0 ⟨.ok, true, fcm⟩) ++
    .spawn (.push 0 hotPush 0) :: List.replicate 2 (.step 1 ⟨.ok, true, fcm⟩)

end Sample

/-- Firebase does not know the phone any more. -/
theorem unregistered_notified : ∃ c row,
    (alertPipeline Sample.env).followIf delivers ⟨Sample.pushWorld, []⟩
      (Sample.pushedAlert (.error "UnregisteredError")) = some c ∧
    c.state.db.alertEvents.get? 0 = some row ∧
    ((row.notified = true ↔ dispatched c 0 = true) ↔ dispatched c 0 = false) := by
  have h : ((alertPipeline Sample.env).followIf delivers ⟨Sample.pushWorld, []⟩
      (Sample.pushedAlert (.error "UnregisteredError"))).any
        (fun c => c.state.db.alertEvents.contains 0) = true := by
    decide +kernel
  obtain ⟨c, hc, h⟩ := (Option.any_eq_true _ _).mp h
  obtain ⟨row, hrow⟩ := Table.contains_iff.mp h
  exact ⟨c, row, hc, hrow, notified_iff_dispatched rfl (.of_followIf hc) hrow⟩

/-- The push has been sent and no task is in progress, and the alert is not marked. -/
theorem sent_not_notified : ¬ ∀ c, (alertPipeline Sample.env).Run
    (fun c l => delivers c l = true) ⟨Sample.pushWorld, []⟩ c →
      (∀ t ∈ c.threads, t.ended = true) → ∀ id row, c.state.db.alertEvents.get? id = some row →
        (row.notified = true ↔ dispatched c id = true) := by
  intro hevery
  have h : ((alertPipeline Sample.env).followIf delivers ⟨Sample.pushWorld, []⟩
      (Sample.pushedAlert (.ok "message"))).any (fun c => c.threads.all Thread.ended &&
        dispatched c 0 && (c.state.db.alertEvents.get? 0).any fun row => !row.notified) = true := by
    decide +kernel
  obtain ⟨c, hc, h⟩ := (Option.any_eq_true _ _).mp h
  simp only [Bool.and_eq_true, List.all_eq_true] at h
  obtain ⟨⟨hended, hsent⟩, hrow⟩ := h
  obtain ⟨row, hrow, hnot⟩ := (Option.any_eq_true _ _).mp hrow
  have hmarked := (hevery c (.of_followIf hc) hended 0 row hrow).mpr hsent
  rw [hmarked] at hnot
  cases hnot

end Rawbin
