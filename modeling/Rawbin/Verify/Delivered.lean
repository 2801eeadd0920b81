import Rawbin.Verify.Pipeline

/-!
# Alarms that are raised

Nothing of a reading is lost on its way when nothing fails after the thresholds are loaded: its
check has committed a row for each value outside its band, and every member with a phone has a push
that Firebase has accepted or refused for good. The keys that the checks draw are different.
-/

namespace Rawbin

/-! ## Rows of a check -/

/-- No two checks draw the same key, and no check draws a key twice. -/
structure KeysDiffer (d : PipelineConfig) : Prop where
  injective : ∀ t ∈ d.threads, ∀ a ids, t.req = .task (.alertCheck a ids) → Function.Injective ids
  apart : System.Pairs (fun t t' => ∀ a ids a' ids', t.req = .task (.alertCheck a ids) →
    t'.req = .task (.alertCheck a' ids') → ∀ m n, ids m ≠ ids' n) d.threads

/-- The rows that a check has inserted are in its session, or committed; or a command has failed. -/
def AlertsKept (rows : Table Uuid AlertEvent) (log : TaskLog) (t : TaskSession) : Prop :=
  ∀ d ts inserted, ⟨_, .insertAlertEvents d ts inserted, .ok ()⟩ ∈ log → taskFailed log = true ∨
    (∀ r ∈ inserted, ∃ now, (r.1, alertEvent d ts now r.2) ∈ t.alerts) ∨
    ∀ r ∈ inserted, ∃ now, rows.get? r.1 = some (alertEvent d ts now r.2)

/-- A check that has committed nothing has its keys for itself. -/
def KeysFree (ids : ℕ → Uuid) (rows : Table Uuid AlertEvent) (log : TaskLog) : Prop :=
  triedCommit log = false → ∀ n, rows.contains (ids n) = false

section
variable {a : AlertCheck} {ids : ℕ → Uuid} {log : TaskLog} {t t' : TaskSession}
variable {rows : Table Uuid AlertEvent}

theorem AlertsKept.of_failed (hf : taskFailed log = true) : AlertsKept rows log t :=
  fun _ _ _ _ => .inl hf

/-- Other rows join the table. -/
theorem AlertsKept.insertAll (h : AlertsKept rows log t) (es : List (Uuid × AlertEvent)) :
    AlertsKept (rows.insertAll es) log t := by
  intro d ts inserted he
  rcases h d ts inserted he with hf | hsess | hrows
  · exact .inl hf
  · exact .inr (.inl hsess)
  · refine .inr (.inr fun r hr => ?_)
    obtain ⟨now, hrow⟩ := hrows r hr
    exact ⟨now, Table.get?_insertAll_of_some hrow⟩

def TaskCmd.isInsert : {β : Type} → TaskCmd β → Bool
  | _, .insertAlertEvents _ _ _ => true
  | _, _ => false

/-- A command that is no INSERT, and leaves the session. -/
theorem AlertsKept.snoc {e : Event TaskCmd} (h : AlertsKept rows log t)
    (he : e.cmd.isInsert = false) :
    AlertsKept rows (log ++ [e]) t := by
  intro d ts inserted hmem
  rcases List.mem_append.mp hmem with hmem | hmem
  · rcases h d ts inserted hmem with hf | hkept
    · exact .inl (taskFailed_mono (List.prefix_append ..) hf)
    · exact .inr hkept
  · obtain rfl := List.mem_singleton.mp hmem
    cases he

/-- The rows of the session are committed under keys that are free. -/
theorem AlertsKept.commit (h : AlertsKept rows log t) (hknows : CheckKnows a ids log t)
    (hinj : Function.Injective ids) (hfree : t.alerts ≠ [] → ∀ n, rows.contains (ids n) = false) :
    AlertsKept (rows.insertAll t.alerts) log { t with alerts := [] } := by
  obtain ⟨n, hkeys⟩ := hknows.keys
  intro d ts inserted hmem
  rcases h d ts inserted hmem with hf | hsess | hrows
  · exact .inl hf
  · refine .inr (.inr fun r hr => ?_)
    obtain ⟨now, hrow⟩ := hsess r hr
    refine ⟨now, Table.get?_insertAll_of_mem ?_ (fun e he => ?_) hrow⟩
    · rw [hkeys]
      exact List.nodup_range.map hinj
    · have hkey : e.1 ∈ (List.range n).map ids := hkeys ▸ List.mem_map_of_mem he
      obtain ⟨k, -, hk⟩ := List.mem_map.mp hkey
      exact hk ▸ hfree (List.ne_nil_of_mem hrow) k
  · refine .inr (.inr fun r hr => ?_)
    obtain ⟨now, hrow⟩ := hrows r hr
    exact ⟨now, Table.get?_insertAll_of_some hrow⟩

/-- **One command of a check**: what it has inserted stays, until it is committed. -/
theorem AlertsKept.step {cm : TaskCmd β} {x : Choice} {w : World}
    (h : AlertsKept w.db.alertEvents log t) (he : CheckExpects a ids log t cm)
    (hknows : CheckKnows a ids log t) (hinj : Function.Injective ids)
    (hfree : KeysFree ids w.db.alertEvents log) :
    AlertsKept (taskMachine.exec x cm t w).2.2.db.alertEvents
      (log ++ [⟨_, cm, (taskMachine.exec x cm t w).1⟩]) (taskMachine.exec x cm t w).2.1 := by
  cases cm with
  | base c =>
    have hrows : (taskMachine.exec x (.base c) t w).2.2.db.alertEvents = w.db.alertEvents := by
      rcases exec_alertEvents x (.base c) t w with hsame | ⟨hc, -⟩
      · exact hsame
      · cases hc
    rw [hrows]
    exact AlertsKept.snoc h rfl
  | memberTokens d => cases x <;> exact h.snoc rfl
  | sendPush p => cases x <;> exact h.snoc rfl
  | rollback => exact .of_failed (taskFailed_mono (List.prefix_append ..) he)
  | commit =>
    cases x with
    | fault | lost => exact .of_failed (taskFailed_snoc rfl)
    | ok =>
      have hcommitted := h.commit hknows hinj fun hne => hfree (he hne)
      exact hcommitted.snoc rfl
  | insertAlertEvents d ts inserted =>
    simp only [taskMachine, TaskCmd.exec]
    split
    · cases x <;> exact .of_failed (taskFailed_snoc rfl)
    · cases x with
      | fault | lost => exact .of_failed (taskFailed_snoc rfl)
      | ok =>
        intro d' ts' inserted' hmem
        rcases List.mem_append.mp hmem with hmem | hmem
        · rcases h d' ts' inserted' hmem with hf | hsess | hrows
          · exact .inl (taskFailed_mono (List.prefix_append ..) hf)
          · refine .inr (.inl fun r hr => ?_)
            obtain ⟨now, hrow⟩ := hsess r hr
            exact ⟨now, List.mem_append_left _ hrow⟩
          · exact .inr (.inr hrows)
        · cases List.mem_singleton.mp hmem
          exact .inr (.inl fun r hr => ⟨w.now, List.mem_append_right _ (List.mem_map_of_mem hr)⟩)

theorem KeysFree.step {cm : TaskCmd β} {x : Choice} {w : World}
    (hfree : KeysFree ids w.db.alertEvents log) :
    KeysFree ids (taskMachine.exec x cm t w).2.2.db.alertEvents
      (log ++ [⟨_, cm, (taskMachine.exec x cm t w).1⟩]) := by
  intro htried n
  rw [triedCommit_snoc, Bool.or_eq_false_iff] at htried
  have hrows : (taskMachine.exec x cm t w).2.2.db.alertEvents = w.db.alertEvents := by
    rcases exec_alertEvents x cm t w with hsame | ⟨hc, -⟩
    · exact hsame
    · cases htried.2.symm.trans hc
  rw [hrows]
  exact hfree htried.1 n

/-- Other keys join the table. -/
theorem KeysFree.insertAll (hfree : KeysFree ids rows log) {es : List (Uuid × AlertEvent)}
    (h : ∀ e ∈ es, ∀ n, e.1 ≠ ids n) : KeysFree ids (rows.insertAll es) log := by
  intro htried n
  by_contra hcontains
  obtain ⟨row, hrow⟩ := Table.contains_iff.mp (Bool.not_eq_false _ ▸ hcontains)
  rcases Table.get?_of_insertAll hrow with hold | hnew
  · cases (hfree htried n).symm.trans (Table.contains_of_get? hold)
  · exact h _ hnew n rfl

end

/-! ## Checks in a run -/

/-- What holds of each check in the pool. -/
structure CheckKept (rows : Table Uuid AlertEvent) (t : PipelineThread) : Prop where
  kept : ∀ a ids, t.req = .task (.alertCheck a ids) → AlertsKept rows (taskLog t.log) t.sess
  free : ∀ a ids, t.req = .task (.alertCheck a ids) → KeysFree ids rows (taskLog t.log)

section
variable {E : Env} {w₀ : World} {d d' : PipelineConfig} {l : Label PipelineChoice PipelineJob World}

theorem KeysDiffer.of_step (h : KeysDiffer d') (hs : (alertPipeline E).Step d l d') :
    KeysDiffer d where
  injective t ht a ids hr := by
    obtain ⟨i, hi⟩ := List.getElem?_of_mem ht
    obtain ⟨t', hi', hreq, _⟩ := hs.thread_grows hi
    exact h.injective t' (List.mem_of_getElem? hi') a ids (hreq.trans hr)
  apart i j t u hij hi hj a ids a' ids' hr hr' := by
    obtain ⟨t', hi', hreq, _⟩ := hs.thread_grows hi
    obtain ⟨u', hj', hreq', _⟩ := hs.thread_grows hj
    exact h.apart i j t' u' hij hi' hj' a ids a' ids' (hreq.trans hr) (hreq'.trans hr')

/-- One command of a worker. -/
theorem CheckKept.move {cm : PipelineCmd β} {k : β → Prog PipelineCmd Exn PipelineOutcome}
    {t : PipelineThread} {x : PipelineChoice} {w : World} (h : CheckKept w.db.alertEvents t)
    (he : t.req.expects t.log t.sess cm) (hknows : t.req.knows t.log t.sess)
    (hinj : ∀ a ids, t.req = .task (.alertCheck a ids) → Function.Injective ids) :
    CheckKept ((alertPipeline E).exec x cm t.sess w).2.2.db.alertEvents
      ((alertPipeline E).advance x t cm k w) := by
  have hmove : ∀ a ids, t.req = .task (.alertCheck a ids) →
      AlertsKept ((alertPipeline E).exec x cm t.sess w).2.2.db.alertEvents
        (taskLog ((alertPipeline E).advance x t cm k w).log)
        ((alertPipeline E).advance x t cm k w).sess ∧
      KeysFree ids ((alertPipeline E).exec x cm t.sess w).2.2.db.alertEvents
        (taskLog ((alertPipeline E).advance x t cm k w).log) := by
    intro a ids hr
    rw [hr] at he hknows
    cases cm with
    | notify c => exact he.elim
    | task c =>
      have hfree := h.free a ids hr
      show AlertsKept _ (taskLog (t.log ++ [⟨β, .task c, _⟩])) _ ∧
        KeysFree _ _ (taskLog (t.log ++ [⟨β, .task c, _⟩]))
      rw [taskLog_snoc]
      exact ⟨(h.kept a ids hr).step he hknows.1 (hinj a ids hr) hfree, hfree.step⟩
  exact ⟨fun a ids hr => (hmove a ids hr).1, fun a ids hr => (hmove a ids hr).2⟩

/-- **No check loses its rows**, in any run in which the keys differ. -/
theorem checks_kept {ok : PipelineConfig → Label PipelineChoice PipelineJob World → Prop}
    (h₀ : w₀.db.alertEvents = .empty) (H : (alertPipeline E).Run ok ⟨w₀, []⟩ d)
    (hkeys : KeysDiffer d) : ∀ t ∈ d.threads, CheckKept d.state.db.alertEvents t := by
  induction H with
  | refl => exact fun t ht => absurd ht List.not_mem_nil
  | @step d l d' H hok hs ih =>
    have ih := ih (hkeys.of_step hs)
    intro u hu
    obtain ⟨j, hj⟩ := List.getElem?_of_mem hu
    cases hs with
    | env e => exact ih u hu
    | @spawn s ts r =>
      rcases System.getElem?_snoc hj with hold | ⟨rfl, rfl⟩
      · exact ih u (List.mem_of_getElem? hold)
      · refine ⟨fun a ids _ _ _ _ hmem => absurd hmem List.not_mem_nil, fun a ids hr _ n => ?_⟩
        -- A row that is committed has the key of another check.
        by_contra hcontains
        obtain ⟨row, hrow⟩ := Table.contains_iff.mp (Bool.not_eq_false _ ▸ hcontains)
        obtain ⟨t, ht, a', ids', hr', halert⟩ := rows_traced h₀ H hrow
        obtain ⟨m, hm⟩ := halert.key
        obtain ⟨i, hi⟩ := List.getElem?_of_mem ht
        have hlt : i < ts.length := (List.getElem?_eq_some_iff.mp hi).1
        have hi' : (ts ++ [(alertPipeline E).spawn r])[i]? = some t := by
          rw [List.getElem?_append_left hlt]
          exact hi
        exact hkeys.apart i ts.length t _ (by omega) hi' hj a' ids' a ids hr' hr m n hm.symm
    | @step ts i s β cm k t x hi hp hb =>
      have ht := List.mem_of_getElem? hi
      have hknows := pipeline_knows H t ht
      have halways := pipeline_always H t ht
      rw [hp] at halways
      by_cases hij : i = j
      · subst hij
        have hu' : u = (alertPipeline E).advance x t cm k s := by
          rw [List.getElem?_set_self (List.getElem?_eq_some_iff.mp hi).1] at hj
          exact (Option.some.inj hj).symm
        subst hu'
        exact (ih t ht).move halways.1 hknows
          ((hkeys.of_step (.step x hi hp hb)).injective t ht)
      · rw [List.getElem?_set_ne hij] at hj
        have hold := ih u (List.mem_of_getElem? hj)
        rcases pipeline_alertEvents x cm t.sess s with hsame | hnew
        · show CheckKept ((alertPipeline E).exec x cm t.sess s).2.2.db.alertEvents u
          rw [hsame]
          exact hold
        · show CheckKept ((alertPipeline E).exec x cm t.sess s).2.2.db.alertEvents u
          rw [hnew]
          refine ⟨fun a ids hr => (hold.kept a ids hr).insertAll _, fun a ids hr =>
            (hold.free a ids hr).insertAll fun e he n hn => ?_⟩
          obtain ⟨a', ids', hr', halert⟩ := PipelineJob.knows_rows hknows he
          obtain ⟨m, hm⟩ := halert.key
          exact (hkeys.of_step (.step x hi hp hb)).apart i j t u hij hi hj a' ids' a ids hr' hr m n
            (hm.symm.trans hn)

end

/-! ## When everything has run -/

/-- Nothing is under way: every coroutine and every task has ended, and whatever was enqueued,
handed over or asked for again has run. -/
structure Quiescent (c : IngestConfig) (d : PipelineConfig) : Prop where
  coroutines : ∀ u ∈ c.threads, u.ended = true
  checked : ∀ u ∈ c.threads, ∀ a ∈ attempts u.log,
    ∃ t ∈ d.threads, ∃ ids, t.req = .task (.alertCheck a ids)
  tasks : ∀ t ∈ d.threads, t.ended = true
  pushed : ∀ i t, d.threads[i]? = some t → ∀ p ∈ handedOver t.log,
    ∃ u ∈ d.threads, u.req = .push i p 0
  repeated : ∀ u ∈ d.threads, ∀ i p n, u.req = .push i p n → asksRetry u.prog = true →
    ∃ u' ∈ d.threads, u'.req = .push i p (n + 1)

/-- A call of the push task for this push of check `i` has ended, and asks for no other. -/
def PushEnded (d : PipelineConfig) (i : ℕ) (p : PushNotification) : Prop :=
  ∃ u ∈ d.threads, ∃ n result, u.req = .push i p n ∧ u.prog = .pure (.push result) ∧ result ≠ .retry

section
variable {E : Env} {M : MqttIngestionClient} {msgs : List MqttMessage} {devices : Table Uuid Device}
variable {w₀ : World} {c : IngestConfig} {d : PipelineConfig} {t : PipelineThread} {i : ℕ}
variable {a : AlertCheck} {ids : ℕ → Uuid}

/-- How a task has ended. -/
theorem pipeline_ended (H : (alertPipeline E).Run (fun c l => delivers c l = true) ⟨w₀, []⟩ d)
    (ht : t ∈ d.threads) (h : t.ended = true) :
    (∃ o, t.prog = .pure o ∧ t.req.ends t.log t.sess (.ok o)) ∨
      ∃ e, t.prog = .raise e ∧ t.req.ends t.log t.sess (.error e) := by
  have halways := pipeline_always H t ht
  cases hp : t.prog with
  | cmd cm k => simp only [Thread.ended, hp, Bool.false_eq_true] at h
  | pure o =>
    rw [hp] at halways
    exact .inl ⟨o, rfl, halways⟩
  | raise e =>
    rw [hp] at halways
    exact .inr ⟨e, rfl, halways⟩

/-- The calls for a push come to an end, after at most three repetitions. -/
theorem Quiescent.pushEnded {p : PushNotification} (hs : Quiescent c d)
    (H : (alertPipeline E).Run (fun c l => delivers c l = true) ⟨w₀, []⟩ d)
    (hi : d.threads[i]? = some t) (hp : p ∈ handedOver t.log) : PushEnded d i p := by
  -- By the number of repetitions that are left.
  have hcall (m : ℕ) : ∀ u ∈ d.threads, ∀ n, u.req = .push i p n → maxRetries < n + m →
      PushEnded d i p := by
    induction m with
    | zero =>
      intro u hu n hr hn
      have hle := ((push_called H u hu).calledBy i p n hr).1
      omega
    | succ m ih =>
      intro u hu n hr hn
      rcases pipeline_ended H hu (hs.tasks u hu) with ⟨o, hprog, hends⟩ | ⟨e, hprog, hends⟩
      · rw [hr] at hends
        obtain ⟨result, hresult⟩ := hends
        cases hresult
        by_cases hretry : result = .retry
        · obtain ⟨u', hu', hr'⟩ := hs.repeated u hu i p n hr (by rw [hprog, hretry]; rfl)
          exact ih u' hu' (n + 1) hr' (by omega)
        · exact ⟨u, hu, n, result, hr, hprog, hretry⟩
      · rw [hr] at hends
        obtain ⟨result, hresult⟩ := hends
        cases hresult
  obtain ⟨u, hu, hr⟩ := hs.pushed i t hi p hp
  exact hcall (maxRetries + 1) u hu 0 hr (by omega)

/-- A check that has ended without a failure has raised every alert of its thresholds. -/
theorem check_raises {m : Telemetry} (h₀ : w₀.db.alertEvents = .empty)
    (H : (alertPipeline E).Run (fun c l => delivers c l = true) ⟨w₀, []⟩ d) (hkeys : KeysDiffer d)
    (hi : d.threads[i]? = some t) (hr : t.req = .task (.alertCheck m.alertCheck ids))
    (hended : t.ended = true) (hfine : taskFailed (taskLog t.log) = false) :
    ∃ θ, LoadedIn E w₀ d i m.deviceId θ ∧
      (∀ alert ∈ evaluate θ m.alertCheck, ∃ n now, d.state.db.alertEvents.get? (ids n) =
        some (alertEvent m.deviceId m.reading.time.instant now alert)) ∧
      (evaluate θ m.alertCheck ≠ [] → ∃ members,
        SeenAt E w₀ d i ⟨_, .task (.memberTokens m.deviceId), .ok members⟩
          (fun w => members = w.db.memberTokens m.deviceId) ∧
        ∀ member ∈ members,
          pushNotification m.deviceId (evaluate θ m.alertCheck) member ∈ handedOver t.log) := by
  have ht := List.mem_of_getElem? hi
  have hends : CheckEnds m.alertCheck ids (taskLog t.log) t.sess := by
    rcases pipeline_ended H ht hended with ⟨o, -, hends⟩ | ⟨e, -, hends⟩
    · rw [hr] at hends
      exact hends
    · rw [hr] at hends
      exact hends
  obtain ⟨hsess, hfailed | hmalformed | ⟨alerts, ⟨θ, hθ, rfl⟩, hraised⟩⟩ := hends
  · cases hfine.symm.trans hfailed
  · cases hmalformed
  refine ⟨θ, hθ.loadedIn H hi hr, fun alert halert => ?_, fun hne => ?_⟩
  · obtain ⟨ts, hts, hinserted⟩ := (hraised (List.ne_nil_of_mem halert)).inserted
    obtain rfl := hts _ rfl
    have hmem : alert ∈ (withIds ids (evaluate θ m.alertCheck)).map Prod.snd :=
      (withIds_snd ids _).symm ▸ halert
    obtain ⟨r, hin, rfl⟩ := List.mem_map.mp hmem
    obtain ⟨n, hn⟩ := mem_withIds hin
    -- The rows are no longer in the session, so they are committed.
    rcases (checks_kept h₀ H hkeys t ht).kept _ _ hr _ _ _ hinserted with hfailed | hsession | hrows
    · cases hfine.symm.trans hfailed
    · obtain ⟨now, hrow⟩ := hsession r hin
      rw [hsess] at hrow
      cases hrow
    · obtain ⟨now, hrow⟩ := hrows r hin
      exact ⟨n, now, hn ▸ hrow⟩
  · obtain ⟨members, hread, hpushed⟩ := (hraised hne).pushed
    refine ⟨members, members_seenAt H hi hread, fun member hmember => ?_⟩
    rw [handedOver_eq]
    exact hpushed member hmember

/-- **No breach is lost.** When everything has run, and no command of a check has failed after its
thresholds were loaded, each stored reading, of a message of the broker, has had a check: by the
thresholds that this check has loaded, it has a committed row for every metric outside its band, and
for every member whom the check was answered when it read the tokens it has handed a push over,
which was sent or given up for good. -/
theorem alarms_complete (h₀ : w₀.db.alertEvents = .empty) (H : Pipeline E M msgs devices w₀ c d)
    (hkeys : KeysDiffer d) (hs : Quiescent c d)
    (hfine : ∀ t ∈ d.threads, taskFailed (taskLog t.log) = false) {k : Time × Uuid}
    {row : ReadingRow} (hrow : c.state.sensorReadings.get? k = some row) :
    ∃ m, m.key = k ∧ m.row = row ∧ ∃ i t ids θ, ChecksReading E M msgs w₀ c d i t ids m θ ∧
      (∀ (metric : AlertMetric) q, metric.measured m.alertCheck = some (.real q) →
        metric.Outside θ q → ∃ n ev, d.state.db.alertEvents.get? (ids n) = some ev ∧
          ev.metric = metric.name ∧ ev.value = q ∧ Justifies m θ ev) ∧
      (evaluate θ m.alertCheck ≠ [] → ∃ members,
        SeenAt E w₀ d i ⟨_, .task (.memberTokens m.deviceId), .ok members⟩
          (fun w => members = w.db.memberTokens m.deviceId) ∧
        ∀ member ∈ members, ∃ p,
          p = pushNotification m.deviceId (evaluate θ m.alertCheck) member ∧
            p ∈ handedOver t.log ∧ PushEnded d i p) := by
  obtain ⟨hexpecting, hconsistent⟩ := ingest_invariant H.listener
  obtain ⟨u, hu, hc, rfl⟩ := (hconsistent.origin k (Table.contains_of_get? hrow)).resolve_left
    Bool.false_ne_true
  -- The coroutine has ended, so it has enqueued its check.
  have henqueued : u.req.alertCheck ∈ attempts u.log := by
    rcases (hexpecting.attempts hu).1 hc with hone | ⟨-, k, hprog⟩
    · rw [hone]
      exact List.mem_singleton_self _
    · have hended := hs.coroutines u hu
      simp only [Thread.ended, hprog, Bool.false_eq_true] at hended
  obtain ⟨-, hm⟩ := listener_stored H.listener hu henqueued
  obtain ⟨t, ht, ids, hr⟩ := hs.checked u hu _ henqueued
  obtain ⟨i, hi⟩ := List.getElem?_of_mem ht
  obtain ⟨θ, hθ, hrows, hpushes⟩ :=
    check_raises h₀ H.workers hkeys hi hr (hs.tasks t ht) (hfine t ht)
  refine ⟨u.req, rfl, Option.some.inj (hm.stored.symm.trans hrow), i, t, ids, θ, ⟨hm, hi, hr, hθ⟩,
    fun metric q hq hout => ?_, fun hne => ?_⟩
  · obtain ⟨alert, halert, hname, hreports⟩ := exists_mem_evaluate hq hout
    obtain ⟨n, now, hev⟩ := hrows alert halert
    obtain rfl := hreports.value
    exact ⟨n, _, hev, hname, rfl, rfl, rfl, metric, hname, hq, hreports.threshold⟩
  · obtain ⟨members, hseen, hpushed⟩ := hpushes hne
    exact ⟨members, hseen, fun member hmember => ⟨_, rfl, hpushed member hmember,
      hs.pushEnded H.workers hi (hpushed member hmember)⟩⟩

end

/-! ## A reading that is not lost -/

namespace Sample

/-- Everything of the journey has run, without a failure. -/
def journeyEnds (c : IngestConfig) (d : PipelineConfig) : Bool :=
  c.threads.map (fun u => (u.ended, attempts u.log)) = [(true, [hotTelemetry.alertCheck])] &&
    d.threads.map (fun t => (t.ended, handedOver t.log)) = [(true, [hotPhone]), (true, [])] &&
    d.threads.all fun t => !asksRetry t.prog && !taskFailed (taskLog t.log)

theorem hotEnd_reqs {c : IngestConfig} {d : PipelineConfig} (h : hotEnd = some (c, d)) :
    d.threads.map Thread.req =
      [.task (.alertCheck hotTelemetry.alertCheck id), .push 0 hotPhone 0] :=
  System.Coupled.right_reqs h

/-- There is one check. -/
theorem hotEnd_check {c : IngestConfig} {d : PipelineConfig} (h : hotEnd = some (c, d)) {i : ℕ}
    {t : PipelineThread} (hi : d.threads[i]? = some t) {a : AlertCheck} {ids : ℕ → Uuid}
    (hr : t.req = .task (.alertCheck a ids)) : i = 0 ∧ ids = id := by
  have hreqs := congrArg (fun l => l[i]?) (hotEnd_reqs h)
  simp only [List.getElem?_map, hi, Option.map_some, hr] at hreqs
  rcases i with _ | _ | i
  · cases hreqs
    exact ⟨rfl, rfl⟩
  · cases hreqs
  · cases hreqs

theorem hotEnd_keysDiffer {c : IngestConfig} {d : PipelineConfig} (h : hotEnd = some (c, d)) :
    KeysDiffer d where
  injective t ht a ids hr := by
    obtain ⟨i, hi⟩ := List.getElem?_of_mem ht
    rw [(hotEnd_check h hi hr).2]
    exact Function.injective_id
  apart i j t t' hij hi hj a ids a' ids' hr hr' :=
    absurd ((hotEnd_check h hi hr).1.trans (hotEnd_check h hj hr').1.symm) hij

theorem hotEnd_quiescent {c : IngestConfig} {d : PipelineConfig} (h : hotEnd = some (c, d))
    (hends : journeyEnds c d = true) : Quiescent c d := by
  simp only [journeyEnds, Bool.and_eq_true, decide_eq_true_eq, List.all_eq_true,
    Bool.not_eq_true'] at hends
  obtain ⟨⟨hcoroutines, htasks⟩, hcalls⟩ := hends
  have hcoroutine : ∀ u ∈ c.threads, (u.ended, attempts u.log) =
      (true, [hotTelemetry.alertCheck]) := fun u hu =>
    List.mem_singleton.mp (hcoroutines ▸ List.mem_map_of_mem hu)
  have hreqs := hotEnd_reqs h
  have hreq {r : PipelineJob} (hr : r ∈ d.threads.map Thread.req) : ∃ u ∈ d.threads, u.req = r :=
    List.mem_map.mp hr
  refine ⟨fun u hu => (Prod.mk.inj (hcoroutine u hu)).1, fun u hu a ha => ?_, fun t ht => ?_,
    fun i t hi p hp => ?_, fun u hu i p n hr hasks => ?_⟩
  · rw [(Prod.mk.inj (hcoroutine u hu)).2] at ha
    obtain ⟨t, ht, hr⟩ := hreq (r := .task (.alertCheck hotTelemetry.alertCheck id))
      (hreqs ▸ List.mem_cons_self)
    exact ⟨t, ht, id, List.mem_singleton.mp ha ▸ hr⟩
  · have hmem := List.mem_map_of_mem (f := fun t : PipelineThread => (t.ended, handedOver t.log)) ht
    rw [htasks] at hmem
    rcases List.mem_cons.mp hmem with hmem | hmem
    · exact (Prod.mk.inj hmem).1
    · exact (Prod.mk.inj (List.mem_singleton.mp hmem)).1
  · have hlog := congrArg (fun l => l[i]?) htasks
    simp only [List.getElem?_map, hi, Option.map_some] at hlog
    rcases i with _ | _ | i
    · rw [(Prod.mk.inj (Option.some.inj hlog)).2] at hp
      exact List.mem_singleton.mp hp ▸ hreq (hreqs ▸ List.mem_cons_of_mem _ List.mem_cons_self)
    · rw [(Prod.mk.inj (Option.some.inj hlog)).2] at hp
      cases hp
    · cases hlog
  · rw [(hcalls u hu).1] at hasks
    cases hasks

end Sample

/-- The reading of the hot pile has its row, and the phone its push. -/
theorem hotJourney_complete : ∃ c d row, Sample.hotEnd = some (c, d) ∧
    c.state.sensorReadings.get? (0, 7) = some row ∧ ∃ m, m.key = (0, 7) ∧ m.row = row ∧
    ∃ i t ids θ,
      ChecksReading Sample.env Sample.client [Sample.hotPayload] Sample.pushWorld c d i t ids m θ ∧
      (∀ (metric : AlertMetric) q, metric.measured m.alertCheck = some (.real q) →
        metric.Outside θ q → ∃ n ev, d.state.db.alertEvents.get? (ids n) = some ev ∧
          ev.metric = metric.name ∧ ev.value = q ∧ Justifies m θ ev) ∧
      (evaluate θ m.alertCheck ≠ [] → ∃ members,
        SeenAt Sample.env Sample.pushWorld d i
          ⟨_, .task (.memberTokens m.deviceId), .ok members⟩
          (fun w => members = w.db.memberTokens m.deviceId) ∧
        ∀ member ∈ members, ∃ p,
          p = pushNotification m.deviceId (evaluate θ m.alertCheck) member ∧
            p ∈ handedOver t.log ∧ PushEnded d i p) := by
  have h : Sample.hotEnd.any (fun r => r.1.state.sensorReadings.contains (0, 7) &&
      Sample.journeyEnds r.1 r.2) = true := by
    decide +kernel
  obtain ⟨⟨c, d⟩, hend, h⟩ := (Option.any_eq_true _ _).mp h
  obtain ⟨hrow, hends⟩ := Bool.and_eq_true_iff.mp h
  obtain ⟨row, hrow⟩ := Table.contains_iff.mp hrow
  have hfine : ∀ t ∈ d.threads, taskFailed (taskLog t.log) = false := by
    simp only [Sample.journeyEnds, Bool.and_eq_true, List.all_eq_true, Bool.not_eq_true'] at hends
    exact fun t ht => (hends.2 t ht).2
  exact ⟨c, d, row, hend, hrow, alarms_complete rfl (Sample.hotEnd_reached hend)
    (Sample.hotEnd_keysDiffer hend) (Sample.hotEnd_quiescent hend hends) hfine hrow⟩

end Rawbin
