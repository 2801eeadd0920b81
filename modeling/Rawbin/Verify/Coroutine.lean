import Rawbin.Core.Ingest
import Rawbin.Verify.Ingestion

/-!
# The coroutine of a reading

Each coroutine satisfies a local assertion: what it has executed is the head of what it has to
flush, and it enqueues the alert check once, after its commit. From the assertion follows what a
step of a run can do (`IngestStep`).
-/

namespace Rawbin

abbrev IngestLog := List (Event IngestCmd)

abbrev IngestConfig := Config IngestCmd TelemetryDb (List TelemetryWrite) Exn Telemetry Unit

abbrev Coroutine := Thread IngestCmd (List TelemetryWrite) Exn Telemetry Unit

/-- The coroutine has committed. -/
def hasCommitted (log : IngestLog) : Bool := log.any fun
  | ⟨_, .commit, .ok _⟩ => true
  | _ => false

/-- The alert checks that the coroutine has tried to enqueue. -/
def attempts (log : IngestLog) : List AlertCheck := log.filterMap fun
  | ⟨_, .applyAsync check, _⟩ => some check
  | _ => none

/-- A database step of the coroutine has failed. -/
def hasFailed (log : IngestLog) : Bool := log.any fun
  | ⟨_, .device _, .error _⟩ => true
  | ⟨_, .execute _, .error _⟩ => true
  | ⟨_, .commit, .error _⟩ => true
  | _ => false

/-- The coroutine found no device. -/
def foundNothing (log : IngestLog) : Bool := log.any fun
  | ⟨_, .device _, .ok none⟩ => true
  | _ => false

/-- Nothing but reads and statements so far. -/
structure Uncommitted (log : IngestLog) : Prop where
  committed : hasCommitted log = false
  attempts : attempts log = []

namespace Telemetry

/-- What holds at each command of the coroutine. -/
def expects (m : Telemetry) : {β : Type} → IngestLog → List TelemetryWrite → IngestCmd β → Prop
  | _, log, t, .device id => id = m.deviceId ∧ t = [] ∧ Uncommitted log
  | _, log, t, .execute w => Uncommitted log ∧ ∃ device ws, m.pending device = t ++ w :: ws
  | _, log, t, .commit => Uncommitted log ∧ ∃ device, t = m.pending device
  | _, log, t, .rollback => Uncommitted log ∧ t = [] ∧ hasFailed log = true
  | _, log, t, .applyAsync check =>
    check = m.alertCheck ∧ t = [] ∧ hasCommitted log = true ∧ attempts log = []

/-- What holds at its end. -/
def ends (m : Telemetry) (log : IngestLog) (t : List TelemetryWrite) (_ : Except Exn Unit) : Prop :=
  t = [] ∧ (hasCommitted log = true ∧ attempts log = [m.alertCheck] ∨
    Uncommitted log ∧ (hasFailed log = true ∨ foundNothing log = true))

end Telemetry

section
variable {m : Telemetry} {device : Device} {log : IngestLog} {t us ws : List TelemetryWrite}
variable {db : TelemetryDb}

@[simp] theorem hasCommitted_append (log log' : IngestLog) :
    hasCommitted (log ++ log') = (hasCommitted log || hasCommitted log') := List.any_append

@[simp] theorem hasFailed_append (log log' : IngestLog) :
    hasFailed (log ++ log') = (hasFailed log || hasFailed log') := List.any_append

@[simp] theorem foundNothing_append (log log' : IngestLog) :
    foundNothing (log ++ log') = (foundNothing log || foundNothing log') := List.any_append

@[simp] theorem attempts_append (log log' : IngestLog) :
    attempts (log ++ log') = attempts log ++ attempts log' := List.filterMap_append

theorem hasFailed_snoc {e : Event IngestCmd} (h : hasFailed [e] = true) :
    hasFailed (log ++ [e]) = true := by
  rw [hasFailed_append, h, Bool.or_true]

theorem Uncommitted.nil : Uncommitted [] := ⟨rfl, rfl⟩

theorem Uncommitted.snoc {e : Event IngestCmd} (h : Uncommitted log)
    (hc : hasCommitted [e] = false) (ha : Rawbin.attempts [e] = []) : Uncommitted (log ++ [e]) where
  committed := by rw [hasCommitted_append, h.committed, hc]; rfl
  attempts := by rw [attempts_append, h.attempts, ha]; rfl

/-! ## The coroutine alone -/

/-- The flush and the commit of `db.commit()`. -/
theorem flushAndCommit_expects (hpending : m.pending device = us ++ ws) (h : Uncommitted log) :
    ingestion.Always m.expects (fun log t r =>
      t = [] ∧ match r with
        | .ok _ => hasCommitted log = true ∧ attempts log = []
        | .error _ => Uncommitted log ∧ hasFailed log = true) log us (flushAndCommit ws) := by
  induction ws generalizing us log with
  | nil =>
    refine ⟨⟨h, device, by rw [hpending, List.append_nil]⟩, fun x db => ?_⟩
    cases x with
    | none => exact ⟨rfl, by rw [hasCommitted_append, h.committed]; rfl, by
        rw [attempts_append, h.attempts]; rfl⟩
    | some e => exact ⟨rfl, h.snoc rfl rfl, hasFailed_snoc rfl⟩
  | cons w ws ih =>
    refine ⟨⟨h, device, ws, hpending⟩, fun x db => ?_⟩
    cases x with
    | some e => exact ⟨rfl, h.snoc rfl rfl, hasFailed_snoc rfl⟩
    | none =>
      simp only [ingestion, IngestCmd.exec]
      cases w.violates (db.view us) with
      | none => exact ih (by rw [hpending, List.append_assoc]; rfl) (h.snoc rfl rfl)
      | some e => exact ⟨rfl, h.snoc rfl rfl, hasFailed_snoc rfl⟩

theorem rollback_expects (h : Uncommitted log) (hf : hasFailed log = true) :
    ingestion.Always m.expects m.ends log [] (perform .rollback) := by
  refine ⟨⟨h, rfl, hf⟩, fun x db => ?_⟩
  cases x with
  | none => exact ⟨rfl, .inr ⟨h.snoc rfl rfl, .inl (by rw [hasFailed_append, hf]; rfl)⟩⟩
  | some e => exact ⟨rfl, .inr ⟨h.snoc rfl rfl, .inl (by rw [hasFailed_append, hf]; rfl)⟩⟩

theorem dispatchAlertCheck_expects (hc : hasCommitted log = true) (ha : attempts log = []) :
    ingestion.Always m.expects (fun log t r => r = .ok () ∧ m.ends log t r) log []
      (dispatchAlertCheck m) := by
  refine ⟨⟨rfl, rfl, hc, ha⟩, fun x db => ?_⟩
  have hlog : hasCommitted (log ++ [⟨_, .applyAsync m.alertCheck, x.elim (.ok ()) .error⟩]) = true ∧
      attempts (log ++ [⟨_, .applyAsync m.alertCheck, x.elim (.ok ()) .error⟩]) =
        [m.alertCheck] := by
    rw [hasCommitted_append, attempts_append, hc, ha]
    exact ⟨rfl, rfl⟩
  cases x with
  | none => exact ⟨rfl, rfl, .inl hlog⟩
  | some e => exact ⟨rfl, rfl, .inl hlog⟩

/-- **The coroutine keeps its assertion**, whatever its commands answer. -/
theorem processTelemetryAsync_expects (m : Telemetry) :
    ingestion.Always m.expects m.ends [] [] (processTelemetryAsync m) := by
  refine Machine.Always.tryCatch (Q := fun log t r => match r with
    | .ok _ => m.ends log t (.ok ())
    | .error _ => t = [] ∧ Uncommitted log ∧ hasFailed log = true) ?_ (fun log t a h => h)
    fun log t e h => h.1 ▸ rollback_expects h.2.1 h.2.2
  refine ⟨⟨rfl, rfl, .nil⟩, fun x db => ?_⟩
  cases x with
  | some e => exact ⟨rfl, Uncommitted.nil.snoc rfl rfl, rfl⟩
  | none =>
    simp only [ingestion, IngestCmd.exec]
    cases (db.view []).devices.get? m.deviceId with
    | none => exact ⟨rfl, .inr ⟨Uncommitted.nil.snoc rfl rfl, .inr rfl⟩⟩
    | some device =>
      have hpending : m.pending device = [] ++ m.pending device := rfl
      refine (flushAndCommit_expects hpending (Uncommitted.nil.snoc rfl rfl)).bind
        (fun log t _ h => ?_) fun log t e h => h
      rw [h.1]
      refine (dispatchAlertCheck_expects h.2.1 h.2.2).mono fun log t r h => ?_
      obtain ⟨rfl, h⟩ := h
      exact h

/-! ## Statements -/

theorem firmwareUpdate_cases (m : Telemetry) (device : Device) :
    m.firmwareUpdate device = [] ∨
      ∃ v, m.firmwareUpdate device = [.updateFirmware m.deviceId v] ∧
        m.reading.firmwareVersion = some v ∧ v ≠ "" ∧ device.firmwareVersion ≠ some v := by
  unfold Telemetry.firmwareUpdate
  cases m.reading.firmwareVersion with
  | none => exact .inl rfl
  | some v =>
    by_cases h : v = "" ∨ device.firmwareVersion = some v
    · exact .inl (if_pos h)
    · exact .inr ⟨v, if_neg h, rfl, fun hv => h (.inl hv), fun hd => h (.inr hd)⟩

/-- Where a coroutine stands in its flush: before the INSERT there are only UPDATEs of its
device. -/
theorem pending_split {w : TelemetryWrite} (h : m.pending device = us ++ w :: ws) :
    (∀ w' ∈ us, ∃ v, w' = .updateFirmware m.deviceId v) ∧
      (w = .insertReading m.key m.row ∨ ∃ v, w = .updateFirmware m.deviceId v) := by
  unfold Telemetry.pending at h
  rcases firmwareUpdate_cases m device with hu | ⟨v, hu, -⟩
  · rw [hu] at h
    cases us with
    | nil => cases h; exact ⟨fun _ h => (nomatch h), .inl rfl⟩
    | cons u us => cases us <;> cases h
  · rw [hu] at h
    match us, h with
    | [], h => cases h; exact ⟨fun _ h => (nomatch h), .inr ⟨v, rfl⟩⟩
    | [u], h =>
      cases h
      exact ⟨fun w' hw => ⟨v, List.mem_singleton.mp hw⟩, .inl rfl⟩
    | u :: u' :: us, h => cases us <;> cases h

/-- After the UPDATE comes the INSERT. -/
theorem pending_second {w : TelemetryWrite} (h : m.pending device = us ++ w :: ws) (hus : us ≠ []) :
    w = .insertReading m.key m.row := by
  unfold Telemetry.pending at h
  rcases firmwareUpdate_cases m device with hu | ⟨v, hu, -⟩
  · rw [hu] at h
    match us, h with
    | u :: us, h => cases us <;> cases h
  · rw [hu] at h
    match us, h with
    | [u], h => cases h; rfl
    | u :: u' :: us, h => cases us <;> cases h

theorem insert_mem_pending : .insertReading m.key m.row ∈ m.pending device :=
  List.mem_append_right _ List.mem_cons_self

theorem view_append (db : TelemetryDb) (us ws : List TelemetryWrite) :
    db.view (us ++ ws) = (db.view us).view ws := List.foldl_append ..

theorem view_devices_contains (db : TelemetryDb) (us : List TelemetryWrite) (d : Uuid) :
    (db.view us).devices.contains d = db.devices.contains d := by
  induction us generalizing db with
  | nil => rfl
  | cons w us ih =>
    rw [TelemetryDb.view, List.foldl_cons]
    refine (ih (w.apply db)).trans ?_
    cases w with
    | updateFirmware d' v => exact Table.contains_update ..
    | insertReading k row => rfl

theorem view_sensorReadings (db : TelemetryDb) (h : ∀ w ∈ us, ∃ d v, w = .updateFirmware d v) :
    (db.view us).sensorReadings = db.sensorReadings := by
  induction us generalizing db with
  | nil => rfl
  | cons w us ih =>
    obtain ⟨d, v, rfl⟩ := h w List.mem_cons_self
    exact ih ((TelemetryWrite.updateFirmware d v).apply db) fun w hw =>
      h w (List.mem_cons_of_mem _ hw)

theorem view_pending_sensorReadings (db : TelemetryDb) (m : Telemetry) (device : Device) :
    (db.view (m.pending device)).sensorReadings = db.sensorReadings.insert m.key m.row := by
  have hsplit : (∀ w ∈ m.firmwareUpdate device, ∃ v, w = .updateFirmware m.deviceId v) ∧ _ :=
    pending_split (m := m) rfl
  rw [Telemetry.pending, view_append]
  show (db.view (m.firmwareUpdate device)).sensorReadings.insert _ _ = _
  rw [view_sensorReadings db fun w hw => ⟨_, hsplit.1 w hw⟩]

/-- A commit changes the version of the coroutine's own device only. -/
theorem view_pending_devices (db : TelemetryDb) (m : Telemetry) (device : Device) :
    (db.view (m.pending device)).devices = (db.view (m.firmwareUpdate device)).devices := by
  rw [Telemetry.pending, view_append]
  rfl

theorem exec_of_valid {w : TelemetryWrite} (h : w.violates (db.view t) = none) :
    IngestCmd.exec none (.execute w) t db = (.ok (), t ++ [w], db) := by
  simp only [IngestCmd.exec, h]

theorem exec_of_violates {w : TelemetryWrite} {e : Exn} (h : w.violates (db.view t) = some e) :
    IngestCmd.exec none (.execute w) t db = (.error e, [], db) := by
  simp only [IngestCmd.exec, h]

/-- Without a failure, only an INSERT of a key that is taken is refused. -/
theorem hasFailed_of_exec {cm : IngestCmd β} (hcm : m.expects log t cm)
    (hd : db.devices.contains m.deviceId = true)
    (hf : hasFailed [⟨β, cm, (ingestion.exec none cm t db).1⟩] = true) :
    db.sensorReadings.contains m.key = true := by
  cases cm with
  | device id => cases hf
  | commit => cases hf
  | rollback => cases hf
  | applyAsync check => cases hf
  | execute w =>
    obtain ⟨-, device, ws, ht⟩ := hcm
    obtain ⟨hbefore, hw⟩ := pending_split ht
    have hview := view_sensorReadings db fun w' hw' => ⟨_, hbefore w' hw'⟩
    cases hv : w.violates (db.view t) with
    | none =>
      rw [show ingestion.exec none (.execute w) t db = _ from exec_of_valid hv] at hf
      cases hf
    | some e =>
      rcases hw with rfl | ⟨v, rfl⟩
      · have hd' : db.devices.contains m.key.2 = true := hd
        exact (by simpa [TelemetryWrite.violates, hview, view_devices_contains, hd'] using hv :
          db.sensorReadings.contains m.key = true ∧ Exn.integrityError = e).1
      · simp [TelemetryWrite.violates, view_devices_contains, hd] at hv

theorem foundNothing_of_exec {cm : IngestCmd β} (hcm : m.expects log t cm)
    (hd : db.devices.contains m.deviceId = true) :
    foundNothing [⟨β, cm, (ingestion.exec none cm t db).1⟩] = false := by
  cases cm with
  | device id =>
    obtain ⟨rfl, rfl, -⟩ := hcm
    obtain ⟨row, hrow⟩ := Table.contains_iff.mp hd
    show foundNothing [⟨_, .device m.deviceId, .ok (db.devices.get? m.deviceId)⟩] = false
    rw [hrow]
    rfl
  | execute w => rfl
  | commit => rfl
  | rollback => rfl
  | applyAsync check => rfl

/-! ## Steps -/

/-- The INSERT was executed and not yet committed. -/
def Inserted (t : Coroutine) : Prop := .insertReading t.req.key t.req.row ∈ t.sess

/-- Only this coroutine moved. -/
structure Moved (c c' : IngestConfig) (i : ℕ) (t t' : Coroutine) : Prop where
  before : c.threads[i]? = some t
  after : c'.threads = c.threads.set i t'
  req : t'.req = t.req

/-- **What a step can do.** -/
inductive IngestStep (c c' : IngestConfig) : Prop where
  | spawn (m : Telemetry) (state : c'.state = c.state)
      (threads : c'.threads = c.threads ++ [ingestion.spawn m])
  | env (e : DevicesChange) (threads : c'.threads = c.threads)
      (state : c'.state = { c.state with devices := e.apply c.state.devices })
  | quiet {i : ℕ} {t t' : Coroutine} (moved : Moved c c' i t t') (state : c'.state = c.state)
      (committed : hasCommitted t'.log = hasCommitted t.log) (sess : t'.sess = [])
  | execute {i : ℕ} {t t' : Coroutine} {device : Device} {w : TelemetryWrite}
      {ws : List TelemetryWrite} (moved : Moved c c' i t t') (state : c'.state = c.state)
      (committed : hasCommitted t'.log = hasCommitted t.log) (sess : t'.sess = t.sess ++ [w])
      (pending : t.req.pending device = t.sess ++ w :: ws)
      (valid : w.violates (c.state.view t.sess) = none)
      (free : ∀ (j : ℕ) t₁, j ≠ i → c.threads[j]? = some t₁ →
        ∀ w' ∈ t₁.sess, w.conflicts w' = false)
  | commit {i : ℕ} {t t' : Coroutine} {device : Device} (moved : Moved c c' i t t')
      (pending : t.sess = t.req.pending device)
      (state : c'.state = c.state.view (t.req.pending device))
      (fresh : hasCommitted t.log = false) (committed : hasCommitted t'.log = true)
      (sess : t'.sess = [])

/-- Every coroutine satisfies its assertion from where it stands. -/
def Expecting (c : IngestConfig) : Prop :=
  ∀ t ∈ c.threads, ingestion.Always t.req.expects t.req.ends t.log t.sess t.prog

theorem IngestStep.of_step {c c' : IngestConfig} {l : Label (Option Exn) Telemetry DevicesChange}
    (hc : Expecting c) (hs : ingestion.Step c l c') : IngestStep c c' := by
  cases hs with
  | spawn m => exact .spawn m rfl rfl
  | env e => exact .env e rfl rfl
  | @step ts i s β cm k t x hi hp hb =>
    have hcm : t.req.expects t.log t.sess cm := by
      have h := hc t (List.mem_of_getElem? hi)
      rw [hp] at h
      exact h.1
    have hmoved : Moved ⟨s, ts⟩ ⟨(ingestion.exec x cm t.sess s).2.2,
        ts.set i (ingestion.advance x t cm k s)⟩ i t (ingestion.advance x t cm k s) :=
      ⟨hi, rfl, rfl⟩
    -- only the commit adds an event that counts as one
    have hsame (h : hasCommitted [⟨β, cm, (ingestion.exec x cm t.sess s).1⟩] = false) :
        hasCommitted (ingestion.advance x t cm k s).log = hasCommitted t.log := by
      show hasCommitted (t.log ++ [_]) = _
      rw [hasCommitted_append, h, Bool.or_false]
    cases cm with
    | device id =>
      cases x with
      | none => exact .quiet hmoved rfl (hsame rfl) hcm.2.1
      | some e => exact .quiet hmoved rfl (hsame rfl) hcm.2.1
    | rollback => cases x <;> exact .quiet hmoved rfl (hsame rfl) rfl
    | applyAsync check =>
      cases x with
      | none => exact .quiet hmoved rfl (hsame rfl) hcm.2.1
      | some e => exact .quiet hmoved rfl (hsame rfl) hcm.2.1
    | commit =>
      obtain ⟨hfresh, device, ht⟩ := hcm
      cases x with
      | none =>
        refine .commit hmoved ht (congrArg s.view ht) hfresh.committed ?_ rfl
        show hasCommitted (t.log ++ [_]) = true
        rw [hasCommitted_append]
        exact Bool.or_true _
      | some e => exact .quiet hmoved rfl (hsame rfl) rfl
    | execute w =>
      obtain ⟨-, device, ws, ht⟩ := hcm
      cases x with
      | some e => exact .quiet hmoved rfl (hsame rfl) rfl
      | none =>
        cases hv : w.violates (s.view t.sess) with
        | some e =>
          have hx := exec_of_violates hv
          exact .quiet hmoved (congrArg (fun r => r.2.2) hx)
            (hsame rfl)
            (congrArg (fun r => r.2.1) hx)
        | none =>
          have hx := exec_of_valid hv
          refine .execute hmoved (congrArg (fun r => r.2.2) hx)
            (hsame rfl)
            (congrArg (fun r => r.2.1) hx) ht hv fun j t₁ hij hj w' hw' => ?_
          have hfree := List.any_eq_false.mp hb t₁.sess (System.mem_others hj hij)
          exact Bool.not_eq_true _ ▸ fun h => hfree (List.any_eq_true.mpr ⟨w', hw', h⟩)
end

end Rawbin
