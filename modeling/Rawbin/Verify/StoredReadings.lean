import Rawbin.Verify.Coroutine

/-!
# Readings are stored once

The committed rows are those of the coroutines that committed, one for each key: the INSERT finds
its key free, and its lock keeps it free up to the commit. Without failures nothing is lost, and
the coroutines do not wait for one another in a circle.
-/

namespace Rawbin

/-! ## Every run -/

/-- What the tables hold of a coroutine: its row once it has committed, and nothing with its key
while the INSERT is not committed. -/
structure Accounted (db : TelemetryDb) (t : Coroutine) : Prop where
  stored : hasCommitted t.log = true → db.sensorReadings.get? t.req.key = some t.req.row
  free : Inserted t → db.sensorReadings.contains t.req.key = false
  known : Inserted t → db.devices.contains t.req.deviceId = true

structure Apart (t t' : Coroutine) : Prop where
  committed : hasCommitted t.log = true → hasCommitted t'.log = true → t.req.key ≠ t'.req.key
  inserted : Inserted t → Inserted t' → t.req.key ≠ t'.req.key

/-- The rows that were not stored at the start are those of the coroutines that committed, one for
each key. -/
structure Consistent (base : Table (Time × Uuid) ReadingRow) (c : IngestConfig) : Prop where
  each : ∀ t ∈ c.threads, Accounted c.state t
  pairs : System.Pairs Apart c.threads
  origin : ∀ k, c.state.sensorReadings.contains k = true →
    base.contains k = true ∨ ∃ t ∈ c.threads, hasCommitted t.log = true ∧ t.req.key = k
  known : ∀ k, c.state.sensorReadings.contains k = true →
    base.contains k = true ∨ c.state.devices.contains k.2 = true

theorem DevicesChange.contains (e : DevicesChange) {t : Table Uuid Device} {d : Uuid}
    (h : t.contains d = true) : (e.apply t).contains d = true := by
  obtain ⟨row, hrow⟩ := Table.contains_iff.mp h
  obtain ⟨row', hrow', -⟩ := e.keeps t d row hrow
  exact Table.contains_of_get? hrow'

section
variable {c c' : IngestConfig} {i : ℕ} {t t' : Coroutine} {db : TelemetryDb} {device : Device}

theorem Apart.symm (h : Apart t t') : Apart t' t where
  committed hc hc' he := h.committed hc' hc he.symm
  inserted hi hi' he := h.inserted hi' hi he.symm

theorem Moved.mem (h : Moved c c' i t t') : t ∈ c.threads := List.mem_of_getElem? h.before

theorem Moved.forall {P : Coroutine → Prop} (h : Moved c c' i t t') (hold : ∀ t ∈ c.threads, P t)
    (hnew : P t') : ∀ t ∈ c'.threads, P t := by
  intro u hu
  rw [h.after] at hu
  rcases List.mem_or_eq_of_mem_set hu with hu | rfl
  · exact hold u hu
  · exact hnew

theorem Moved.mem_after (h : Moved c c' i t t') : t' ∈ c'.threads := by
  rw [h.after]
  exact List.mem_set (List.getElem?_eq_some_iff.mp h.before).1 t'

/-- The coroutines of the rows that were stored before are still there. -/
theorem Moved.origin (h : Moved c c' i t t') (hc : hasCommitted t.log = true →
    hasCommitted t'.log = true)
    {k : Time × Uuid} (H : ∃ t ∈ c.threads, hasCommitted t.log = true ∧ t.req.key = k) :
    ∃ t ∈ c'.threads, hasCommitted t.log = true ∧ t.req.key = k := by
  obtain ⟨u, hu, hcu, hk⟩ := H
  obtain ⟨j, hj⟩ := List.getElem?_of_mem hu
  by_cases hij : j = i
  · subst hij
    cases hj.symm.trans h.before
    exact ⟨t', h.mem_after, hc hcu, h.req ▸ hk⟩
  · refine ⟨u, List.mem_of_getElem? (i := j) ?_, hcu, hk⟩
    rw [h.after, List.getElem?_set_ne (Ne.symm hij)]
    exact hj

theorem not_inserted (h : t.sess = []) : ¬ Inserted t := by
  intro hi
  rw [Inserted, h] at hi
  cases hi

namespace Consistent

variable {base : Table (Time × Uuid) ReadingRow}

theorem spawn {m : Telemetry} (H : Consistent base c) (state : c'.state = c.state)
    (threads : c'.threads = c.threads ++ [ingestion.spawn m]) : Consistent base c' where
  each u hu := by
    rw [threads] at hu
    rw [state]
    rcases List.mem_append.mp hu with hu | hu
    · exact H.each u hu
    · cases List.mem_singleton.mp hu
      exact ⟨fun h => (nomatch h), fun h => (nomatch h), fun h => (nomatch h)⟩
  pairs := by
    rw [threads]
    refine H.pairs.snoc fun u _ => ?_
    have hu : Apart u (ingestion.spawn m) := ⟨fun _ h => (nomatch h), fun _ h => (nomatch h)⟩
    exact ⟨hu, hu.symm⟩
  origin k hk := by
    refine (H.origin k (state ▸ hk)).imp_right fun h => ?_
    obtain ⟨u, hu, h⟩ := h
    exact ⟨u, threads ▸ List.mem_append_left _ hu, h⟩
  known k hk := by
    rw [state] at hk ⊢
    exact H.known k hk

theorem env (H : Consistent base c) (e : DevicesChange) (threads : c'.threads = c.threads)
    (state : c'.state = { c.state with devices := e.apply c.state.devices }) :
      Consistent base c' where
  each u hu := by
    have h := H.each u (threads ▸ hu)
    rw [state]
    exact ⟨h.stored, h.free, fun hi => e.contains (h.known hi)⟩
  pairs := threads ▸ H.pairs
  origin k hk := by
    rw [state] at hk
    rw [threads]
    exact H.origin k hk
  known k hk := by
    rw [state] at hk ⊢
    exact (H.known k hk).imp_right e.contains

/-- A step that commits nothing; it may execute the INSERT. -/
theorem move (H : Consistent base c) (moved : Moved c c' i t t') (state : c'.state = c.state)
    (committed : hasCommitted t'.log = hasCommitted t.log)
    (each : Inserted t' → c.state.sensorReadings.contains t.req.key = false ∧
      c.state.devices.contains t.req.deviceId = true)
    (apart : ∀ (j : ℕ) u, j ≠ i → c.threads[j]? = some u → Inserted t' → Inserted u →
      t.req.key ≠ u.req.key) : Consistent base c' where
  each := by
    rw [state]
    refine moved.forall H.each ⟨fun h => ?_, fun h => ?_, fun h => ?_⟩
    · rw [moved.req]
      exact (H.each t moved.mem).stored (committed ▸ h)
    · rw [moved.req]
      exact (each h).1
    · rw [moved.req]
      exact (each h).2
  pairs := by
    rw [moved.after]
    refine H.pairs.set fun j u hj hu => ?_
    have h : Apart t' u :=
      { committed := fun ht hu' => by
          rw [moved.req]
          exact (H.pairs i j t u hj.symm moved.before hu).committed (committed ▸ ht) hu'
        inserted := fun ht hu' => by
          rw [moved.req]
          exact apart j u hj hu ht hu' }
    exact ⟨h.symm, h⟩
  origin k hk := (H.origin k (state ▸ hk)).imp_right (moved.origin (committed ▸ id))
  known k hk := by
    rw [state] at hk ⊢
    exact H.known k hk

/-- An executed INSERT found its key free, and no other transaction holds it. -/
theorem execute {w : TelemetryWrite} {ws : List TelemetryWrite} (H : Consistent base c)
    (moved : Moved c c' i t t') (state : c'.state = c.state)
    (committed : hasCommitted t'.log = hasCommitted t.log) (sess : t'.sess = t.sess ++ [w])
    (pending : t.req.pending device = t.sess ++ w :: ws)
    (valid : w.violates (c.state.view t.sess) = none)
    (free : ∀ (j : ℕ) t₁, j ≠ i → c.threads[j]? = some t₁ →
      ∀ w' ∈ t₁.sess, w.conflicts w' = false) : Consistent base c' := by
  obtain ⟨hbefore, hw⟩ := pending_split pending
  have hinserted (h : Inserted t') : w = .insertReading t.req.key t.req.row := by
    rw [Inserted, sess, moved.req] at h
    rcases List.mem_append.mp h with h | h
    · obtain ⟨v, hv⟩ := hbefore _ h
      cases hv
    · exact (List.mem_singleton.mp h).symm
  refine H.move moved state committed (fun h => ?_) fun j u hj hu h hu' he => ?_
  · cases hinserted h
    have hview := view_sensorReadings c.state fun w' hw' => ⟨_, hbefore w' hw'⟩
    simp only [TelemetryWrite.violates, hview, view_devices_contains, Bool.or_eq_true,
      Bool.not_eq_true', ite_eq_right_iff, reduceCtorEq, imp_false, not_or,
      Bool.not_eq_true, Bool.not_eq_false] at valid
    exact valid
  · cases hinserted h
    have hfree := free j u hj hu _ hu'
    simp only [TelemetryWrite.conflicts, decide_eq_false_iff_not] at hfree
    exact hfree he

theorem commit (H : Consistent base c) (moved : Moved c c' i t t')
    (pending : t.sess = t.req.pending device)
    (state : c'.state = c.state.view (t.req.pending device))
    (committed : hasCommitted t'.log = true) (sess : t'.sess = []) : Consistent base c' := by
  have hins : Inserted t := by
    rw [Inserted, pending]
    exact insert_mem_pending
  have hfree := (H.each t moved.mem).free hins
  have hreadings : c'.state.sensorReadings = c.state.sensorReadings.insert t.req.key t.req.row := by
    rw [state, view_pending_sensorReadings]
  have hdevices (d : Uuid) : c'.state.devices.contains d = c.state.devices.contains d := by
    rw [state, view_devices_contains]
  have hnot := not_inserted sess
  have hstored : c'.state.sensorReadings.get? t.req.key = some t.req.row := by
    rw [hreadings, Table.get?_insert_self hfree]
  refine ⟨fun u hu => ?_, ?_, fun k hk => ?_, fun k hk => ?_⟩
  · rw [moved.after] at hu
    obtain ⟨j, hj⟩ := List.getElem?_of_mem hu
    by_cases hij : i = j
    · subst hij
      rw [List.getElem?_set_self (List.getElem?_eq_some_iff.mp moved.before).1] at hj
      cases hj
      exact ⟨fun _ => by rw [moved.req]; exact hstored, fun h => absurd h hnot,
        fun h => absurd h hnot⟩
    · rw [List.getElem?_set_ne hij] at hj
      have hu' := H.each u (List.mem_of_getElem? hj)
      refine ⟨fun h => ?_, fun h => ?_, fun h => ?_⟩
      · rw [hreadings]
        exact Table.get?_insert_of_some (hu'.stored h) ..
      · rw [hreadings, ← Bool.not_eq_true, Table.contains_insert, not_or, Bool.not_eq_true]
        exact ⟨hu'.free h, ((H.pairs i j t u hij moved.before hj).inserted hins h).symm⟩
      · rw [hdevices]
        exact hu'.known h
  · rw [moved.after]
    refine H.pairs.set fun j u hj hu => ?_
    have h : Apart t' u :=
      { committed := fun _ hu' he => by
          have hold := Table.contains_of_get? ((H.each u (List.mem_of_getElem? hu)).stored hu')
          rw [← he, moved.req, hfree] at hold
          cases hold
        inserted := fun ht _ => absurd ht hnot }
    exact ⟨h.symm, h⟩
  · rw [hreadings, Table.contains_insert] at hk
    rcases hk with hk | rfl
    · exact (H.origin k hk).imp_right (moved.origin fun _ => committed)
    · exact .inr ⟨t', moved.mem_after, committed, congrArg Telemetry.key moved.req⟩
  · rw [hdevices]
    rw [hreadings, Table.contains_insert] at hk
    rcases hk with hk | rfl
    · exact H.known k hk
    · exact .inr ((H.each t moved.mem).known hins)

theorem step (H : Consistent base c) (hs : IngestStep c c') : Consistent base c' := by
  cases hs with
  | spawn m state threads => exact H.spawn state threads
  | env e threads state => exact H.env e threads state
  | quiet moved state committed sess =>
    have hnot := not_inserted sess
    exact H.move moved state committed (fun h => absurd h hnot) fun _ _ _ _ h => absurd h hnot
  | execute moved state committed sess pending valid free =>
    exact H.execute moved state committed sess pending valid free
  | commit moved pending state fresh committed sess =>
    exact H.commit moved pending state committed sess

end Consistent

theorem Expecting.step {l : Label (Option Exn) Telemetry DevicesChange} (H : Expecting c)
    (hs : ingestion.Step c l c') : Expecting c' :=
  hs.thread_cases H (fun m _ => processTelemetryAsync_expects m) fun {_ _ _ t x} ht hp => by
    have h := H t ht
    rw [hp] at h
    exact h.2 x c.state

theorem ingestStart_consistent (db : TelemetryDb) :
    Expecting ⟨db, []⟩ ∧ Consistent db.sensorReadings ⟨db, []⟩ :=
  ⟨fun _ h => (nomatch h), fun _ h => (nomatch h), fun _ _ _ _ _ h => (nomatch h),
    fun _ h => .inl h, fun _ h => .inl h⟩

theorem ingest_invariant {ok : IngestConfig → Label (Option Exn) Telemetry DevicesChange → Prop}
    (H : ingestion.Run ok ⟨db, []⟩ c) : Expecting c ∧ Consistent db.sensorReadings c :=
  H.invariant (P := fun c => Expecting c ∧ Consistent db.sensorReadings c)
    (ingestStart_consistent db) fun _ _ _ hc _ hs => ⟨hc.1.step hs, hc.2.step (.of_step hc.1 hs)⟩

/-! ## Attempts -/

/-- The arguments are the measurements of the row, and its time. -/
structure AlertCheck.Carries (check : AlertCheck) (k : Time × Uuid) (row : ReadingRow) : Prop where
  deviceId : check.deviceId = k.2
  temperatureC : check.temperatureC = row.temperatureC
  co2Ppm : check.co2Ppm = row.co2Ppm
  humidityPct : check.humidityPct = row.humidityPct
  phLevel : check.phLevel = row.phLevel
  readingTime : ∃ t : PyDatetime, check.readingTime = .datetime t ∧ t.instant = k.1

theorem Telemetry.alertCheck_carries (m : Telemetry) : m.alertCheck.Carries m.key m.row :=
  ⟨rfl, rfl, rfl, rfl, rfl, m.reading.time, rfl, rfl⟩

/-- The alert check of the coroutine was tried once, or is what it does next. -/
def EnqueuesOnce (t : Coroutine) (check : AlertCheck) : Prop :=
  attempts t.log = [check] ∨ attempts t.log = [] ∧ ∃ k, t.prog = .cmd (.applyAsync check) k

/-- What a coroutine has enqueued, by whether it has committed. -/
theorem Expecting.attempts (H : Expecting c) (ht : t ∈ c.threads) :
    (hasCommitted t.log = true → EnqueuesOnce t t.req.alertCheck) ∧
      (hasCommitted t.log = false → Rawbin.attempts t.log = []) := by
  have h := H t ht
  have hfresh (hu : Uncommitted t.log) :
      (hasCommitted t.log = true → EnqueuesOnce t t.req.alertCheck) ∧
        (hasCommitted t.log = false → Rawbin.attempts t.log = []) := by
    refine ⟨fun hc => ?_, fun _ => hu.attempts⟩
    rw [hu.committed] at hc
    cases hc
  have hended (he : t.req.ends t.log t.sess (.ok ())) :
      (hasCommitted t.log = true → EnqueuesOnce t t.req.alertCheck) ∧
        (hasCommitted t.log = false → Rawbin.attempts t.log = []) := by
    rcases he.2 with ⟨hc, ha⟩ | ⟨hu, -⟩
    · refine ⟨fun _ => .inl ha, fun hc' => ?_⟩
      rw [hc] at hc'
      cases hc'
    · exact hfresh hu
  cases hp : t.prog with
  | pure a => rw [hp] at h; exact hended h
  | raise e => rw [hp] at h; exact hended h
  | cmd cm k =>
    rw [hp] at h
    have hcm := h.1
    cases cm with
    | device id => exact hfresh hcm.2.2
    | execute w => exact hfresh hcm.1
    | commit => exact hfresh hcm.1
    | rollback => exact hfresh hcm.1
    | applyAsync check =>
      obtain ⟨rfl, -, hc, ha⟩ := hcm
      refine ⟨fun _ => .inr ⟨ha, k, hp⟩, fun hc' => ?_⟩
      rw [hc] at hc'
      cases hc'

/-! ## Effects -/

/-- No row and no version has changed. -/
structure Unchanged (db db' : TelemetryDb) : Prop where
  sensorReadings : db'.sensorReadings = db.sensorReadings
  firmware : ∀ d row, db.devices.get? d = some row →
    ∃ row', db'.devices.get? d = some row' ∧ row'.firmwareVersion = row.firmwareVersion

theorem Unchanged.of_eq {db' : TelemetryDb} (h : db' = db) : Unchanged db db' :=
  h ▸ ⟨rfl, fun _ row hrow => ⟨row, hrow, rfl⟩⟩

/-- The coroutine that moved committed all that it had pending. -/
def Commits (c c' : IngestConfig) : Prop :=
  ∃ i t t' device, Moved c c' i t t' ∧ hasCommitted t.log = false ∧ hasCommitted t'.log = true ∧
    c'.state = c.state.view (t.req.pending device)

/-- Only the commit of a coroutine changes anything. -/
theorem IngestStep.unchanged_or_commits (hs : IngestStep c c') :
    Unchanged c.state c'.state ∨ Commits c c' := by
  cases hs with
  | spawn m state threads => exact .inl (.of_eq state)
  | env e threads state => exact .inl (state ▸ ⟨rfl, e.keeps c.state.devices⟩)
  | quiet moved state committed sess => exact .inl (.of_eq state)
  | execute moved state committed sess pending valid free => exact .inl (.of_eq state)
  | commit moved pending state fresh committed sess =>
    exact .inr ⟨_, _, _, _, moved, fresh, committed, state⟩

/-- A stored row stays as it is. -/
theorem IngestStep.get?_of_get? (hs : IngestStep c c') {k : Time × Uuid} {row : ReadingRow}
    (h : c.state.sensorReadings.get? k = some row) : c'.state.sensorReadings.get? k = some row := by
  cases hs with
  | spawn m state threads => rw [state]; exact h
  | env e threads state => rw [state]; exact h
  | quiet moved state committed sess => rw [state]; exact h
  | execute moved state committed sess pending valid free => rw [state]; exact h
  | commit moved pending state fresh committed sess =>
    rw [state, view_pending_sensorReadings]
    exact Table.get?_insert_of_some h ..

theorem IngestStep.known (hs : IngestStep c c') {d : Uuid}
    (h : c.state.devices.contains d = true) : c'.state.devices.contains d = true := by
  cases hs with
  | spawn m state threads => rw [state]; exact h
  | env e threads state => rw [state]; exact e.contains h
  | quiet moved state committed sess => rw [state]; exact h
  | execute moved state committed sess pending valid free => rw [state]; exact h
  | commit moved pending state fresh committed sess =>
    rw [state, view_devices_contains]
    exact h

/-! ## Runs without failures -/

def faultless : Label (Option Exn) Telemetry DevicesChange → Bool
  | .step _ (some _) => false
  | _ => true

/-- A coroutine of a known device that did not commit found its key taken. -/
structure Lossless (devices : Table Uuid Device) (c : IngestConfig) : Prop where
  known : ∀ d, devices.contains d = true → c.state.devices.contains d = true
  failed : ∀ t ∈ c.threads, devices.contains t.req.deviceId = true → hasFailed t.log = true →
    c.state.sensorReadings.contains t.req.key = true
  found : ∀ t ∈ c.threads, devices.contains t.req.deviceId = true → foundNothing t.log = false

theorem Lossless.step {devices : Table Uuid Device} {l : Label (Option Exn) Telemetry DevicesChange}
    (H : Lossless devices c) (he : Expecting c) (hl : faultless l = true)
    (hs : ingestion.Step c l c') : Lossless devices c' := by
  have hstep := IngestStep.of_step he hs
  have hkept {k : Time × Uuid} (h : c.state.sensorReadings.contains k = true) :
      c'.state.sensorReadings.contains k = true := by
    obtain ⟨row, hrow⟩ := Table.contains_iff.mp h
    exact Table.contains_of_get? (hstep.get?_of_get? hrow)
  have hall (u' : Coroutine) (hu' : u' ∈ c'.threads)
      (hd : devices.contains u'.req.deviceId = true) :
      (hasFailed u'.log = true → c'.state.sensorReadings.contains u'.req.key = true) ∧
        foundNothing u'.log = false := by
    obtain ⟨j, hj⟩ := List.getElem?_of_mem hu'
    rcases hs.getElem?_cases hj with ⟨hold, _⟩ | ⟨m, _, _, rfl⟩ |
      ⟨x, u, β, cm, k, rfl, hu, hp, _, rfl, _⟩
    · have hu := List.mem_of_getElem? hold
      exact ⟨fun hf => hkept (H.failed u' hu hd hf), H.found u' hu hd⟩
    · exact ⟨fun h => (nomatch h), rfl⟩
    · have hu := List.mem_of_getElem? hu
      have hcm := he u hu
      rw [hp] at hcm
      cases x with
      | some e => cases hl
      | none =>
        show (hasFailed (u.log ++ [_]) = true → _) ∧ foundNothing (u.log ++ [_]) = false
        refine ⟨fun hf => ?_, ?_⟩
        · rw [hasFailed_append, Bool.or_eq_true] at hf
          rcases hf with hf | hf
          · exact hkept (H.failed u hu hd hf)
          · exact hkept (hasFailed_of_exec hcm.1 (H.known _ hd) hf)
        · rw [foundNothing_append, H.found u hu hd]
          exact foundNothing_of_exec hcm.1 (H.known _ hd)
  exact ⟨fun d hd => hstep.known (H.known d hd), fun u hu hd => (hall u hu hd).1,
    fun u hu hd => (hall u hu hd).2⟩

/-! ## No deadlock -/

/-- A coroutine whose statement may make others wait commits next, or inserts its row first. -/
theorem Expecting.written {w : TelemetryWrite} (H : Expecting c) (ht : t ∈ c.threads)
    (hw : w ∈ t.sess) :
    (∃ k, t.prog = .cmd .commit k) ∨
      (∃ v, w = .updateFirmware t.req.deviceId v) ∧
        ∃ k, t.prog = .cmd (.execute (.insertReading t.req.key t.req.row)) k := by
  have h := H t ht
  cases hp : t.prog with
  | pure a =>
    rw [hp] at h
    rw [h.1] at hw
    cases hw
  | raise e =>
    rw [hp] at h
    rw [h.1] at hw
    cases hw
  | cmd cm k =>
    rw [hp] at h
    have hcm := h.1
    cases cm with
    | device id =>
      rw [hcm.2.1] at hw
      cases hw
    | rollback =>
      rw [hcm.2.1] at hw
      cases hw
    | applyAsync check =>
      rw [hcm.2.1] at hw
      cases hw
    | commit => exact .inl ⟨k, rfl⟩
    | execute w' =>
      obtain ⟨-, device, ws, hpending⟩ := hcm
      have hw' := pending_second hpending (List.ne_nil_of_mem hw)
      exact .inr ⟨(pending_split hpending).1 w hw, k, by rw [hw']⟩

/-- A coroutine can take its next step, unless another holds what its statement needs. -/
theorem can_step {cm : IngestCmd β} {k : β → Prog IngestCmd Exn Unit} (ht : t ∈ c.threads)
    (hp : t.prog = .cmd cm k)
    (hfree : ∀ w, HEq cm (IngestCmd.execute w) → ∀ u ∈ c.threads, ∀ w' ∈ u.sess,
      w.conflicts w' = false) : ∃ i c', ingestion.Step c (.step i none) c' := by
  obtain ⟨i, hi⟩ := List.getElem?_of_mem ht
  obtain ⟨s, ts⟩ := c
  refine ⟨i, _, .step none hi hp ?_⟩
  cases cm with
  | execute w =>
    refine List.any_eq_false.mpr fun ws hws => ?_
    obtain ⟨u, hu, rfl⟩ := List.mem_map.mp hws
    rw [Bool.not_eq_true, List.any_eq_false]
    intro w' hw'
    rw [hfree w .rfl u (List.mem_of_mem_eraseIdx hu) w' hw']
    exact Bool.false_ne_true
  | device id => rfl
  | commit => rfl
  | rollback => rfl
  | applyAsync check => rfl

/-- **No deadlock**: while a coroutine has not ended, one of them can take its next step. -/
theorem Expecting.progress (H : Expecting c) (h : ∃ t ∈ c.threads, t.ended = false) :
    ∃ i c', ingestion.Step c (.step i none) c' := by
  by_cases hcommit : ∃ t ∈ c.threads, ∃ k, t.prog = .cmd .commit k
  · obtain ⟨t, ht, k, hp⟩ := hcommit
    exact can_step ht hp fun w he => by cases he
  by_cases hupdate : ∃ t ∈ c.threads, t.sess ≠ []
  · -- nobody holds a key, so the INSERT after an UPDATE is free
    obtain ⟨t, ht, hne⟩ := hupdate
    obtain ⟨w, hw⟩ := List.exists_mem_of_ne_nil _ hne
    obtain ⟨k, hp⟩ | ⟨-, k, hp⟩ := H.written ht hw
    · exact absurd ⟨t, ht, k, hp⟩ hcommit
    refine can_step ht hp fun w₁ he u hu w' hw' => ?_
    cases he
    obtain hcom | ⟨⟨v, rfl⟩, -⟩ := H.written hu hw'
    · exact absurd ⟨u, hu, hcom⟩ hcommit
    · rfl
  · obtain ⟨t, ht, he⟩ := h
    cases hp : t.prog with
    | pure a => simp only [Thread.ended, hp, reduceCtorEq] at he
    | raise e => simp only [Thread.ended, hp, reduceCtorEq] at he
    | cmd cm k =>
      refine can_step ht hp fun w _ u hu w' hw' => ?_
      exact absurd ⟨u, hu, List.ne_nil_of_mem hw'⟩ hupdate

/-! ## Together -/

/-- The rows, the coroutines that committed them and the alert checks match one to one. -/
structure IngestedOnce (c : IngestConfig) : Prop where
  row : ∀ k row, c.state.sensorReadings.get? k = some row →
    c.state.devices.contains k.2 = true ∧
      ∃! i : ℕ, ∃ t : Coroutine, c.threads[i]? = some t ∧ hasCommitted t.log = true ∧
        t.req.key = k ∧ t.req.row = row
  enqueued : ∀ t ∈ c.threads, hasCommitted t.log = true →
    c.state.sensorReadings.get? t.req.key = some t.req.row ∧
      ∃ check : AlertCheck, check.Carries t.req.key t.req.row ∧ EnqueuesOnce t check
  attempted : ∀ t ∈ c.threads, hasCommitted t.log = false → attempts t.log = []

theorem Consistent.toIngestedOnce (H : Consistent .empty c) (he : Expecting c) :
    IngestedOnce c where
  row k row hrow := by
    have hk := Table.contains_of_get? hrow
    refine ⟨(H.known k hk).resolve_left Bool.false_ne_true, ?_⟩
    obtain ⟨t, ht, hc, rfl⟩ := (H.origin k hk).resolve_left Bool.false_ne_true
    obtain ⟨i, hi⟩ := List.getElem?_of_mem ht
    have hrow' : t.req.row = row := Option.some.inj (((H.each t ht).stored hc).symm.trans hrow)
    refine ⟨i, ⟨t, hi, hc, rfl, hrow'⟩, fun j hj => ?_⟩
    obtain ⟨t', hj, hc', hk', -⟩ := hj
    by_contra hij
    exact (H.pairs j i t' t hij hj hi).committed hc' hc hk'
  enqueued t ht hc := ⟨(H.each t ht).stored hc, _, t.req.alertCheck_carries, (he.attempts ht).1 hc⟩
  attempted t ht := (he.attempts ht).2

theorem Expecting.ends (he : Expecting c) (ht : t ∈ c.threads) (h : t.ended = true) :
    t.req.ends t.log t.sess (.ok ()) := by
  have hall := he t ht
  cases hp : t.prog with
  | cmd cm k => simp only [Thread.ended, hp, Bool.false_eq_true] at h
  | pure a => rw [hp] at hall; exact hall
  | raise e => rw [hp] at hall; exact hall

theorem faultless_invariant (H : ingestion.Run (fun _ l => faultless l = true) ⟨db, []⟩ c) :
    Lossless db.devices c := by
  have hinv := H.invariant (P := fun c => Expecting c ∧ Lossless db.devices c)
    ⟨(ingestStart_consistent db).1, fun _ h => h, fun _ h => (nomatch h), fun _ h => (nomatch h)⟩
    fun _ _ _ hc hok hs => ⟨hc.1.step hs, hc.2.step hc.1 hok hs⟩
  exact hinv.2

/-- When all coroutines have ended without failures, no key of a known device is missing. -/
theorem contains_of_ended (H : ingestion.Run (fun _ l => faultless l = true) ⟨db, []⟩ c)
    (ht : t ∈ c.threads) (hended : t.ended = true)
    (hd : db.devices.contains t.req.deviceId = true) :
    c.state.sensorReadings.contains t.req.key = true := by
  obtain ⟨he, hc⟩ := ingest_invariant H
  have hl := faultless_invariant H
  obtain ⟨-, ⟨hcom, -⟩ | ⟨-, hf | hf⟩⟩ := he.ends ht hended
  · exact Table.contains_of_get? ((hc.each t ht).stored hcom)
  · exact hl.failed t ht hd hf
  · rw [hl.found t ht hd] at hf
    cases hf

/-- The configuration in which nothing has been ingested. -/
def ingestStart (devices : Table Uuid Device) : IngestConfig := ⟨⟨devices, .empty⟩, []⟩

theorem telemetry_ingested_once (devices : Table Uuid Device) (c : IngestConfig) :
    (ingestion.Run (fun _ _ => True) (ingestStart devices) c →
      IngestedOnce c ∧ ∀ l c', ingestion.Step c l c' →
        (Unchanged c.state c'.state ∨ Commits c c') ∧
          ∀ k row, c.state.sensorReadings.get? k = some row →
            c'.state.sensorReadings.get? k = some row) ∧
    (ingestion.Run (fun _ l => faultless l = true) (ingestStart devices) c →
      ((∃ t ∈ c.threads, t.ended = false) → ∃ i c', ingestion.Step c (.step i none) c') ∧
        ((∀ t ∈ c.threads, t.ended = true) → ∀ t ∈ c.threads,
          devices.contains t.req.deviceId = true →
            c.state.sensorReadings.contains t.req.key = true)) := by
  refine ⟨fun H => ?_, fun H => ⟨?_, fun hended t ht hd => ?_⟩⟩
  · obtain ⟨he, hc⟩ := ingest_invariant H
    refine ⟨hc.toIngestedOnce he, fun l c' hs => ?_⟩
    have hstep := IngestStep.of_step he hs
    exact ⟨hstep.unchanged_or_commits, fun k row => hstep.get?_of_get?⟩
  · exact (ingest_invariant H).1.progress
  · exact contains_of_ended H ht (hended t ht) hd

end

/-! ## A message that is delivered twice -/

namespace Sample

def reading (time : Time) (firmware : Option String) : Reading where
  time := ⟨time, true⟩
  temperatureC := some (.real 61)
  humidityPct := some (.real 72)
  co2Ppm := none
  phLevel := none
  ambientTempC := none
  fanSpeedRpm := some 1200
  fillLevelPct := none
  weightKg := none
  firmwareVersion := firmware

def devices : Table Uuid Device := Table.empty.insert 7 ⟨"uid", "f", "bin", true, none, 0⟩

/-- The next `n` commands of a coroutine. -/
def ingests (i n : ℕ) : List (Label (Option Exn) Telemetry DevicesChange) :=
  List.replicate n (.step i none)

end Sample

def Sample.hotMessage : Telemetry := ⟨7, Sample.reading 5 (some "1.0.0")⟩

/-- Both coroutines have read the device before one of them commits; the other loses. -/
def deliveredTwice : List (Label (Option Exn) Telemetry DevicesChange) :=
  .spawn Sample.hotMessage :: .spawn Sample.hotMessage ::
    Sample.ingests 0 1 ++ Sample.ingests 1 1 ++ Sample.ingests 0 4 ++ Sample.ingests 1 3

theorem deliveredTwice_ingested_once : ∃ c,
    ingestion.followIf (fun _ l => faultless l) (ingestStart Sample.devices) deliveredTwice =
      some c ∧
    c.threads.map (fun t => hasCommitted t.log) = [true, false] ∧ IngestedOnce c ∧
    c.state.sensorReadings.contains (5, 7) = true := by
  have h : (ingestion.followIf (fun _ l => faultless l) (ingestStart Sample.devices)
      deliveredTwice).any (fun c => c.threads.map (fun t => hasCommitted t.log) = [true, false] &&
        c.threads.all fun t => t.ended && t.req = Sample.hotMessage) = true := by decide +kernel
  obtain ⟨c, hc, h⟩ := (Option.any_eq_true _ _).mp h
  simp only [Bool.and_eq_true, decide_eq_true_eq, List.all_eq_true] at h
  obtain ⟨hcom, hall⟩ := h
  have hrun := System.Run.of_followIf hc
  have hevery := telemetry_ingested_once Sample.devices c
  have hone := (hevery.1 (hrun.mono fun _ _ _ => trivial)).1
  have hkeys := (hevery.2 hrun).2 fun t ht => (hall t ht).1
  cases hts : c.threads with
  | nil => rw [hts] at hcom; cases hcom
  | cons t ts =>
    have ht : t ∈ c.threads := hts ▸ List.mem_cons_self
    have hkey := hkeys t ht (by rw [(hall t ht).2]; rfl)
    rw [(hall t ht).2] at hkey
    exact ⟨c, hc, hts ▸ hcom, hone, hkey⟩

end Rawbin
