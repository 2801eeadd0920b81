import Rawbin.Api.Readings
import Rawbin.Backend
import Rawbin.Verify.StoredReadings

/-!
# The order of arrival

Rows are keyed by the time of the device, so the order in which a set of readings arrives leaves
no trace in `sensor_readings`. The version of the device is a register that the last transaction
to update it wins.
-/

namespace Rawbin

/-- A commit: the message, and whether its transaction updates the version of the device. -/
structure Landing where
  message : Telemetry
  updates : Bool
  deriving DecidableEq

def TelemetryWrite.isUpdate : TelemetryWrite → Bool
  | .updateFirmware _ _ => true
  | .insertReading _ _ => false

/-- The commit that the coroutine is about to make, if it is. -/
def landing (t : Coroutine) : List Landing :=
  match t.prog with
  | .cmd .commit _ => [⟨t.req, t.sess.any TelemetryWrite.isUpdate⟩]
  | _ => []

/-- The commits of a run, in their order. -/
def landings (c : IngestConfig) : Label (Option Exn) Telemetry DevicesChange → List Landing
  | .step i none => c.threads[i]?.elim [] landing
  | _ => []

/-- The version that is stored after commits in this order. -/
def lastFirmware (d : Uuid) (version : Option String) (ls : List Landing) : Option String :=
  match (ls.filter fun l => l.updates && l.message.deviceId = d).getLast? with
  | some l => l.message.reading.firmwareVersion
  | none => version

/-- The row of a key, when these messages have arrived in any order. -/
def arrived (base : Table (Time × Uuid) ReadingRow) (msgs : List Telemetry) (k : Time × Uuid) :
    Option ReadingRow :=
  base.get? k <|> (msgs.find? fun m => m.key = k).map Telemetry.row

/-- These messages, and no others, were ingested without failures; their coroutines have ended. -/
structure Arrives (db : TelemetryDb) (msgs : List Telemetry) (ls : List Landing)
    (c : IngestConfig) : Prop where
  traced : ingestion.Traced (fun _ _ l => faultless l = true) landings ⟨db, []⟩ ls c
  ended : ∀ t ∈ c.threads, t.ended = true
  messages : (c.threads.map Thread.req).Perm msgs

section
variable {c c' : IngestConfig} {l : Label (Option Exn) Telemetry DevicesChange} {db : TelemetryDb}
variable {m : Telemetry} {device row : Device} {d : Uuid} {msgs : List Telemetry}
variable {ls : List Landing} {version : Option String}

theorem lastFirmware_snoc (ls : List Landing) (o : Landing) :
    lastFirmware d version (ls ++ [o]) =
      if o.updates = true ∧ o.message.deviceId = d then o.message.reading.firmwareVersion
      else lastFirmware d version ls := by
  simp only [lastFirmware, System.getLast?_filter_snoc, Bool.and_eq_true, decide_eq_true_eq]
  by_cases ho : o.updates = true ∧ o.message.deviceId = d
  · simp only [if_pos ho]
  · simp only [if_neg ho]

/-- What a commit makes of the version of a device. -/
theorem view_pending_firmware (m : Telemetry) (device : Device)
    (hrow : db.devices.get? d = some row) : ∃ row',
      (db.view (m.pending device)).devices.get? d = some row' ∧
        row'.firmwareVersion =
          if (m.pending device).any TelemetryWrite.isUpdate = true ∧ m.deviceId = d
          then m.reading.firmwareVersion else row.firmwareVersion := by
  rw [view_pending_devices]
  rcases firmwareUpdate_cases m device with hu | ⟨v, hu, hv, -⟩
  · have hany : (m.pending device).any TelemetryWrite.isUpdate = false := by
      rw [Telemetry.pending, hu]
      rfl
    exact ⟨row, by rw [hu]; exact hrow, by simp [hany]⟩
  · have hany : (m.pending device).any TelemetryWrite.isUpdate = true := by
      rw [Telemetry.pending, hu]
      rfl
    simp only [hu, hany, true_and]
    show ∃ row', (db.devices.update m.deviceId _).get? d = some row' ∧ _
    rw [Table.get?_update, hrow]
    by_cases hd : d = m.deviceId
    · refine ⟨_, by rw [if_pos hd, ← hd, hrow]; rfl, ?_⟩
      rw [if_pos hd.symm, hv]
    · exact ⟨row, by simp [hd], by simp [Ne.symm hd]⟩

/-- A step commits as it is observed. -/
theorem landings_cases (he : Expecting c) (hl : faultless l = true) (hs : ingestion.Step c l c') :
    (landings c l = [] ∧ Unchanged c.state c'.state) ∨
      ∃ m device, landings c l = [⟨m, (m.pending device).any TelemetryWrite.isUpdate⟩] ∧
        c'.state = c.state.view (m.pending device) := by
  cases hs with
  | spawn m => exact .inl ⟨rfl, .of_eq rfl⟩
  | env e => exact .inl ⟨rfl, rfl, e.keeps _⟩
  | @step ts i s β cm k t x hi hp hb =>
    have hcm := he t (List.mem_of_getElem? hi)
    rw [hp] at hcm
    cases x with
    | some e => cases hl
    | none =>
      have hland : landings ⟨s, ts⟩ (.step i none) = landing t := by
        simp only [landings, hi, Option.elim_some]
      rw [hland, landing, hp]
      cases cm with
      | device id => exact .inl ⟨rfl, .of_eq rfl⟩
      | rollback => exact .inl ⟨rfl, .of_eq rfl⟩
      | applyAsync check => exact .inl ⟨rfl, .of_eq rfl⟩
      | execute w =>
        refine .inl ⟨rfl, .of_eq ?_⟩
        cases hv : w.violates (s.view t.sess) with
        | none => exact congrArg (fun r => r.2.2) (exec_of_valid hv)
        | some e => exact congrArg (fun r => r.2.2) (exec_of_violates hv)
      | commit =>
        obtain ⟨-, device, ht⟩ := hcm.1
        refine .inr ⟨t.req, device, ?_, congrArg s.view ht⟩
        rw [← ht]

theorem Arrives.run (H : Arrives db msgs ls c) :
    ingestion.Run (fun _ l => faultless l = true) ⟨db, []⟩ c :=
  H.traced.run fun _ _ _ h => h

/-- The version is the one of the last landing that updates it. -/
theorem Arrives.firmware (H : Arrives db msgs ls c) (hrow : db.devices.get? d = some row) :
    ∃ row', c.state.devices.get? d = some row' ∧
      row'.firmwareVersion = lastFirmware d row.firmwareVersion ls := by
  have hinv := H.traced.invariant (P := fun ls c => Expecting c ∧ ∃ row',
    c.state.devices.get? d = some row' ∧
      row'.firmwareVersion = lastFirmware d row.firmwareVersion ls)
    ⟨(ingestStart_consistent db).1, row, hrow, rfl⟩ fun ls c l c' hc hok hs => ?_
  · exact hinv.2
  · obtain ⟨he, row₁, hrow₁, hv⟩ := hc
    refine ⟨he.step hs, ?_⟩
    rcases landings_cases he hok hs with ⟨hland, hun⟩ | ⟨m, device, hland, hstate⟩
    · obtain ⟨row', hrow', hv'⟩ := hun.firmware d row₁ hrow₁
      exact ⟨row', hrow', by rw [hland, List.append_nil, hv', hv]⟩
    · obtain ⟨row', hrow', hv'⟩ := view_pending_firmware m device hrow₁
      exact ⟨row', hstate ▸ hrow', by rw [hland, lastFirmware_snoc, hv', hv]⟩

theorem get?_of_base {ok : IngestConfig → Label (Option Exn) Telemetry DevicesChange → Prop}
    {k : Time × Uuid} {reading : ReadingRow} (H : ingestion.Run ok ⟨db, []⟩ c)
    (h : db.sensorReadings.get? k = some reading) :
      c.state.sensorReadings.get? k = some reading := by
  have hinv := H.invariant (P := fun c => Expecting c ∧
      c.state.sensorReadings.get? k = some reading)
    ⟨(ingestStart_consistent db).1, h⟩ fun _ _ _ hc _ hs =>
      ⟨hc.1.step hs, (IngestStep.of_step hc.1 hs).get?_of_get? hc.2⟩
  exact hinv.2

/-- The rows are those of the messages, whatever the order. -/
theorem Arrives.sensorReadings (H : Arrives db msgs ls c)
    (hknown : ∀ m ∈ msgs, db.devices.contains m.deviceId = true)
    (hkeys : (msgs.map Telemetry.key).Nodup) (k : Time × Uuid) :
    c.state.sensorReadings.get? k = arrived db.sensorReadings msgs k := by
  have hmem {m : Telemetry} : m ∈ msgs ↔ ∃ t ∈ c.threads, t.req = m :=
    H.messages.symm.mem_iff.trans List.mem_map
  obtain ⟨-, hc⟩ := ingest_invariant H.run
  -- a row that was not there before is the one of a message with its key
  have horigin (hb : db.sensorReadings.get? k = none)
      (hk : c.state.sensorReadings.contains k = true) :
      ∃ m ∈ msgs, m.key = k ∧ c.state.sensorReadings.get? k = some m.row := by
    rcases hc.origin k hk with h | ⟨t, ht, hcom, rfl⟩
    · rw [Table.contains, hb] at h
      cases h
    · exact ⟨t.req, hmem.mpr ⟨t, ht, rfl⟩, rfl, (hc.each t ht).stored hcom⟩
  unfold arrived
  cases hb : db.sensorReadings.get? k with
  | some reading => exact get?_of_base H.run hb
  | none =>
    cases hf : msgs.find? fun m => m.key = k with
    | none =>
      cases hk : c.state.sensorReadings.get? k with
      | none => rfl
      | some reading =>
        obtain ⟨m, hm, hkey, -⟩ := horigin hb (Table.contains_of_get? hk)
        exact absurd hkey (by simpa using List.find?_eq_none.mp hf m hm)
    | some m =>
      have hm := List.mem_of_find?_eq_some hf
      have hkey : m.key = k := by simpa using List.find?_some hf
      obtain ⟨t, ht, rfl⟩ := hmem.mp hm
      have hk := contains_of_ended H.run ht (H.ended t ht) (hknown _ hm)
      obtain ⟨m', hm', hkey', hrow⟩ := horigin hb (hkey ▸ hk)
      rw [hrow, List.inj_on_of_nodup_map hkeys hm' hm (hkey'.trans hkey.symm)]
      rfl

/-- **Arrival.** The readings of a known device leave the same rows in every order. The version
is the one of the message that was the last to commit an UPDATE of it. -/
theorem arrival_order {c₁ c₂ : IngestConfig} {ls₁ ls₂ : List Landing}
    (hrow : db.devices.get? d = some row) (hdevice : ∀ m ∈ msgs, m.deviceId = d)
    (htimes : (msgs.map fun m => m.reading.time.instant).Nodup)
    (h₁ : Arrives db msgs ls₁ c₁) (h₂ : Arrives db msgs ls₂ c₂) :
    (∀ k, c₁.state.sensorReadings.get? k = arrived db.sensorReadings msgs k ∧
      c₂.state.sensorReadings.get? k = c₁.state.sensorReadings.get? k) ∧
    ∃ row₁ row₂, c₁.state.devices.get? d = some row₁ ∧ c₂.state.devices.get? d = some row₂ ∧
      row₁.firmwareVersion = lastFirmware d row.firmwareVersion ls₁ ∧
      row₂.firmwareVersion = lastFirmware d row.firmwareVersion ls₂ := by
  have hknown (m : Telemetry) (hm : m ∈ msgs) : db.devices.contains m.deviceId = true := by
    rw [hdevice m hm]
    exact Table.contains_of_get? hrow
  have hkeys : (msgs.map Telemetry.key).Nodup := by
    refine .of_map Prod.fst ?_
    rw [List.map_map]
    exact htimes
  refine ⟨fun k => ?_, ?_⟩
  · have hk := h₁.sensorReadings hknown hkeys k
    exact ⟨hk, (h₂.sensorReadings hknown hkeys k).trans hk.symm⟩
  · obtain ⟨row₁, hrow₁, hv₁⟩ := h₁.firmware hrow
    obtain ⟨row₂, hrow₂, hv₂⟩ := h₂.firmware hrow
    exact ⟨row₁, row₂, hrow₁, hrow₂, hv₁, hv₂⟩

end

/-! ## A late reading -/

def Sample.oldFirmware : Telemetry := ⟨7, Sample.reading 5 (some "1.0.0")⟩

def Sample.newFirmware : Telemetry := ⟨7, Sample.reading 6 (some "2.0.0")⟩

def Sample.telemetryDb : TelemetryDb := ⟨Sample.devices, .empty⟩

/-- The one message is ingested, then the other. -/
def oneAfterOther (m m' : Telemetry) : List (Label (Option Exn) Telemetry DevicesChange) :=
  .spawn m :: Sample.ingests 0 5 ++ .spawn m' :: Sample.ingests 1 5

/-- What the two readings leave, by the version that ends up in the device. -/
def LeavesFirmware (m m' : Telemetry) (version : String) : Prop :=
  ∃ ls c row, Arrives Sample.telemetryDb [m, m'] ls c ∧ c.state.devices.get? 7 = some row ∧
    row.firmwareVersion = some version

theorem leavesFirmware_of_follow {m m' : Telemetry} {version : String}
    (h : (ingestion.followIf (fun _ l => faultless l) ⟨Sample.telemetryDb, []⟩
      (oneAfterOther m m')).any (fun c => c.threads.all Thread.ended &&
        c.threads.map Thread.req = [m, m'] &&
        (c.state.devices.get? 7).any fun row => row.firmwareVersion = some version) = true) :
    LeavesFirmware m m' version := by
  obtain ⟨c, hc, h⟩ := (Option.any_eq_true _ _).mp h
  simp only [Bool.and_eq_true, decide_eq_true_eq, List.all_eq_true] at h
  obtain ⟨⟨hended, hreq⟩, hv⟩ := h
  obtain ⟨row, hrow, hv⟩ := (Option.any_eq_true _ _).mp hv
  obtain ⟨ls, htraced⟩ := (System.Run.of_followIf hc).traced landings
  exact ⟨ls, c, row, ⟨htraced, hended, .of_eq hreq⟩, hrow, of_decide_eq_true hv⟩

theorem oldThenNew : LeavesFirmware Sample.oldFirmware Sample.newFirmware "2.0.0" :=
  leavesFirmware_of_follow (by decide +kernel)

/-- The buffered reading arrives last. -/
theorem newThenOld : LeavesFirmware Sample.newFirmware Sample.oldFirmware "1.0.0" :=
  leavesFirmware_of_follow (by decide +kernel)

theorem bothOrders_arrive : ∃ ls₁ ls₂ c₁ c₂,
    Arrives Sample.telemetryDb [Sample.oldFirmware, Sample.newFirmware] ls₁ c₁ ∧
    Arrives Sample.telemetryDb [Sample.oldFirmware, Sample.newFirmware] ls₂ c₂ ∧
    (∀ k, c₂.state.sensorReadings.get? k = c₁.state.sensorReadings.get? k) ∧
    ∃ row₁ row₂, c₁.state.devices.get? 7 = some row₁ ∧ c₂.state.devices.get? 7 = some row₂ ∧
      row₁.firmwareVersion = some "2.0.0" ∧ row₂.firmwareVersion = some "1.0.0" := by
  obtain ⟨ls₁, c₁, row₁, h₁, hrow₁, hv₁⟩ := oldThenNew
  obtain ⟨ls₂, c₂, row₂, h₂, hrow₂, hv₂⟩ := newThenOld
  have h₂' : Arrives Sample.telemetryDb [Sample.oldFirmware, Sample.newFirmware] ls₂ c₂ :=
    { h₂ with messages := h₂.messages.trans (.swap ..) }
  have hrow : Sample.telemetryDb.devices.get? 7 = some ⟨"uid", "f", "bin", true, none, 0⟩ := rfl
  have hall := arrival_order hrow (by decide) (by decide) h₁ h₂'
  exact ⟨ls₁, ls₂, c₁, c₂, h₁, h₂', fun k => (hall.1 k).2, row₁, row₂, hrow₁, hrow₂, hv₁, hv₂⟩

/-- The order decides what the device reports, and whether it is offered an update. -/
theorem newThenOld_offers_update :
    (¬ ∀ db msgs d row ls₁ ls₂ c₁ c₂ row₁ row₂, db.devices.get? d = some row →
      (∀ m ∈ msgs, Telemetry.deviceId m = d) →
      (msgs.map fun m => m.reading.time.instant).Nodup →
      Arrives db msgs ls₁ c₁ → Arrives db msgs ls₂ c₂ →
      c₁.state.devices.get? d = some row₁ → c₂.state.devices.get? d = some row₂ →
      row₁.firmwareVersion = row₂.firmwareVersion) ∧
    tupleLt (parseVersion Sample.env (some "2.0.0"))
      (parseVersion Sample.env (some latestFirmwareVersion)) = false ∧
    tupleLt (parseVersion Sample.env (some "1.0.0"))
      (parseVersion Sample.env (some latestFirmwareVersion)) = true := by
  refine ⟨fun hevery => ?_, by decide +kernel, by decide +kernel⟩
  obtain ⟨ls₁, c₁, row₁, h₁, hrow₁, hv₁⟩ := oldThenNew
  obtain ⟨ls₂, c₂, row₂, h₂, hrow₂, hv₂⟩ := newThenOld
  have h₂' : Arrives Sample.telemetryDb [Sample.oldFirmware, Sample.newFirmware] ls₂ c₂ :=
    { h₂ with messages := h₂.messages.trans (.swap ..) }
  have h := hevery Sample.telemetryDb _ 7 _ _ _ _ _ _ _ rfl (by decide) (by decide) h₁ h₂' hrow₁
    hrow₂
  rw [hv₁, hv₂] at h
  exact absurd (Option.some.inj h) (by decide)

end Rawbin
