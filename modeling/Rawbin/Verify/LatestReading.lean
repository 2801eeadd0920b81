import Rawbin.Library.Columns
import Rawbin.Verify.ActiveCycle
import Rawbin.Verify.Pagination
import Rawbin.Verify.StoredReadings

/-!
# The latest reading and its age

The time of a reading is the device's own, and neither the schema nor the ingestion compares it with
the clock of the server. The snapshot shows the reading with the greatest time, and subtracts that
time from the clock.
-/

namespace Rawbin

/-! ## What has been stored -/

/-- The coroutine of this message has committed. -/
def Telemetry.StoredIn (m : Telemetry) (c : IngestConfig) : Prop :=
  ∃ t ∈ c.threads, hasCommitted t.log = true ∧ t.req = m

/-- The value of a measurement, unless it is NaN. -/
def Measurement.rational : Measurement → Option ℚ
  | .nan => none
  | .real q => some q

/-- The column of the API has what was stored. It has no NaN, which the schema lets no reading
have. -/
def Measurement.Agrees (stored : Option Measurement) (shown : Option ℚ) : Prop :=
  stored ≠ some .nan → shown = stored.bind Measurement.rational

structure ReadingRow.Agrees (row : ReadingRow) (r : SensorReading) : Prop where
  temperatureC : Measurement.Agrees row.temperatureC r.temperatureC
  humidityPct : Measurement.Agrees row.humidityPct r.humidityPct
  co2Ppm : Measurement.Agrees row.co2Ppm r.co2Ppm
  phLevel : Measurement.Agrees row.phLevel r.phLevel
  ambientTempC : Measurement.Agrees row.ambientTempC r.ambientTempC
  fanSpeedRpm : row.fanSpeedRpm = r.fanSpeedRpm
  fillLevelPct : Measurement.Agrees row.fillLevelPct r.fillLevelPct
  weightKg : Measurement.Agrees row.weightKg r.weightKg
  firmwareVersion : row.firmwareVersion = r.firmwareVersion

/-- The API reads the tables that the ingestion writes. -/
structure TelemetryDb.Agrees (s : TelemetryDb) (db : Db) : Prop where
  devices : db.devices = s.devices
  keys : ∀ k, db.sensorReadings.contains k = s.sensorReadings.contains k
  rows : ∀ k row r, s.sensorReadings.get? k = some row → db.sensorReadings.get? k = some r →
    row.Agrees r

/-- The latest reading is the stored one with the greatest time, and its age is not negative. -/
structure DeviceSnapshotResponse.ShowsLatest (snap : DeviceSnapshotResponse) (c : IngestConfig)
    (d : Uuid) : Prop where
  latest : ∀ e, snap.latestReading = some e → ∃ m : Telemetry, m.StoredIn c ∧ m.key = (e.1, d) ∧
    m.row.Agrees e.2 ∧
    ∀ m' : Telemetry, m'.StoredIn c → m'.deviceId = d → m'.reading.time.instant ≤ e.1
  missing : snap.latestReading = none ↔ ∀ m : Telemetry, m.StoredIn c → m.deviceId ≠ d
  ageless : snap.readingAge = none ↔ ∀ m : Telemetry, m.StoredIn c → m.deviceId ≠ d
  age : ∀ a, snap.readingAge = some a → 0 ≤ a

section
variable {E : Env} {w : World} {c : IngestConfig} {devices : Table Uuid Device} {d : Uuid}

/-- The keys of the stored rows are those of the stored messages. -/
theorem get?_iff_storedIn (H : ingestion.Run (fun _ _ => True) (ingestStart devices) c)
    {k : Time × Uuid} {row : ReadingRow} : c.state.sensorReadings.get? k = some row ↔
      ∃ m : Telemetry, m.StoredIn c ∧ m.key = k ∧ m.row = row := by
  obtain ⟨_, hc⟩ := ingest_invariant H
  constructor
  · intro h
    obtain ⟨t, ht, hcom, rfl⟩ :=
      (hc.origin k (Table.contains_of_get? h)).resolve_left Bool.false_ne_true
    refine ⟨t.req, ⟨t, ht, hcom, rfl⟩, rfl, ?_⟩
    exact Option.some.inj (((hc.each t ht).stored hcom).symm.trans h)
  · rintro ⟨_, ⟨t, ht, hcom, rfl⟩, rfl, rfl⟩
    exact (hc.each t ht).stored hcom

theorem mem_timedReadings {db : Db} {e : Time × SensorReading} :
    e ∈ db.timedReadings d ↔ db.sensorReadings.get? (e.1, d) = some e.2 := by
  obtain ⟨t, r⟩ := e
  rw [Db.timedReadings, List.mem_map]
  constructor
  · rintro ⟨⟨⟨t, d'⟩, r⟩, he, ⟨⟩⟩
    obtain ⟨hget, hd⟩ := Table.mem_select.mp he
    exact of_decide_eq_true hd ▸ hget
  · exact fun h => ⟨((t, d), r), Table.mem_select.mpr ⟨h, decide_eq_true rfl⟩, rfl⟩

/-- What the SELECT finds. -/
theorem latestReading_eq_some {db : Db} {e : Time × SensorReading}
    (h : (Query.latestReading d).eval db = some e) : db.sensorReadings.get? (e.1, d) = some e.2 ∧
      ∀ t, db.sensorReadings.contains (t, d) = true → t ≤ e.1 := by
  obtain ⟨he, hle⟩ := (orderBy_arranges Prod.fst (db.timedReadings d)).of_head? h
  refine ⟨mem_timedReadings.mp he, fun t ht => ?_⟩
  obtain ⟨r, hr⟩ := Table.contains_iff.mp ht
  exact hle (t, r) (mem_timedReadings.mpr hr)

theorem latestReading_eq_none_iff {db : Db} : (Query.latestReading d).eval db = none ↔
    ∀ t, db.sensorReadings.contains (t, d) = false := by
  refine (orderBy_arranges Prod.fst (db.timedReadings d)).head?_eq_none_iff.trans ?_
  rw [List.eq_nil_iff_forall_not_mem]
  simp only [Prod.forall, mem_timedReadings, ← Bool.not_eq_true, Table.contains_iff, not_exists]

/-- The answer to a member. -/
theorem deviceSnapshot_served {credentials : String} {u : Uuid} {user : User} {device : Device}
    {draws : Draws} (hauth : Authenticated E credentials u user w)
      (hm : DeviceMember d u device w) :
    (serve E (.user credentials (.deviceSnapshot d) draws) w).1 = ⟨200, .snapshot {
      deviceId := d
      hardwareUid := device.hardwareUid
      displayName := device.displayName
      isPaired := device.isPaired
      firmwareVersion := device.firmwareVersion
      latestReading := (Query.latestReading d).eval w.db
      readingAge := ((Query.latestReading d).eval w.db).map fun e => w.now - e.1 }, []⟩ := by
  refine serve_ends (P := fun response _ => response = _) ?_
  refine getCurrentUser_ends rfl (fun t hnone => absurd hauth (hnone u user))
    fun t u' user' ht ha => ?_
  obtain ⟨rfl, rfl⟩ := hauth.unique ha
  refine assertDeviceMember_ends ht (fun t hnone => absurd hm (hnone device))
    fun t device' ht hm' => ?_
  cases hm.1.symm.trans hm'.1
  refine select_ends ht fun t ht => ?_
  cases (Query.latestReading d).eval w.db with
  | none => rfl
  | some e => exact utcnow_ends rfl

/-- The keys of the readings that the API finds are those of the stored messages. -/
theorem contains_iff_storedIn (H : ingestion.Run (fun _ _ => True) (ingestStart devices) c)
    (hdb : c.state.Agrees w.db) {k : Time × Uuid} :
    w.db.sensorReadings.contains k = true ↔ ∃ m : Telemetry, m.StoredIn c ∧ m.key = k := by
  rw [hdb.keys, Table.contains_iff]
  simp only [get?_iff_storedIn H]
  constructor
  · rintro ⟨_, m, hm, hk, _⟩
    exact ⟨m, hm, hk⟩
  · rintro ⟨m, hm, hk⟩
    exact ⟨m.row, m, hm, hk, rfl⟩

theorem latestReading_missing (H : ingestion.Run (fun _ _ => True) (ingestStart devices) c)
    (hdb : c.state.Agrees w.db) : (Query.latestReading d).eval w.db = none ↔
      ∀ m : Telemetry, m.StoredIn c → m.deviceId ≠ d := by
  simp only [latestReading_eq_none_iff, ← Bool.not_eq_true, contains_iff_storedIn H hdb, not_exists,
    not_and]
  constructor
  · rintro h m hm rfl
    exact h _ m hm rfl
  · rintro h t m hm hk
    exact h m hm (congrArg Prod.snd hk)

theorem latestReading_latest (H : ingestion.Run (fun _ _ => True) (ingestStart devices) c)
    (hdb : c.state.Agrees w.db) {e : Time × SensorReading}
    (h : (Query.latestReading d).eval w.db = some e) :
    ∃ m : Telemetry, m.StoredIn c ∧ m.key = (e.1, d) ∧ m.row.Agrees e.2 ∧
      ∀ m' : Telemetry, m'.StoredIn c → m'.deviceId = d → m'.reading.time.instant ≤ e.1 := by
  obtain ⟨hget, hle⟩ := latestReading_eq_some h
  obtain ⟨m, hm, hk⟩ := (contains_iff_storedIn H hdb).mp (Table.contains_of_get? hget)
  refine ⟨m, hm, hk, hdb.rows _ _ _ ((get?_iff_storedIn H).mpr ⟨m, hm, hk, rfl⟩) hget, ?_⟩
  rintro m' hm' rfl
  exact hle _ ((contains_iff_storedIn H hdb).mpr ⟨m', hm', rfl⟩)

/-- **The latest reading.** After any messages the snapshot shows the stored reading with the
greatest time, with an age that is not negative, exactly when no stored reading of the device is
ahead of the clock. -/
theorem snapshot_latest {credentials : String} {u : Uuid} {user : User} {device : Device}
    {draws : Draws} (H : ingestion.Run (fun _ _ => True) (ingestStart devices) c)
    (hdb : c.state.Agrees w.db) (hauth : Authenticated E credentials u user w)
    (hm : DeviceMember d u device w) :
    (∃ snap, (serve E (.user credentials (.deviceSnapshot d) draws) w).1 =
      ⟨200, .snapshot snap, []⟩ ∧ snap.ShowsLatest c d) ↔
    ∀ m : Telemetry, m.StoredIn c → m.deviceId = d → m.reading.time.instant ≤ w.now := by
  rw [deviceSnapshot_served hauth hm]
  constructor
  · rintro ⟨_, ⟨⟩, hshows⟩ m hm hd
    cases he : (Query.latestReading d).eval w.db with
    | none => exact absurd hd ((latestReading_missing H hdb).mp he m hm)
    | some e =>
      obtain ⟨_, _, _, _, hle⟩ := latestReading_latest H hdb he
      have hage := hshows.age (w.now - e.1) (Option.map_eq_some_iff.mpr ⟨e, he, rfl⟩)
      exact (hle m hm hd).trans (sub_nonneg.mp hage)
  · intro hclock
    have hmissing := latestReading_missing (d := d) H hdb
    refine ⟨_, rfl, fun e he => latestReading_latest H hdb he, hmissing, ?_, ?_⟩
    · exact Option.map_eq_none_iff.trans hmissing
    · rintro _ hage
      obtain ⟨e, he, rfl⟩ := Option.map_eq_some_iff.mp hage
      obtain ⟨m, hm, hk, _⟩ := latestReading_latest H hdb he
      obtain ⟨ht, hd⟩ := Prod.mk.inj hk
      exact sub_nonneg.mpr (ht ▸ hclock m hm hd)

end

/-! ## A device whose clock is ahead -/

/-- NaN is shown as null. -/
def ReadingRow.shown (row : ReadingRow) : SensorReading where
  temperatureC := row.temperatureC.bind Measurement.rational
  humidityPct := row.humidityPct.bind Measurement.rational
  co2Ppm := row.co2Ppm.bind Measurement.rational
  phLevel := row.phLevel.bind Measurement.rational
  ambientTempC := row.ambientTempC.bind Measurement.rational
  fanSpeedRpm := row.fanSpeedRpm
  fillLevelPct := row.fillLevelPct.bind Measurement.rational
  weightKg := row.weightKg.bind Measurement.rational
  firmwareVersion := row.firmwareVersion

theorem ReadingRow.shown_agrees (row : ReadingRow) : row.Agrees row.shown :=
  ⟨fun _ => rfl, fun _ => rfl, fun _ => rfl, fun _ => rfl, fun _ => rfl, rfl, fun _ => rfl,
    fun _ => rfl, rfl⟩

namespace Sample

/-- Alice's device in the tables that the ingestion writes. -/
def apiWorld (s : TelemetryDb) (now : Time) : World :=
  { deviceWorld with
    db := { deviceWorld.db with
      devices := s.devices
      sensorReadings := s.sensorReadings.map fun _ row => row.shown }
    now := now }

theorem apiWorld_agrees (s : TelemetryDb) (now : Time) : s.Agrees (apiWorld s now).db where
  devices := rfl
  keys k := Table.contains_map ..
  rows k row r hrow hr := by
    have hr : (s.sensorReadings.map fun _ row => row.shown).get? k = some r := hr
    rw [Table.get?_map, hrow] at hr
    cases hr
    exact row.shown_agrees

def snapshot : Request := .user alice (.deviceSnapshot 7) (draws 0)

/-- Timestamps in seconds are times. -/
def clockedClient : MqttIngestionClient :=
  { client with pydantic := { pydantic with
    datetime
      | .int n => some ⟨n * 1000000, true⟩
      | _ => none } }

/-- A reading of device 7 with the time of the next day. -/
def aheadReading : MqttMessage := telemetry "\x7b\"time\":86400,\"temperature_c\":58\x7d".toUTF8

def aheadMessage : Telemetry :=
  ⟨7, ⟨⟨days 1, true⟩, some (.real 58), none, none, none, none, none, none, none, none⟩⟩

end Sample

/-- The snapshot of an answer. -/
def Response.answeredSnapshot : Response → Option DeviceSnapshotResponse
  | ⟨200, .snapshot snap, []⟩ => some snap
  | _ => none

theorem Response.answeredSnapshot_eq_some {response : Response} {snap : DeviceSnapshotResponse}
    (h : response.answeredSnapshot = some snap) : response = ⟨200, .snapshot snap, []⟩ := by
  unfold answeredSnapshot at h
  split at h
  · cases h
    rfl
  · cases h

/-- The reading of `deliveredTwice` is shown at its time. -/
theorem deliveredTwice_latest : ∃ c,
    ingestion.followIf (fun _ _ => true) (ingestStart Sample.devices) deliveredTwice = some c ∧
    ∃ snap, (serve Sample.env Sample.snapshot (Sample.apiWorld c.state 5)).1 =
      ⟨200, .snapshot snap, []⟩ ∧ snap.ShowsLatest c 7 := by
  have h : (ingestion.followIf (fun _ _ => true) (ingestStart Sample.devices) deliveredTwice).any
      (fun c => c.state.devices.contains 7 && c.threads.all fun t => t.req = Sample.hotMessage) =
        true := by
    decide +kernel
  obtain ⟨c, hc, h⟩ := (Option.any_eq_true _ _).mp h
  simp only [Bool.and_eq_true, List.all_eq_true, decide_eq_true_eq] at h
  obtain ⟨hd, hall⟩ := h
  obtain ⟨device, hdevice⟩ := Table.contains_iff.mp hd
  have hrun : ingestion.Run (fun _ _ => True) (ingestStart Sample.devices) c :=
    (System.Run.of_followIf hc).mono fun _ _ _ => trivial
  have hauth : Authenticated Sample.env Sample.alice 1 (Sample.user "alice@rawbin.io")
      (Sample.apiWorld c.state 5) := ⟨⟨1, .access, 6, 5, 0⟩, rfl, rfl, rfl, rfl, rfl⟩
  have hm : DeviceMember 7 1 device (Sample.apiWorld c.state 5) := by
    refine ⟨hdevice, ?_⟩
    show Sample.deviceWorld.db.userDevices.contains (1, 7) = true
    decide
  refine ⟨c, hc, (snapshot_latest hrun (Sample.apiWorld_agrees c.state 5) hauth hm).mpr ?_⟩
  rintro _ ⟨t, ht, _, rfl⟩ _
  rw [hall t ht]
  exact le_refl (5 : Int)

/-- A reading that a device has stamped with the next day has a negative age. -/
theorem aheadReading_negative :
    Sample.clockedClient.onMessage Sample.aheadReading =
      .ok (.scheduled 7 Sample.aheadMessage.reading.sensorReadingIn) ∧
    ∃ c, ingestion.Run (fun _ _ => True) (ingestStart Sample.devices) c ∧
      Sample.aheadMessage.StoredIn c ∧
      ∃ snap, (serve Sample.env Sample.snapshot (Sample.apiWorld c.state 0)).1 =
        ⟨200, .snapshot snap, []⟩ ∧ ¬ snap.ShowsLatest c 7 := by
  refine ⟨by decide +kernel, ?_⟩
  have h : (ingestion.followIf (fun _ _ => true) (ingestStart Sample.devices)
      (.spawn Sample.aheadMessage :: Sample.ingests 0 4)).any (fun c =>
        (c.threads.any fun t => hasCommitted t.log && t.req = Sample.aheadMessage) &&
        (serve Sample.env Sample.snapshot (Sample.apiWorld c.state 0)).1.answeredSnapshot.any
          fun snap => snap.readingAge = some (-days 1)) = true := by
    decide +kernel
  obtain ⟨c, hc, h⟩ := (Option.any_eq_true _ _).mp h
  obtain ⟨hstored, hage⟩ := Bool.and_eq_true_iff.mp h
  have hrun : ingestion.Run (fun _ _ => True) (ingestStart Sample.devices) c :=
    (System.Run.of_followIf hc).mono fun _ _ _ => trivial
  obtain ⟨t, ht, hstored⟩ := List.any_eq_true.mp hstored
  obtain ⟨hcom, hreq⟩ := Bool.and_eq_true_iff.mp hstored
  obtain ⟨snap, hsnap, hage⟩ := (Option.any_eq_true _ _).mp hage
  refine ⟨c, hrun, ⟨t, ht, hcom, of_decide_eq_true hreq⟩, snap,
    Response.answeredSnapshot_eq_some hsnap, fun hshows => ?_⟩
  exact absurd (hshows.age _ (of_decide_eq_true hage)) (by decide)

end Rawbin
