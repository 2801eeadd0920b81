import Rawbin.Core.Mqtt

/-!
# Every message is handled

A message that is not a valid reading for a device is dropped, whatever is wrong with it, with one
exception: bytes that are not UTF-8 end the network thread, and with it the ingestion of all later
messages.
-/

namespace Rawbin

/-! ## Bounds -/

def PyFloat.Between (lo hi : ℚ) : PyFloat → Prop
  | .finite q => lo ≤ q ∧ q ≤ hi
  | _ => False

def SensorReadingIn.InBounds (r : SensorReadingIn) : Prop :=
  (∀ x ∈ r.temperatureC, x.Between (-40) 150) ∧ (∀ x ∈ r.humidityPct, x.Between 0 100) ∧
  (∀ x ∈ r.co2Ppm, x.Between 0 50000) ∧ (∀ x ∈ r.phLevel, x.Between 0 14) ∧
  (∀ x ∈ r.ambientTempC, x.Between (-40) 85) ∧ (∀ n ∈ r.fanSpeedRpm, 0 ≤ n ∧ n ≤ 10000) ∧
  (∀ x ∈ r.fillLevelPct, x.Between 0 100) ∧ (∀ x ∈ r.weightKg, x.Between 0 50) ∧
  ∀ s ∈ r.firmwareVersion, s.length ≤ 50

section
variable {P : Pydantic} {members : List (PyStr × Json)}

/-- The two ways in which an optional field is read. -/
theorem optionalField_cases {convert : Json → Option α}
    (h : optionalField members key convert = some x) :
    x = none ∧ (∀ value ∈ Json.lookup members key, value = .null) ∨
    ∃ value a, Json.lookup members key = some value ∧ value ≠ .null ∧ convert value = some a ∧
      x = some a := by
  rw [optionalField] at h
  split at h <;> rename_i hl
  · cases h
    rw [hl]
    exact .inl ⟨rfl, nofun⟩
  · cases h
    rw [hl]
    exact .inl ⟨rfl, fun _ h => (Option.some.inj h).symm⟩
  · rename_i hnull
    obtain ⟨a, ha, rfl⟩ := Option.map_eq_some_iff.mp h
    exact .inr ⟨_, a, hl, hnull, ha, rfl⟩

/-- What passes the check of the bounds is between them; NaN does not. -/
theorem between_of_checked {x : PyFloat} {ge le : ℚ} (h : (x.ge ge && x.le le) = true) :
    x.Between ge le := by
  cases x with
  | nan => cases h
  | inf negative => cases negative <;> cases h
  | finite q =>
    have hq : ge ≤ q ∧ q ≤ le := by simpa [PyFloat.ge, PyFloat.le] using h
    exact hq

theorem floatField_between {ge le : ℚ} (h : floatField P members key ge le = some x) :
    ∀ y ∈ x, y.Between ge le := by
  rcases optionalField_cases h with ⟨rfl, _⟩ | ⟨value, a, _, _, ha, rfl⟩
  · exact nofun
  · rintro y ⟨⟩
    exact between_of_checked (Option.filter_eq_some_iff.mp ha).2

theorem intField_between {ge le : Int} (h : intField P members key ge le = some x) :
    ∀ n ∈ x, ge ≤ n ∧ n ≤ le := by
  rcases optionalField_cases h with ⟨rfl, _⟩ | ⟨value, a, _, _, ha, rfl⟩
  · exact nofun
  · rintro n ⟨⟩
    simpa using (Option.filter_eq_some_iff.mp ha).2

theorem strField_length (h : strField P members key maxLength = some x) :
    ∀ s ∈ x, s.length ≤ maxLength := by
  rcases optionalField_cases h with ⟨rfl, _⟩ | ⟨value, a, _, _, ha, rfl⟩
  · exact nofun
  · rintro s ⟨⟩
    simpa using (Option.filter_eq_some_iff.mp ha).2

/-- A validated reading is within the bounds. -/
theorem SensorReadingIn.inBounds (h : validate P json = some r) : r.InBounds := by
  cases json with
  | object members =>
    simp only [validate, Option.bind_eq_bind, Option.bind_eq_some_iff] at h
    obtain ⟨time, -, t, ht, hu, hhu, co, hco, ph, hph, am, ham, fan, hfan, fill, hfill, we, hwe,
      fw, hfw, hr⟩ := h
    cases hr
    exact ⟨floatField_between ht, floatField_between hhu, floatField_between hco,
      floatField_between hph, floatField_between ham, intField_between hfan,
      floatField_between hfill, floatField_between hwe, strField_length hfw⟩
  | _ => cases h

end

/-! ## One message -/

def Delivery.InBounds : Delivery → Prop
  | .scheduled _ r => r.InBounds
  | _ => True

namespace MqttIngestionClient

variable (M : MqttIngestionClient)

/-- The message is a valid reading for a device. -/
def Carries (msg : MqttMessage) (deviceId : Uuid) (reading : SensorReadingIn) : Prop :=
  ∃ payload, String.fromUTF8? msg.payload = some payload ∧
    M.deviceOfTopic msg.topic = some deviceId ∧ M.readingOfPayload payload = some reading

/-- `on_message` returns; a reading that it schedules is within the bounds, and a valid one is
scheduled. -/
def Handles (msg : MqttMessage) (result : Except Exn Delivery) : Prop :=
  ∃ delivery, result = .ok delivery ∧ delivery.InBounds ∧
    ∀ d r, M.loop = .running → M.Carries msg d r → delivery = .scheduled d r

/-- The payload is UTF-8. -/
def ingestible (msg : MqttMessage) : Bool := (String.fromUTF8? msg.payload).isSome

variable {M}

theorem onMessage_of_utf8 {msg : MqttMessage} (h : String.fromUTF8? msg.payload = some payload) :
    M.onMessage msg = .ok (M.deliver msg.topic payload) := by
  rw [onMessage, decodeUtf8, h]
  rfl

theorem onMessage_of_not_utf8 {msg : MqttMessage} (h : String.fromUTF8? msg.payload = none) :
    M.onMessage msg = .error .unicodeDecodeError := by
  rw [onMessage, decodeUtf8, h]
  rfl

theorem inBounds_of_reading (h : M.readingOfPayload payload = some r) : r.InBounds := by
  obtain ⟨json, _, hr⟩ := Option.bind_eq_some_iff.mp h
  exact SensorReadingIn.inBounds hr

/-- A valid reading is scheduled, when there is a loop to run it. -/
theorem onMessage_of_carries {msg : MqttMessage} (hloop : M.loop = .running)
    (h : M.Carries msg d r) : M.onMessage msg = .ok (.scheduled d r) := by
  obtain ⟨payload, hu, hd, hr⟩ := h
  rw [onMessage_of_utf8 hu]
  simp only [deliver, hd, hr, if_pos hloop]

/-- What is scheduled is within the bounds. -/
theorem inBounds_of_deliver {delivery : Delivery} (h : M.deliver topic payload = delivery) :
    delivery.InBounds := by
  rw [deliver] at h
  cases hd : M.deviceOfTopic topic with
  | none =>
    rw [hd] at h
    subst h
    trivial
  | some d =>
    rw [hd] at h
    cases hr : M.readingOfPayload payload with
    | none =>
      rw [hr] at h
      subst h
      trivial
    | some r =>
      simp only [hr] at h
      split at h <;> subst h
      · exact inBounds_of_reading hr
      · trivial

theorem onMessage_ok_iff {msg : MqttMessage} :
    (∃ delivery, M.onMessage msg = .ok delivery) ↔ ingestible msg = true := by
  rw [ingestible]
  cases hu : String.fromUTF8? msg.payload with
  | none =>
    rw [onMessage_of_not_utf8 hu]
    exact iff_of_false (fun ⟨_, h⟩ => nomatch h) nofun
  | some payload =>
    rw [onMessage_of_utf8 hu]
    exact iff_of_true ⟨_, rfl⟩ rfl

theorem handles_onMessage_iff {msg : MqttMessage} :
    M.Handles msg (M.onMessage msg) ↔ ingestible msg = true := by
  rw [← onMessage_ok_iff (M := M)]
  constructor
  · intro h
    obtain ⟨delivery, ho, _⟩ := h
    exact ⟨delivery, ho⟩
  · intro h
    obtain ⟨delivery, ho⟩ := h
    refine ⟨delivery, ho, ?_, fun d r hloop hc => ?_⟩
    · cases hu : String.fromUTF8? msg.payload with
      | none => cases (onMessage_of_not_utf8 hu).symm.trans ho
      | some payload =>
        exact inBounds_of_deliver (Except.ok.inj ((onMessage_of_utf8 hu).symm.trans ho))
    · exact Except.ok.inj (ho.symm.trans (onMessage_of_carries hloop hc))

/-! ## A sequence of messages -/

/-- Up to the end of the thread, every message gets what `on_message` makes of it. -/
theorem listen_getElem? {msgs : List MqttMessage} {i : Nat}
    (h : (M.listen msgs)[i]? = some result) :
    ∃ msg, msgs[i]? = some msg ∧ result = M.onMessage msg := by
  induction msgs generalizing i with
  | nil => cases h
  | cons msg msgs ih =>
    rw [listen] at h
    cases hm : M.onMessage msg with
    | ok delivery =>
      rw [hm] at h
      cases i with
      | zero => exact ⟨msg, rfl, (Option.some.inj h).symm.trans hm.symm⟩
      | succ i => exact ih h
    | error e =>
      rw [hm] at h
      cases i with
      | zero => exact ⟨msg, rfl, (Option.some.inj h).symm.trans hm.symm⟩
      | succ i => cases h

/-- The thread survives messages on which `on_message` returns. -/
theorem listen_of_ok {msgs : List MqttMessage}
    (h : ∀ msg ∈ msgs, ∃ delivery, M.onMessage msg = .ok delivery) :
    M.listen msgs = msgs.map M.onMessage := by
  induction msgs with
  | nil => rfl
  | cons msg msgs ih =>
    obtain ⟨delivery, hm⟩ := h msg List.mem_cons_self
    rw [listen, hm, List.map_cons, hm, ih fun m hm => h m (List.mem_cons_of_mem _ hm)]

/-- **Ingestion.** Each message of a sequence is handled as it should be iff all payloads are
UTF-8. -/
theorem listen_handles_iff (M : MqttIngestionClient) (msgs : List MqttMessage) :
    (∀ (i : Nat) msg, msgs[i]? = some msg → ∃ result, (M.listen msgs)[i]? = some result ∧
      M.Handles msg result) ↔ ∀ msg ∈ msgs, ingestible msg = true := by
  constructor
  · intro h msg hmsg
    obtain ⟨i, hi⟩ := List.mem_iff_getElem?.mp hmsg
    obtain ⟨result, hr, hhandles⟩ := h i msg hi
    obtain ⟨msg', hi', rfl⟩ := listen_getElem? hr
    cases hi.symm.trans hi'
    exact handles_onMessage_iff.mp hhandles
  · intro h i msg hi
    have hok : ∀ msg ∈ msgs, ∃ delivery, M.onMessage msg = .ok delivery := fun msg hmsg =>
      onMessage_ok_iff.mpr (h msg hmsg)
    refine ⟨M.onMessage msg, ?_, handles_onMessage_iff.mpr (h msg (List.mem_of_getElem? hi))⟩
    rw [listen_of_ok hok, List.getElem?_map, hi]
    rfl

end MqttIngestionClient

/-! ## A byte that ends the ingestion -/

namespace Sample

/-- Stand-ins that take a number, a text of that type and any text as a time. -/
def pydantic : Pydantic where
  float
    | .float x => some x
    | .int n => some (.finite n)
    | _ => none
  int
    | .int n => some n
    | _ => none
  str
    | .str s => some (String.ofList (s.map Char.ofNat))
    | _ => none
  datetime
    | .str _ => some ⟨0, true⟩
    | _ => none

def client : MqttIngestionClient :=
  ⟨⟨fun _ => none, fun _ => false, 4300, 1000⟩, pydantic, .running⟩

def telemetry (payload : ByteArray) : MqttMessage :=
  ⟨"rawbin/telemetry/00000000-0000-0000-0000-000000000007", payload⟩

/-- A valid reading of device 7. -/
def hotReading : MqttMessage :=
  telemetry "\x7b\"time\":\"t\",\"temperature_c\":58\x7d".toUTF8

def nanReading : MqttMessage :=
  telemetry "\x7b\"time\":\"t\",\"temperature_c\":NaN\x7d".toUTF8

end Sample

/-- Nothing becomes of a valid reading after the byte 0xFF. -/
theorem invalidByte_not_handled :
    Sample.client.listen [Sample.hotReading] = [.ok (.scheduled 7
      ⟨⟨0, true⟩, some (.finite 58), none, none, none, none, none, none, none, none⟩)] ∧
    ¬ ∀ (i : Nat) msg, [Sample.telemetry ⟨#[0xFF]⟩, Sample.hotReading][i]? = some msg →
      ∃ result, (Sample.client.listen [Sample.telemetry ⟨#[0xFF]⟩, Sample.hotReading])[i]? =
        some result ∧ Sample.client.Handles msg result := by
  refine ⟨by decide +kernel, fun h => ?_⟩
  obtain ⟨result, hr, -⟩ := h 1 Sample.hotReading rfl
  have hend : (Sample.client.listen [Sample.telemetry ⟨#[0xFF]⟩, Sample.hotReading])[1]? =
      none := by
    decide +kernel
  cases hend.symm.trans hr

/-- NaN, which is a number of Python's JSON, is refused by the bounds. -/
example : Sample.client.listen [Sample.nanReading] = [.ok (.invalidPayload 7)] := by
  decide +kernel

end Rawbin
