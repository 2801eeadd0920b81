import Rawbin.Library.Isolation
import Rawbin.Verify.ActiveCycle
import Rawbin.Verify.CodeOwners
import Rawbin.Verify.Provenance
import Rawbin.Verify.Registered

/-!
# The constraints of the schema

However requests are interleaved, the unique columns stay unique, no device has two active cycles,
and no row refers to one that is missing: in every committed state, and in what every transaction
sees.
-/

namespace Rawbin

/-! ## Unique values -/

/-- The rows with unique values besides their keys. -/
inductive UniqueKey where
  | user (id : Uuid)
  | refreshToken (id : Uuid)
  | device (id : Uuid)
  | compostCycle (id : Uuid)

namespace UniqueKey

abbrev Row : UniqueKey → Type
  | user _ => User
  | refreshToken _ => RefreshToken
  | device _ => Device
  | compostCycle _ => CompostCycle

def lock : UniqueKey → Lock
  | user id => .user id
  | refreshToken id => .refreshToken id
  | device id => .device id
  | compostCycle id => .compostCycle id

/-- The unique values of a row, as the locks of the indexes. -/
def values : (k : UniqueKey) → k.Row → List Lock
  | user _, r => .userEmail r.email :: phoneLock r.phone
  | refreshToken _, r => [.tokenHash r.tokenHash]
  | device _, r => [.hardwareUid r.hardwareUid]
  | compostCycle _, r => activeLock r.deviceId (some r.status)

end UniqueKey

def Db.row (db : Db) : (k : UniqueKey) → Option k.Row
  | .user id => db.users.get? id
  | .refreshToken id => db.refreshTokens.get? id
  | .device id => db.devices.get? id
  | .compostCycle id => db.compostCycles.get? id

/-- The cycle that a statement changes is one of the device that the statement names. -/
def Write.Fits (w : Write) (db : Db) : Prop :=
  ∀ id d patch now, w = .updateCompostCycle id d patch now →
    ∃ row, db.compostCycles.get? id = some row ∧ row.deviceId = d

/-- A cycle stays, with its device. -/
theorem Write.cycle_apply {w : Write} {db : Db} {id : Uuid} {row : CompostCycle}
    (h : db.compostCycles.get? id = some row) :
    ∃ row', (w.apply db).compostCycles.get? id = some row' ∧ row'.deviceId = row.deviceId := by
  cases w with
  | insertCompostCycle id' row' => exact ⟨row, Table.get?_insert_of_some h id' row', rfl⟩
  | updateCompostCycle id' d patch now =>
    by_cases hid : id = id'
    · subst hid
      exact ⟨patch.apply now row, (Table.get?_update_self ..).trans (congrArg _ h), rfl⟩
    · exact ⟨row, (Table.get?_update_ne hid _).trans h, rfl⟩
  | _ => exact ⟨row, h, rfl⟩

theorem Write.fits_apply {w : Write} {db : Db} (h : w.Fits db) (w' : Write) :
    w.Fits (w'.apply db) := by
  intro id d patch now hw
  obtain ⟨row, hrow, rfl⟩ := h id d patch now hw
  exact cycle_apply hrow

/-- The row with unique values that a statement locks. -/
def Write.key : Write → Option UniqueKey
  | .insertUser id _ => some (.user id)
  | .updateUser id _ => some (.user id)
  | .insertRefreshToken id _ => some (.refreshToken id)
  | .updateRefreshToken id _ => some (.refreshToken id)
  | .insertDevice id _ => some (.device id)
  | .updateDevice id _ => some (.device id)
  | .insertCompostCycle id _ => some (.compostCycle id)
  | .updateCompostCycle id _ _ _ => some (.compostCycle id)
  | _ => none

/-- The unique values that a statement gives to its row. -/
def Write.values : Write → List Lock
  | .insertUser _ row => .userEmail row.email :: phoneLock row.phone
  | .updateUser _ patch => phoneLock patch.phone
  | .insertRefreshToken _ row => [.tokenHash row.tokenHash]
  | .insertDevice _ row => [.hardwareUid row.hardwareUid]
  | .insertCompostCycle _ row => activeLock row.deviceId (some row.status)
  | .updateCompostCycle _ d patch _ => activeLock d patch.status
  | _ => []

theorem Write.lock_mem_locks {w : Write} {k : UniqueKey} (h : w.key = some k) :
    k.lock ∈ w.locks := by
  cases w <;> cases h <;> exact List.mem_cons_self

theorem Write.values_subset_locks {w : Write} : w.values ⊆ w.locks := by
  intro l hl
  cases w with
  | insertUser | updateUser | insertRefreshToken | insertDevice => exact List.mem_cons_of_mem _ hl
  | insertCompostCycle | updateCompostCycle => exact List.mem_cons_of_mem _ hl
  | _ => cases hl

/-- A statement changes no other row with unique values. -/
theorem Write.row_apply {w : Write} {db : Db} {k : UniqueKey} (h : w.key ≠ some k) :
    (w.apply db).row k = db.row k := by
  cases w with
  | insertUser id row =>
    cases k with
    | user =>
      exact Table.get?_insert_ne (fun he => h (congrArg (some ∘ UniqueKey.user) he.symm)) row
    | _ => rfl
  | updateUser id patch =>
    cases k with
    | user => exact Table.get?_update_ne (fun he => h (congrArg (some ∘ UniqueKey.user) he.symm)) _
    | _ => rfl
  | insertRefreshToken id row =>
    cases k with
    | refreshToken => exact Table.get?_insert_ne (fun he =>
        h (congrArg (some ∘ UniqueKey.refreshToken) he.symm)) row
    | _ => rfl
  | updateRefreshToken id revoked =>
    cases k with
    | refreshToken =>
      exact Table.get?_update_ne (fun he => h (congrArg (some ∘ UniqueKey.refreshToken) he.symm)) _
    | _ => rfl
  | insertDevice id row =>
    cases k with
    | device =>
      exact Table.get?_insert_ne (fun he => h (congrArg (some ∘ UniqueKey.device) he.symm)) row
    | _ => rfl
  | updateDevice id patch =>
    cases k with
    | device =>
      exact Table.get?_update_ne (fun he => h (congrArg (some ∘ UniqueKey.device) he.symm)) _
    | _ => rfl
  | insertCompostCycle id row =>
    cases k with
    | compostCycle => exact Table.get?_insert_ne (fun he =>
        h (congrArg (some ∘ UniqueKey.compostCycle) he.symm)) row
    | _ => rfl
  | updateCompostCycle id d patch now =>
    cases k with
    | compostCycle =>
      exact Table.get?_update_ne (fun he => h (congrArg (some ∘ UniqueKey.compostCycle) he.symm)) _
    | _ => rfl
  | _ => cases k <;> rfl

theorem Write.row_congr {w : Write} {db db' : Db} {k : UniqueKey} (h : db.row k = db'.row k) :
    (w.apply db).row k = (w.apply db').row k := by
  cases w with
  | insertUser id row =>
    cases k with
    | user => exact Table.get?_insert_congr h id row
    | _ => exact h
  | updateUser id patch =>
    cases k with
    | user => exact Table.get?_update_congr h id _
    | _ => exact h
  | insertRefreshToken id row =>
    cases k with
    | refreshToken => exact Table.get?_insert_congr h id row
    | _ => exact h
  | updateRefreshToken id revoked =>
    cases k with
    | refreshToken => exact Table.get?_update_congr h id _
    | _ => exact h
  | insertDevice id row =>
    cases k with
    | device => exact Table.get?_insert_congr h id row
    | _ => exact h
  | updateDevice id patch =>
    cases k with
    | device => exact Table.get?_update_congr h id _
    | _ => exact h
  | insertCompostCycle id row =>
    cases k with
    | compostCycle => exact Table.get?_insert_congr h id row
    | _ => exact h
  | updateCompostCycle id d patch now =>
    cases k with
    | compostCycle => exact Table.get?_update_congr h id _
    | _ => exact h
  | _ => cases k <;> exact h

/-- A unique value was there before, or the statement gives it. -/
theorem Write.value_apply {w : Write} {db : Db} {k : UniqueKey} {r : k.Row} {l : Lock}
    (hfits : w.Fits db) (hr : (w.apply db).row k = some r) (hl : l ∈ k.values r) :
    (∃ r', db.row k = some r' ∧ l ∈ k.values r') ∨ l ∈ w.values := by
  by_cases hk : w.key = some k
  swap
  · exact .inl ⟨r, (row_apply hk).symm.trans hr, hl⟩
  cases w with
  | insertUser id row =>
    cases hk
    rcases Table.get?_of_insert hr with hr | ⟨_, rfl⟩
    · exact .inl ⟨r, hr, hl⟩
    · exact .inr hl
  | updateUser id patch =>
    cases hk
    obtain ⟨r', hr', rfl⟩ := Option.map_eq_some_iff.mp ((Table.get?_update_self ..).symm.trans hr)
    rcases List.mem_cons.mp hl with rfl | hl
    · exact .inl ⟨r', hr', List.mem_cons_self⟩
    · cases hp : patch.phone with
      | none =>
        simp only [UserPatch.apply, hp] at hl
        exact .inl ⟨r', hr', List.mem_cons_of_mem _ hl⟩
      | some p =>
        simp only [UserPatch.apply, hp] at hl
        refine .inr ?_
        rw [values, hp]
        exact hl
  | insertRefreshToken id row | insertDevice id row | insertCompostCycle id row =>
    cases hk
    rcases Table.get?_of_insert hr with hr | ⟨_, rfl⟩
    · exact .inl ⟨r, hr, hl⟩
    · exact .inr hl
  | updateRefreshToken id revoked | updateDevice id patch =>
    cases hk
    obtain ⟨r', hr', rfl⟩ := Option.map_eq_some_iff.mp ((Table.get?_update_self ..).symm.trans hr)
    exact .inl ⟨r', hr', hl⟩
  | updateCompostCycle id d patch now =>
    cases hk
    obtain ⟨r', hr', rfl⟩ := Option.map_eq_some_iff.mp ((Table.get?_update_self ..).symm.trans hr)
    obtain ⟨row, hrow, rfl⟩ := hfits id d patch now rfl
    obtain rfl : row = r' := Option.some.inj (hrow.symm.trans hr')
    cases hs : patch.status with
    | none =>
      simp only [UniqueKey.values, CompostCyclePatch.apply, hs, Option.getD_none] at hl
      exact .inl ⟨row, hr', hl⟩
    | some status =>
      simp only [UniqueKey.values, CompostCyclePatch.apply, hs, Option.getD_some] at hl
      refine .inr ?_
      rw [values, hs]
      exact hl
  | _ => cases hk

/-- The unique values as tags, which statements lock together with the rows. -/
def uniqueValues : Keyed Db Write UniqueKey Lock where
  Row := UniqueKey.Row
  row := Db.row
  Tagged {k} r l := l ∈ k.values r
  apply := Write.apply
  LocksRow w k := w.key = some k
  LocksTag w l := l ∈ w.values
  Fits := Write.Fits
  fits_apply _ w' _ h := Write.fits_apply h w'
  row_apply _ _ _ h := Write.row_apply h
  row_congr _ _ _ _ h := Write.row_congr h
  tag_apply _ _ _ _ _ hfits hr hl := Write.value_apply hfits hr hl

theorem hardwareUidTaken_eq_false_iff {db : Db} {uid : String} : db.hardwareUidTaken uid = false ↔
    ∀ id device, db.devices.get? id = some device → device.hardwareUid ≠ uid := by
  rw [Db.hardwareUidTaken, Bool.not_eq_false', List.isEmpty_iff]
  constructor
  · intro h id device hd he
    have hm : (id, device) ∈ db.devices.select fun _ device => device.hardwareUid = uid :=
      Table.mem_select.mpr ⟨hd, decide_eq_true he⟩
    rw [h] at hm
    cases hm
  · intro h
    refine List.eq_nil_iff_forall_not_mem.mpr fun e he => ?_
    obtain ⟨hd, he⟩ := Table.mem_select.mp he
    exact h _ _ hd (of_decide_eq_true he)

theorem mem_phoneLock {phone : Option String} {l : Lock} (h : l ∈ phoneLock phone) :
    ∃ p, phone = some p ∧ l = .userPhone p := by
  cases phone with
  | none => cases h
  | some p => exact ⟨p, rfl, List.mem_singleton.mp h⟩

theorem mem_activeLock {d : Uuid} {status : Option CycleStatus} {l : Lock}
    (h : l ∈ activeLock d status) : status = some .active ∧ l = .activeCycle d := by
  unfold activeLock at h
  split at h
  · exact ⟨rfl, List.mem_singleton.mp h⟩
  · cases h

/-- The lock of a unique value. -/
def Lock.isValue : Lock → Bool
  | .userEmail _ | .userPhone _ | .tokenHash _ | .hardwareUid _ | .activeCycle _ => true
  | _ => false

theorem UniqueKey.isValue_of_mem {k : UniqueKey} {r : k.Row} {l : Lock} (h : l ∈ k.values r) :
    l.isValue = true := by
  cases k with
  | user =>
    rcases List.mem_cons.mp h with rfl | h
    · rfl
    · obtain ⟨p, _, rfl⟩ := mem_phoneLock h
      rfl
  | refreshToken | device => exact List.mem_singleton.mp h ▸ rfl
  | compostCycle => exact (mem_activeLock h).2 ▸ rfl

section
variable {db : Db} {k : UniqueKey}

theorem carries_email {e : String} : uniqueValues.Carries db k (.userEmail e) ↔
    ∃ id user, k = .user id ∧ db.users.get? id = some user ∧ user.email = e := by
  constructor
  · rintro ⟨r, hr, hl⟩
    cases k with
    | user id =>
      rcases List.mem_cons.mp hl with he | hl
      · exact ⟨id, r, rfl, hr, (Lock.userEmail.inj he).symm⟩
      · obtain ⟨_, _, he⟩ := mem_phoneLock hl
        cases he
    | refreshToken | device => cases List.mem_singleton.mp hl
    | compostCycle => cases (mem_activeLock hl).2
  · rintro ⟨id, user, rfl, hu, rfl⟩
    exact ⟨user, hu, List.mem_cons_self⟩

theorem carries_phone {p : String} : uniqueValues.Carries db k (.userPhone p) ↔
    ∃ id, k = .user id ∧ db.phoneOf id = some p := by
  constructor
  · rintro ⟨r, hr, hl⟩
    cases k with
    | user id =>
      rcases List.mem_cons.mp hl with he | hl
      · cases he
      · obtain ⟨q, hq, he⟩ := mem_phoneLock hl
        cases he
        exact ⟨id, rfl, Db.phoneOf_eq_some_iff.mpr ⟨r, hr, hq⟩⟩
    | refreshToken | device => cases List.mem_singleton.mp hl
    | compostCycle => cases (mem_activeLock hl).2
  · rintro ⟨id, rfl, hp⟩
    obtain ⟨user, hu, hp⟩ := Db.phoneOf_eq_some_iff.mp hp
    refine ⟨user, hu, List.mem_cons_of_mem _ ?_⟩
    rw [hp]
    exact List.mem_singleton_self _

theorem carries_hash {hash : String} : uniqueValues.Carries db k (.tokenHash hash) ↔
    ∃ id rt, k = .refreshToken id ∧ db.refreshTokens.get? id = some rt ∧ rt.tokenHash = hash := by
  constructor
  · rintro ⟨r, hr, hl⟩
    cases k with
    | user id =>
      rcases List.mem_cons.mp hl with he | hl
      · cases he
      · obtain ⟨_, _, he⟩ := mem_phoneLock hl
        cases he
    | refreshToken id =>
      exact ⟨id, r, rfl, hr, (Lock.tokenHash.inj (List.mem_singleton.mp hl)).symm⟩
    | device => cases List.mem_singleton.mp hl
    | compostCycle => cases (mem_activeLock hl).2
  · rintro ⟨id, rt, rfl, hr, rfl⟩
    exact ⟨rt, hr, List.mem_singleton_self _⟩

theorem carries_uid {uid : String} : uniqueValues.Carries db k (.hardwareUid uid) ↔
    ∃ id device, k = .device id ∧ db.devices.get? id = some device ∧ device.hardwareUid = uid := by
  constructor
  · rintro ⟨r, hr, hl⟩
    cases k with
    | user id =>
      rcases List.mem_cons.mp hl with he | hl
      · cases he
      · obtain ⟨_, _, he⟩ := mem_phoneLock hl
        cases he
    | refreshToken => cases List.mem_singleton.mp hl
    | device id => exact ⟨id, r, rfl, hr, (Lock.hardwareUid.inj (List.mem_singleton.mp hl)).symm⟩
    | compostCycle => cases (mem_activeLock hl).2
  · rintro ⟨id, device, rfl, hd, rfl⟩
    exact ⟨device, hd, List.mem_singleton_self _⟩

theorem carries_active {d : Uuid} : uniqueValues.Carries db k (.activeCycle d) ↔
    ∃ id cycle, k = .compostCycle id ∧ db.compostCycles.get? id = some cycle ∧
      cycle.deviceId = d ∧ cycle.status = .active := by
  constructor
  · rintro ⟨r, hr, hl⟩
    cases k with
    | user id =>
      rcases List.mem_cons.mp hl with he | hl
      · cases he
      · obtain ⟨_, _, he⟩ := mem_phoneLock hl
        cases he
    | refreshToken | device => cases List.mem_singleton.mp hl
    | compostCycle id =>
      obtain ⟨hs, he⟩ := mem_activeLock hl
      exact ⟨id, r, rfl, hr, (Lock.activeCycle.inj he).symm, Option.some.inj hs⟩
  · rintro ⟨id, cycle, rfl, hc, rfl, hs⟩
    refine ⟨cycle, hc, ?_⟩
    show _ ∈ activeLock cycle.deviceId (some cycle.status)
    rw [hs]
    exact List.mem_singleton_self _

end

/-- A value that an accepted statement gives is on no other row. -/
theorem Write.key_of_value {w : Write} {db : Db} {k : UniqueKey} {l : Lock}
    (hv : w.violates db = none) (hl : l ∈ w.values) (h : uniqueValues.Carries db k l) :
    w.key = some k := by
  cases w with
  | insertUser id row =>
    obtain ⟨_, hemail, hphone⟩ := insertUser_violates_iff.mp hv
    rcases List.mem_cons.mp hl with rfl | hl
    · obtain ⟨v, user, _, hu, he⟩ := carries_email.mp h
      exact absurd he (emailTaken_eq_false_iff.mp hemail v user hu)
    · obtain ⟨p, hp, rfl⟩ := mem_phoneLock hl
      obtain ⟨v, _, hv⟩ := carries_phone.mp h
      cases Db.phoneOf_of_not_taken (hp ▸ hphone) hv
  | updateUser id patch =>
    obtain ⟨p, hp, rfl⟩ := mem_phoneLock hl
    obtain ⟨v, rfl, hphone⟩ := carries_phone.mp h
    rw [violates, hp] at hv
    split at hv
    · cases hv
    · have hfree : db.phoneTaken (some p) (some id) = false := by simpa using hv
      exact congrArg (some ∘ UniqueKey.user)
        (Option.some.inj (Db.phoneOf_of_not_taken hfree hphone)).symm
  | insertRefreshToken id row =>
    obtain ⟨_, hhash, _⟩ := insertRefreshToken_violates_iff.mp hv
    cases List.mem_singleton.mp hl
    obtain ⟨v, rt, _, hr, he⟩ := carries_hash.mp h
    exact absurd he (hashTaken_eq_false_iff.mp hhash v rt hr)
  | insertDevice id row =>
    obtain ⟨_, huid⟩ := insertDevice_violates_iff.mp hv
    cases List.mem_singleton.mp hl
    obtain ⟨v, device, _, hd, he⟩ := carries_uid.mp h
    exact absurd he (hardwareUidTaken_eq_false_iff.mp huid v device hd)
  | insertCompostCycle id row =>
    obtain ⟨_, _, hroom⟩ := insertCompostCycle_violates_iff.mp hv
    obtain ⟨hs, rfl⟩ := mem_activeLock hl
    obtain ⟨v, cycle, _, hc, hd, ha⟩ := carries_active.mp h
    cases Db.activeTaken_eq_false_iff.mp (hroom (Option.some.inj hs)) v cycle hc hd ha
  | updateCompostCycle id d patch now =>
    obtain ⟨hs, rfl⟩ := mem_activeLock hl
    obtain ⟨v, cycle, rfl, hc, hd, ha⟩ := carries_active.mp h
    rw [violates, hs] at hv
    split at hv
    · cases hv
    · have hroom : db.activeTaken d (some id) = false := by simpa using hv
      exact congrArg (some ∘ UniqueKey.compostCycle)
        (Option.some.inj (Db.activeTaken_eq_false_iff.mp hroom v cycle hc hd ha)).symm
  | _ => cases hl

/-- An accepted statement keeps the unique values apart. -/
theorem Write.distinct_apply {w : Write} {db : Db} (hv : w.violates db = none) (hfits : w.Fits db)
    (h : uniqueValues.Distinct db) : uniqueValues.Distinct (w.apply db) :=
  h.apply hfits (fun _ _ hk hk' => Option.some.inj (hk.symm.trans hk')) fun _ _ hl hk =>
    key_of_value hv hl hk

/-! ## References -/

/-- The rows that others refer to. -/
inductive Ref where
  | user (id : Uuid)
  | device (id : Uuid)
  | compostCycle (id : Uuid)

def Db.HasRef (db : Db) : Ref → Prop
  | .user id => db.users.contains id = true
  | .device id => db.devices.contains id = true
  | .compostCycle id => db.compostCycles.contains id = true

/-- A row refers to this one, by a foreign key. -/
inductive Db.Refers (db : Db) : Ref → Prop where
  | tokenUser {id : Uuid} (h : db.refreshTokens.get? id = some rt) : db.Refers (.user rt.userId)
  | memberUser (h : db.userDevices.contains (u, d) = true) : db.Refers (.user u)
  | memberDevice (h : db.userDevices.contains (u, d) = true) : db.Refers (.device d)
  | reading (h : db.sensorReadings.contains (time, d) = true) : db.Refers (.device d)
  | alert {id : Uuid} (h : db.alertEvents.get? id = some event) : db.Refers (.device event.deviceId)
  | config (h : db.deviceConfigs.contains d = true) : db.Refers (.device d)
  | cycle {id : Uuid} (h : db.compostCycles.get? id = some cycle) :
      db.Refers (.device cycle.deviceId)
  | logDevice {id : Uuid} (h : db.wasteLogs.get? id = some log) : db.Refers (.device log.deviceId)
  | logCycle {id : Uuid} (h : db.wasteLogs.get? id = some log)
    (hc : log.compostCycleId = some cycleId) : db.Refers (.compostCycle cycleId)
  | logUser {id : Uuid} (h : db.wasteLogs.get? id = some log) (hu : log.userId = some u) :
    db.Refers (.user u)

namespace Write

def creates : Write → Option Ref
  | .insertUser id _ => some (.user id)
  | .insertDevice id _ => some (.device id)
  | .insertCompostCycle id _ => some (.compostCycle id)
  | _ => none

/-- What the new row of a statement refers to. -/
def needs : Write → List Ref
  | .insertRefreshToken _ row => [.user row.userId]
  | .insertUserDevice u d _ => [.user u, .device d]
  | .insertSensorReadings d _ => [.device d]
  | .insertDeviceConfig d _ => [.device d]
  | .insertCompostCycle _ row => [.device row.deviceId]
  | .insertWasteLog _ row =>
    .device row.deviceId :: row.compostCycleId.toList.map .compostCycle ++
      row.userId.toList.map .user
  | _ => []

variable {w : Write} {db : Db} {ref : Ref}

/-- No statement deletes a row that others refer to. -/
theorem hasRef_apply : (w.apply db).HasRef ref ↔ db.HasRef ref ∨ w.creates = some ref := by
  cases w with
  | insertUser id row =>
    cases ref with
    | user => exact (Table.contains_insert ..).trans (or_congr_right (by simp [creates, eq_comm]))
    | _ => exact (or_iff_left (by rintro ⟨⟩)).symm
  | insertDevice id row =>
    cases ref with
    | device => exact (Table.contains_insert ..).trans (or_congr_right (by simp [creates, eq_comm]))
    | _ => exact (or_iff_left (by rintro ⟨⟩)).symm
  | insertCompostCycle id row =>
    cases ref with
    | compostCycle =>
      exact (Table.contains_insert ..).trans (or_congr_right (by simp [creates, eq_comm]))
    | _ => exact (or_iff_left (by rintro ⟨⟩)).symm
  | updateUser | updateDevice | updateCompostCycle =>
    refine Iff.trans ?_ (or_iff_left (by rintro ⟨⟩)).symm
    cases ref <;> first
      | exact Iff.rfl
      | exact Eq.to_iff (congrArg (· = true) (Table.contains_update ..))
  | _ => exact Iff.trans (by cases ref <;> exact Iff.rfl) (or_iff_left (by rintro ⟨⟩)).symm

/-- A reference was there before, or the statement makes it. -/
theorem refers_apply (h : (w.apply db).Refers ref) : db.Refers ref ∨ ref ∈ w.needs := by
  cases h with
  | tokenUser h =>
    cases w with
    | insertRefreshToken id row =>
      rcases Table.get?_of_insert h with h | ⟨_, rfl⟩
      · exact .inl (.tokenUser h)
      · exact .inr (List.mem_singleton_self _)
    | updateRefreshToken id revoked =>
      obtain ⟨rt, hrt, rfl | rfl⟩ := Table.get?_of_update h
      · exact .inl (.tokenUser hrt)
      · exact .inl (show db.Refers (.user rt.userId) from .tokenUser hrt)
    | _ => exact .inl (.tokenUser h)
  | memberUser h =>
    cases w with
    | insertUserDevice u d row =>
      rcases (Table.contains_insert ..).mp h with h | h
      · exact .inl (.memberUser h)
      · cases h
        exact .inr List.mem_cons_self
    | deleteUserDevice u d => exact .inl (.memberUser ((Table.contains_delete ..).mp h).1)
    | _ => exact .inl (.memberUser h)
  | memberDevice h =>
    cases w with
    | insertUserDevice u d row =>
      rcases (Table.contains_insert ..).mp h with h | h
      · exact .inl (.memberDevice h)
      · cases h
        exact .inr (List.mem_cons_of_mem _ List.mem_cons_self)
    | deleteUserDevice u d => exact .inl (.memberDevice ((Table.contains_delete ..).mp h).1)
    | _ => exact .inl (.memberDevice h)
  | reading h =>
    cases w with
    | insertSensorReadings d rows =>
      obtain ⟨r, hr⟩ := Table.contains_iff.mp h
      rcases Table.get?_of_insertAll hr with hr | hr
      · exact .inl (.reading (Table.contains_of_get? hr))
      · obtain ⟨_, _, he⟩ := List.mem_map.mp hr
        cases he
        exact .inr (List.mem_singleton_self _)
    | _ => exact .inl (.reading h)
  | alert h => exact .inl (.alert (by cases w <;> exact h))
  | config h =>
    cases w with
    | insertDeviceConfig d row =>
      rcases (Table.contains_insert ..).mp h with h | rfl
      · exact .inl (.config h)
      · exact .inr (List.mem_singleton_self _)
    | updateDeviceConfig d patch => exact .inl (.config ((Table.contains_update ..).symm.trans h))
    | _ => exact .inl (.config h)
  | cycle h =>
    cases w with
    | insertCompostCycle id row =>
      rcases Table.get?_of_insert h with h | ⟨_, rfl⟩
      · exact .inl (.cycle h)
      · exact .inr (List.mem_singleton_self _)
    | updateCompostCycle id d patch now =>
      obtain ⟨row, hrow, rfl | rfl⟩ := Table.get?_of_update h
      · exact .inl (.cycle hrow)
      · exact .inl (show db.Refers (.device row.deviceId) from .cycle hrow)
    | _ => exact .inl (.cycle h)
  | logDevice h =>
    cases w with
    | insertWasteLog id row =>
      rcases Table.get?_of_insert h with h | ⟨_, rfl⟩
      · exact .inl (.logDevice h)
      · exact .inr List.mem_cons_self
    | _ => exact .inl (.logDevice h)
  | logCycle h hc =>
    cases w with
    | insertWasteLog id row =>
      rcases Table.get?_of_insert h with h | ⟨_, rfl⟩
      · exact .inl (.logCycle h hc)
      · exact .inr (by simp [needs, hc])
    | _ => exact .inl (.logCycle h hc)
  | logUser h hu =>
    cases w with
    | insertWasteLog id row =>
      rcases Table.get?_of_insert h with h | ⟨_, rfl⟩
      · exact .inl (.logUser h hu)
      · exact .inr (by simp [needs, hu])
    | _ => exact .inl (.logUser h hu)

/-- An accepted statement finds what it refers to. -/
theorem hasRef_of_needs (hv : w.violates db = none) (h : ref ∈ w.needs) : db.HasRef ref := by
  cases w with
  | insertRefreshToken id row =>
    cases List.mem_singleton.mp h
    exact (insertRefreshToken_violates_iff.mp hv).2.2
  | insertUserDevice u d row =>
    obtain ⟨_, hu, hd⟩ := insertUserDevice_violates_iff.mp hv
    rcases List.mem_pair.mp h with rfl | rfl
    · exact hu
    · exact hd
  | insertSensorReadings d rows =>
    cases List.mem_singleton.mp h
    by_contra hd
    simp [violates, Bool.eq_false_iff.mpr hd] at hv
  | insertDeviceConfig d row =>
    cases List.mem_singleton.mp h
    by_contra hd
    simp [violates, Bool.eq_false_iff.mpr hd] at hv
  | insertCompostCycle id row =>
    cases List.mem_singleton.mp h
    exact (insertCompostCycle_violates_iff.mp hv).2.1
  | insertWasteLog id row =>
    have hchecked : db.wasteLogs.contains id = false ∧ db.devices.contains row.deviceId = true ∧
        row.compostCycleId.any (fun c => !db.compostCycles.contains c) = false ∧
        row.userId.any (fun u => !db.users.contains u) = false := by
      simpa [violates, and_assoc] using hv
    obtain ⟨_, hd, hc, hu⟩ := hchecked
    rcases List.mem_append.mp h with h | h
    · rcases List.mem_cons.mp h with rfl | h
      · exact hd
      · obtain ⟨c, hmem, rfl⟩ := List.mem_map.mp h
        rw [Option.mem_toList.mp hmem] at hc
        exact (show db.compostCycles.contains c = true by simpa using hc)
    · obtain ⟨u, hmem, rfl⟩ := List.mem_map.mp h
      rw [Option.mem_toList.mp hmem] at hu
      exact (show db.users.contains u = true by simpa using hu)
  | _ => cases h

end Write

def references : Linked Db Write Ref where
  Present := Db.HasRef
  Refers := Db.Refers
  apply := Write.apply
  Creates w ref := w.creates = some ref
  Needs w ref := ref ∈ w.needs
  present_apply _ _ _ := Write.hasRef_apply
  refers_apply _ _ _ h := Write.refers_apply h

/-! ## The constraints -/

/-- The unique columns, the partial unique index and the foreign keys of the schema. -/
structure Db.Integrity (db : Db) : Prop where
  emails : db.users.Unique User.email
  phones : db.PhonesUnique
  tokenHashes : db.refreshTokens.Unique RefreshToken.tokenHash
  hardwareUids : db.devices.Unique Device.hardwareUid
  oneActive : db.OneActive
  references : ∀ ref, db.Refers ref → db.HasRef ref

/-- The constraints are those that the rules of the locks are about. -/
theorem Db.integrity_iff {db : Db} :
    db.Integrity ↔ uniqueValues.Distinct db ∧ Rawbin.references.Closed db := by
  constructor
  · intro h
    refine ⟨fun k k' l hk hk' => ?_, h.references⟩
    cases l with
    | userEmail e =>
      obtain ⟨id, user, rfl, hu, he⟩ := carries_email.mp hk
      obtain ⟨id', user', rfl, hu', he'⟩ := carries_email.mp hk'
      rw [h.emails _ _ _ _ hu hu' (he.trans he'.symm)]
    | userPhone p =>
      obtain ⟨id, rfl, hp⟩ := carries_phone.mp hk
      obtain ⟨id', rfl, hp'⟩ := carries_phone.mp hk'
      rw [h.phones _ _ _ hp hp']
    | tokenHash hash =>
      obtain ⟨id, rt, rfl, hr, he⟩ := carries_hash.mp hk
      obtain ⟨id', rt', rfl, hr', he'⟩ := carries_hash.mp hk'
      rw [h.tokenHashes _ _ _ _ hr hr' (he.trans he'.symm)]
    | hardwareUid uid =>
      obtain ⟨id, device, rfl, hd, he⟩ := carries_uid.mp hk
      obtain ⟨id', device', rfl, hd', he'⟩ := carries_uid.mp hk'
      rw [h.hardwareUids _ _ _ _ hd hd' (he.trans he'.symm)]
    | activeCycle d =>
      obtain ⟨id, cycle, rfl, hc, hd, ha⟩ := carries_active.mp hk
      obtain ⟨id', cycle', rfl, hc', hd', ha'⟩ := carries_active.mp hk'
      have htaken := Db.activeTaken_eq_false_iff.mp (h.oneActive id cycle hc ha) id' cycle' hc'
        (hd'.trans hd.symm) ha'
      rw [Option.some.inj htaken]
    | _ =>
      obtain ⟨r, _, hl⟩ := hk
      cases UniqueKey.isValue_of_mem hl
  · rintro ⟨h, href⟩
    have hkey {k k' : UniqueKey} {l : Lock} (hk : uniqueValues.Carries db k l)
        (hk' : uniqueValues.Carries db k' l) : k = k' := h k k' l hk hk'
    refine ⟨fun u user u' user' hu hu' he => ?_, fun u u' p hp hp' => ?_,
      fun id rt id' rt' hr hr' he => ?_, fun d device d' device' hd hd' he => ?_,
      fun id cycle hc ha => ?_, href⟩
    · exact UniqueKey.user.inj (hkey (carries_email.mpr ⟨u, user, rfl, hu, he⟩)
        (carries_email.mpr ⟨u', user', rfl, hu', rfl⟩))
    · exact UniqueKey.user.inj (hkey (carries_phone.mpr ⟨u, rfl, hp⟩)
        (carries_phone.mpr ⟨u', rfl, hp'⟩))
    · exact UniqueKey.refreshToken.inj (hkey (carries_hash.mpr ⟨id, rt, rfl, hr, he⟩)
        (carries_hash.mpr ⟨id', rt', rfl, hr', rfl⟩))
    · exact UniqueKey.device.inj (hkey (carries_uid.mpr ⟨d, device, rfl, hd, he⟩)
        (carries_uid.mpr ⟨d', device', rfl, hd', rfl⟩))
    · refine Db.activeTaken_eq_false_iff.mpr fun id' cycle' hc' hd' ha' => ?_
      exact congrArg some (UniqueKey.compostCycle.inj
        (hkey (carries_active.mpr ⟨id', cycle', rfl, hc', hd', ha'⟩)
          (carries_active.mpr ⟨id, cycle, rfl, hc, rfl, ha⟩)))

/-! ## Runs -/

section
variable {E : Env} {ok : Pool → Label Choice Job ℕ → Prop} {w₀ : World} {c c' : Pool}
  {t t' : JobThread}

/-- **Inversion for sessions**: after a step a session is empty; or it is as it was, while at most
another transaction committed; or it has executed a statement that the database accepts. -/
theorem step_session {l : Label Choice Job ℕ} {j : ℕ} (H : (backend E).Step c l c')
    (hj : c'.threads[j]? = some t') :
    t'.sess.written = [] ∨
    (∃ t, c.threads[j]? = some t ∧ t'.sess.written = t.sess.written ∧
      (c'.state.db = c.state.db ∨ ∃ i t₁, i ≠ j ∧ c.threads[i]? = some t₁ ∧
        c'.state.db = t₁.sess.view c.state.db)) ∨
    ∃ t wr, c.threads[j]? = some t ∧ nextStatement t.prog = some wr ∧
      wr.violates (t.sess.view c.state.db) = none ∧
      t'.sess.written = t.sess.written ++ [wr] ∧ c'.state.db = c.state.db := by
  rcases H.getElem?_cases hj with ⟨hold, hne⟩ | ⟨r, _, _, rfl⟩ |
    ⟨x, t, β, cm, k, rfl, hold, hp, hb, rfl, hst⟩
  · refine .inr (.inl ⟨t', hold, rfl, ?_⟩)
    rcases step_db_cases H with h | ⟨i, x, t₁, rfl, hi, _, _, _, _, _, h⟩
    · exact .inl h
    · exact .inr ⟨i, t₁, fun h => hne x (h ▸ rfl), hi, h⟩
  · exact .inl rfl
  · rcases cm.exec_db x t.sess c.state with hdb | ⟨_, h⟩
    · have hdb : c'.state.db = c.state.db := hst ▸ hdb
      rcases cm.exec_written x t.sess c.state with h | h | ⟨wr, hwr, hv, h⟩
      · exact .inr (.inl ⟨t, hold, h, .inl hdb⟩)
      · exact .inl h
      · exact .inr (.inr ⟨t, wr, hold, by rw [hp]; exact hwr, hv, h, hdb⟩)
    · exact .inl (congrArg (·.1.written) h)

/-- **Constraints hold in every run**, in every committed state and for every transaction, if an
accepted statement and the commit of another transaction keep them. -/
theorem run_views {P : List Write → Db → Prop} (H : (backend E).Run ok ⟨w₀, []⟩ c) (h₀ : P [] w₀.db)
    (hstatement : ∀ c, (backend E).Run ok ⟨w₀, []⟩ c → ∀ t ∈ c.threads, ∀ wr,
      t.req.Issues E t.log t.sess.written wr → wr.violates (t.sess.view c.state.db) = none →
      P t.sess.written c.state.db → P (t.sess.written ++ [wr]) c.state.db)
    (hcommit : ∀ ws db, P ws db → P [] (viewOf Write.apply ws db))
    (hother : ∀ c, (backend E).Run ok ⟨w₀, []⟩ c → ∀ (i j : ℕ) (t t' : JobThread), i ≠ j →
      c.threads[i]? = some t →
      c.threads[j]? = some t' → P t.sess.written c.state.db → P t'.sess.written c.state.db →
      P t'.sess.written (t.sess.view c.state.db)) :
    P [] c.state.db ∧ ∀ t ∈ c.threads, P t.sess.written c.state.db := by
  induction H with
  | refl => exact ⟨h₀, fun t ht => absurd ht List.not_mem_nil⟩
  | @step c l c' H hok hs ih =>
    obtain ⟨hdb, hthreads⟩ := ih
    have hdb' : P [] c'.state.db := by
      rcases step_db_cases hs with h | ⟨i, _, t, _, hi, _, _, _, _, _, h⟩
      · exact h ▸ hdb
      · exact h ▸ hcommit _ _ (hthreads t (List.mem_of_getElem? hi))
    refine ⟨hdb', fun t' ht' => ?_⟩
    obtain ⟨j, hj⟩ := List.getElem?_of_mem ht'
    rcases step_session hs hj with hnil | ⟨t, hold, hws, hsame | ⟨i, t₁, hne, hi, h⟩⟩ |
      ⟨t, wr, hold, hnext, hv, hws, hsame⟩
    · rw [hnil]
      exact hdb'
    · rw [hws, hsame]
      exact hthreads t (List.mem_of_getElem? hold)
    · rw [hws, h]
      exact hother c H i j t₁ t hne hi hold (hthreads t₁ (List.mem_of_getElem? hi))
        (hthreads t (List.mem_of_getElem? hold))
    · rw [hws, hsame]
      have ht := List.mem_of_getElem? hold
      cases hp : t.prog with
      | pure | raise => rw [hp] at hnext; cases hnext
      | cmd cm k =>
        rw [hp] at hnext
        exact hstatement c H t ht wr (run_issues H ht hp hnext) hv (hthreads t ht)

/-! ### The cycles that are changed -/

/-- A cycle that is seen by a transaction that inserts none is committed. -/
theorem cycle_of_view {ws : List Write} (hws : ∀ w ∈ ws, ∀ id row, w ≠ .insertCompostCycle id row)
    {db : Db} {id : Uuid} {row : CompostCycle}
    (h : (viewOf Write.apply ws db).compostCycles.get? id = some row) :
    ∃ row', db.compostCycles.get? id = some row' ∧ row'.deviceId = row.deviceId := by
  induction ws generalizing db with
  | nil => exact ⟨row, h, rfl⟩
  | cons w ws ih =>
    obtain ⟨row', hrow', hd⟩ := ih (fun w' hw' => hws w' (List.mem_cons_of_mem w hw')) h
    rw [← hd]
    have hw := hws w List.mem_cons_self
    cases w with
    | insertCompostCycle id' row'' => exact absurd rfl (hw id' row'')
    | updateCompostCycle id' d patch now =>
      obtain ⟨old, hold, rfl | rfl⟩ := Table.get?_of_update hrow'
      · exact ⟨row', hold, rfl⟩
      · exact ⟨old, hold, rfl⟩
    | _ => exact ⟨row', hrow', rfl⟩

theorem fits_step {l : Label Choice Job ℕ} (hs : (backend E).Step c l c') {w : Write}
    (h : w.Fits c.state.db) : w.Fits c'.state.db := by
  rcases step_db_cases hs with hdb | ⟨_, _, t, _, _, _, _, _, _, _, hdb⟩
  · exact hdb ▸ h
  · exact hdb ▸ Keyed.fits_view (K := uniqueValues) h

/-- The cycle that a request to change it has found is there, with its device. -/
theorem run_cycleFound (H : (backend E).Run ok ⟨w₀, []⟩ c) (ht : t ∈ c.threads)
    {credentials : String} {cycleId : Uuid} {body : CompostCycleUpdate} {draws : Draws}
    (hreq : t.req = .http (.user credentials (.updateCycle cycleId body) draws)) {id : Uuid}
    {cycle : CompostCycle} (he : ⟨_, .select (.cycleById id), some cycle⟩ ∈ t.log)
    (patch : CompostCyclePatch) (now : Time) :
    (Write.updateCompostCycle id cycle.deviceId patch now).Fits c.state.db := by
  induction H generalizing t with
  | refl => cases ht
  | step H hok hs ih =>
    refine fits_step hs ?_
    obtain ⟨j, hj⟩ := List.getElem?_of_mem ht
    obtain ⟨t₀, hold, he | ⟨x, _, β, cm, k, hp, he⟩⟩ := step_log hs hj he
    · exact ih (List.mem_of_getElem? hold) ((hs.req_eq hold hj).symm.trans hreq) he
    · have ht₀ := List.mem_of_getElem? hold
      have hreq₀ := (hs.req_eq hold hj).symm.trans hreq
      obtain ⟨_, heval⟩ := Cmd.eval_of_event he.symm
      have hinserts (w : Write) (hw : w ∈ t₀.sess.written) (id : Uuid) (row : CompostCycle) :
          w ≠ .insertCompostCycle id row := by
        obtain ⟨before, after, hsplit⟩ := List.append_of_mem hw
        obtain ⟨log, _, hI⟩ := run_written H ht₀ hsplit
        rw [hreq₀] at hI
        obtain ⟨user, _, hI⟩ := hI
        rintro rfl
        cases hI
      obtain ⟨row, hrow, hd⟩ := cycle_of_view hinserts heval
      rintro id' d patch' now' ⟨⟩
      exact ⟨row, hrow, hd⟩

theorem run_fits (H : (backend E).Run ok ⟨w₀, []⟩ c) (ht : t ∈ c.threads) {ws : List Write}
    {log : Log} {w : Write} (hl : log <+: t.log) (hI : t.req.Issues E log ws w) :
    w.Fits c.state.db := by
  intro id d patch now hw
  subst hw
  cases hreq : t.req with
  | http r =>
    rw [hreq] at hI
    cases r with
    | user credentials route draws =>
      obtain ⟨user, _, hI⟩ := hI
      cases hI with
      | updateCycle _ hfound =>
        exact run_cycleFound H ht hreq (hl.subset hfound) patch now id _ patch now rfl
    | auth => cases hI
  | _ =>
    rw [hreq] at hI
    exact hI.elim

/-- **Unique values stay unique**, in every committed state and for every transaction. -/
theorem run_distinct (H : (backend E).Run ok ⟨w₀, []⟩ c) (h₀ : uniqueValues.Distinct w₀.db) :
    uniqueValues.Distinct c.state.db ∧
      ∀ t ∈ c.threads, uniqueValues.Distinct (t.sess.view c.state.db) := by
  have hfits {c : Pool} (H : (backend E).Run ok ⟨w₀, []⟩ c) {t : JobThread} (ht : t ∈ c.threads) :
      ∀ w ∈ t.sess.written, w.Fits c.state.db := by
    intro w hw
    obtain ⟨before, after, hsplit⟩ := List.append_of_mem hw
    obtain ⟨log, hl, hI⟩ := run_written H ht hsplit
    exact run_fits H ht hl hI
  refine run_views (P := fun ws db => uniqueValues.Distinct (uniqueValues.view ws db)) H h₀
    (fun c H t ht wr hI hv h => ?_) (fun ws db h => h) fun c H i j t t' hne hi hj h h' => ?_
  · show uniqueValues.Distinct (viewOf Write.apply (t.sess.written ++ [wr]) c.state.db)
    rw [viewOf_snoc]
    exact Write.distinct_apply hv (Keyed.fits_view (K := uniqueValues)
      (run_fits H ht List.prefix_rfl hI)) h
  · have hlocks := run_locks_disjoint H i j t t' hne hi hj
    refine h.commit h' (hfits H (List.mem_of_getElem? hi)) (hfits H (List.mem_of_getElem? hj)) ?_ ?_
    · rintro k ⟨w, hw, hk⟩ ⟨w', hw', hk'⟩
      exact hlocks w hw w' hw' _ (Write.lock_mem_locks hk) (Write.lock_mem_locks hk')
    · rintro l ⟨w, hw, hl⟩ ⟨w', hw', hl'⟩
      exact hlocks w hw w' hw' l (Write.values_subset_locks hl) (Write.values_subset_locks hl')

/-- **No row refers to a missing one**, in any committed state or for any transaction. -/
theorem run_closed (H : (backend E).Run ok ⟨w₀, []⟩ c) (h₀ : references.Closed w₀.db) :
    references.Closed c.state.db ∧ ∀ t ∈ c.threads, references.Closed (t.sess.view c.state.db) := by
  have hrun := run_views (P := fun ws db => references.Closed (references.view ws db) ∧
      references.Met ws (references.view ws db)) H ⟨h₀, fun _ h => absurd h List.not_mem_nil⟩
    (fun c H t ht wr hI hv h => ?_) (fun ws db h => ⟨h.1, fun _ h => absurd h List.not_mem_nil⟩)
    fun c H i j t t' hne hi hj h h' => ?_
  · exact ⟨hrun.1.1, fun t ht => (hrun.2 t ht).1⟩
  · have hneeds (ref : Ref) (href : ref ∈ wr.needs) : (t.sess.view c.state.db).HasRef ref :=
      Write.hasRef_of_needs hv href
    refine ⟨?_, h.2.snoc hneeds⟩
    show references.Closed (viewOf Write.apply (t.sess.written ++ [wr]) c.state.db)
    rw [viewOf_snoc]
    exact h.1.apply hneeds
  · have hmet : references.Met t'.sess.written
        (references.view t'.sess.written (references.view t.sess.written c.state.db)) := h'.2.commit
    exact ⟨h.1.view hmet, hmet⟩

/-- **The constraints of the schema hold in every interleaving**: in every committed state, and in
what every transaction sees, if they hold in the first state. -/
theorem integrity_always (h₀ : w₀.db.Integrity) (H : (backend E).Run ok ⟨w₀, []⟩ c) :
    c.state.db.Integrity ∧ ∀ t ∈ c.threads, (t.sess.view c.state.db).Integrity := by
  obtain ⟨hdistinct, hclosed⟩ := Db.integrity_iff.mp h₀
  obtain ⟨hdb, hviews⟩ := run_distinct H hdistinct
  obtain ⟨hdb', hviews'⟩ := run_closed H hclosed
  exact ⟨Db.integrity_iff.mpr ⟨hdb, hdb'⟩,
    fun t ht => Db.integrity_iff.mpr ⟨hviews t ht, hviews' t ht⟩⟩

end

/-! ## One email twice -/

theorem empty_integrity : Db.empty.Integrity where
  emails := Table.unique_empty _
  phones u v p h := by cases h
  tokenHashes := Table.unique_empty _
  hardwareUids := Table.unique_empty _
  oneActive _ _ h := by cases h
  references ref h := by
    cases h with
    | tokenUser h | alert h | cycle h | logDevice h | logCycle h | logUser h => cases h
    | memberUser h | memberDevice h | reading h | config h => cases h

/-- Eve registers. -/
def registerEve (n : Nat) : Job :=
  .http (.auth (.register ⟨"eve@rawbin.io", "password", "Eve", none⟩) (Sample.draws n))

/-- Both requests find the email free; the second INSERT waits until the first has committed. -/
def eveTwice : List (Label Choice Job Nat) :=
  .spawn (registerEve 1) :: .spawn (registerEve 2) :: Sample.steps 0 4 ++ Sample.steps 1 2 ++
    Sample.steps 0 7 ++ Sample.steps 1 3

theorem eveTwice_integrity : ∃ c,
    (backend Sample.env).followIf (fun _ _ => true) ⟨⟨.empty, .empty, 0⟩, []⟩ eveTwice = some c ∧
    c.state.db.emailTaken "eve@rawbin.io" = true ∧ c.state.db.Integrity ∧
    ∀ t ∈ c.threads, (t.sess.view c.state.db).Integrity := by
  have h : ((backend Sample.env).followIf (fun _ _ => true) ⟨⟨.empty, .empty, 0⟩, []⟩ eveTwice).any
      (·.state.db.emailTaken "eve@rawbin.io") = true := by decide +kernel
  obtain ⟨c, hc, h⟩ := (Option.any_eq_true _ _).mp h
  exact ⟨c, hc, h, integrity_always (show World.db ⟨.empty, .empty, 0⟩ |>.Integrity from
    empty_integrity) (.of_followIf hc)⟩

end Rawbin
