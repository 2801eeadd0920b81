import Rawbin.Db.Models

/-!
# Statements that write

The statements that a flush of the ORM session emits: one row is inserted, updated or deleted by
its primary key, and an UPDATE names only the columns whose value changed. `apply` is the effect,
`violates` the error of the constraints of `app/db/models/*.py` (and of the row count that the
ORM checks after an UPDATE), `locks` the row and unique-key locks that a transaction holds from
the statement to its end. A statement takes all its locks at once.
-/

namespace Rawbin

/-- The columns of an UPDATE of `users`; a column that is `none` is not in the statement. -/
structure UserPatch where
  displayName : Option String := none
  phone : Option String := none
  firebasePushToken : Option String := none
  deriving DecidableEq

structure DevicePatch where
  deviceSecretEnc : Option String := none
  displayName : Option String := none
  isPaired : Option Bool := none
  firmwareVersion : Option String := none
  deriving DecidableEq

structure DeviceConfigPatch where
  temperatureCMax : Option (Option ℚ) := none
  temperatureCMin : Option (Option ℚ) := none
  co2PpmMax : Option (Option ℚ) := none
  humidityPctMin : Option (Option ℚ) := none
  humidityPctMax : Option (Option ℚ) := none
  phMin : Option (Option ℚ) := none
  phMax : Option (Option ℚ) := none
  deriving DecidableEq

structure CompostCyclePatch where
  status : Option CycleStatus := none
  endedAt : Option Time := none
  label : Option String := none
  notes : Option String := none
  deriving DecidableEq

/-- What the ORM puts into an UPDATE for an attribute that was assigned. -/
def changed {α : Type} [DecidableEq α] (loaded assigned : α) : Option α :=
  if assigned = loaded then none else some assigned

namespace UserPatch

def apply (p : UserPatch) (u : User) : User :=
  { u with
    displayName := p.displayName.getD u.displayName
    phone := p.phone <|> u.phone
    firebasePushToken := p.firebasePushToken <|> u.firebasePushToken }

end UserPatch

namespace DevicePatch

def apply (p : DevicePatch) (d : Device) : Device :=
  { d with
    deviceSecretEnc := p.deviceSecretEnc.getD d.deviceSecretEnc
    displayName := p.displayName.getD d.displayName
    isPaired := p.isPaired.getD d.isPaired
    firmwareVersion := p.firmwareVersion <|> d.firmwareVersion }

end DevicePatch

namespace DeviceConfigPatch

def apply (p : DeviceConfigPatch) (c : DeviceConfig) : DeviceConfig where
  temperatureCMax := p.temperatureCMax.getD c.temperatureCMax
  temperatureCMin := p.temperatureCMin.getD c.temperatureCMin
  co2PpmMax := p.co2PpmMax.getD c.co2PpmMax
  humidityPctMin := p.humidityPctMin.getD c.humidityPctMin
  humidityPctMax := p.humidityPctMax.getD c.humidityPctMax
  phMin := p.phMin.getD c.phMin
  phMax := p.phMax.getD c.phMax

/-- The patch that the assignments of all seven columns amount to. -/
def between (loaded assigned : DeviceConfig) : DeviceConfigPatch where
  temperatureCMax := changed loaded.temperatureCMax assigned.temperatureCMax
  temperatureCMin := changed loaded.temperatureCMin assigned.temperatureCMin
  co2PpmMax := changed loaded.co2PpmMax assigned.co2PpmMax
  humidityPctMin := changed loaded.humidityPctMin assigned.humidityPctMin
  humidityPctMax := changed loaded.humidityPctMax assigned.humidityPctMax
  phMin := changed loaded.phMin assigned.phMin
  phMax := changed loaded.phMax assigned.phMax

end DeviceConfigPatch

namespace CompostCyclePatch

def apply (p : CompostCyclePatch) (updatedAt : Time) (c : CompostCycle) : CompostCycle :=
  { c with
    status := p.status.getD c.status
    endedAt := p.endedAt <|> c.endedAt
    label := p.label <|> c.label
    notes := p.notes <|> c.notes
    updatedAt := updatedAt }

end CompostCyclePatch

theorem changed_eq_some_iff [DecidableEq α] {loaded assigned a : α} :
    changed loaded assigned = some a ↔ assigned = a ∧ loaded ≠ a := by
  rw [changed, Option.ite_none_left_eq_some, Option.some_inj]
  constructor
  · rintro ⟨hne, rfl⟩
    exact ⟨rfl, fun h => hne h.symm⟩
  · rintro ⟨rfl, hne⟩
    exact ⟨fun h => hne h.symm, rfl⟩

theorem changed_getD [DecidableEq α] (loaded assigned : α) :
    (changed loaded assigned).getD loaded = assigned := by
  unfold changed
  split <;> simp [*]

theorem DeviceConfigPatch.apply_between (loaded assigned : DeviceConfig) :
    (between loaded assigned).apply loaded = assigned := by
  simp only [between, apply, changed_getD]

inductive Write where
  | insertUser (id : Uuid) (row : User)
  | updateUser (id : Uuid) (patch : UserPatch)
  | insertRefreshToken (id : Uuid) (row : RefreshToken)
  | updateRefreshToken (id : Uuid) (revoked : Bool)
  | insertDevice (id : Uuid) (row : Device)
  | updateDevice (id : Uuid) (patch : DevicePatch)
  | insertUserDevice (userId deviceId : Uuid) (row : UserDevice)
  | deleteUserDevice (userId deviceId : Uuid)
  | insertSensorReadings (deviceId : Uuid) (rows : List (Time × SensorReading))
  | insertDeviceConfig (deviceId : Uuid) (row : DeviceConfig)
  | updateDeviceConfig (deviceId : Uuid) (patch : DeviceConfigPatch)
  | insertCompostCycle (id : Uuid) (row : CompostCycle)
  | updateCompostCycle (id deviceId : Uuid) (patch : CompostCyclePatch) (updatedAt : Time)
  | insertWasteLog (id : Uuid) (row : WasteLog)
  deriving DecidableEq

/-- What two transactions cannot hold at once. -/
inductive Lock where
  | user (id : Uuid)
  | userEmail (email : String)
  | userPhone (phone : String)
  | refreshToken (id : Uuid)
  | tokenHash (hash : String)
  | device (id : Uuid)
  | hardwareUid (uid : String)
  | userDevice (userId deviceId : Uuid)
  | userDeviceKey (userId deviceId : Uuid)
  | sensorReading (time : Time) (deviceId : Uuid)
  | deviceConfig (deviceId : Uuid)
  | compostCycle (id : Uuid)
  | activeCycle (deviceId : Uuid)
  | wasteLog (id : Uuid)
  deriving DecidableEq

def phoneLock : Option String → List Lock
  | some p => [.userPhone p]
  | none => []

def activeLock (deviceId : Uuid) : Option CycleStatus → List Lock
  | some .active => [.activeCycle deviceId]
  | _ => []

namespace Db

def emailTaken (db : Db) (email : String) : Bool :=
  !(db.users.select fun _ u => u.email = email).isEmpty

def phoneTaken (db : Db) (phone : Option String) (except : Option Uuid) : Bool :=
  phone.isSome && !(db.users.select fun id u => u.phone = phone && some id ≠ except).isEmpty

def hashTaken (db : Db) (hash : String) : Bool :=
  !(db.refreshTokens.select fun _ rt => rt.tokenHash = hash).isEmpty

def hardwareUidTaken (db : Db) (uid : String) : Bool :=
  !(db.devices.select fun _ d => d.hardwareUid = uid).isEmpty

/-- An active cycle of the device, other than the given one. -/
def activeTaken (db : Db) (deviceId : Uuid) (except : Option Uuid) : Bool :=
  !(db.compostCycles.select fun id c =>
    c.deviceId = deviceId && c.status = .active && some id ≠ except).isEmpty

end Db

namespace Write

def apply : Write → Db → Db
  | .insertUser id row, db => { db with users := db.users.insert id row }
  | .updateUser id p, db => { db with users := db.users.update id p.apply }
  | .insertRefreshToken id row, db => { db with refreshTokens := db.refreshTokens.insert id row }
  | .updateRefreshToken id b, db =>
    { db with refreshTokens := db.refreshTokens.update id fun rt => { rt with revoked := b } }
  | .insertDevice id row, db => { db with devices := db.devices.insert id row }
  | .updateDevice id p, db => { db with devices := db.devices.update id p.apply }
  | .insertUserDevice u d row, db => { db with userDevices := db.userDevices.insert (u, d) row }
  | .deleteUserDevice u d, db => { db with userDevices := db.userDevices.delete (u, d) }
  | .insertSensorReadings d rows, db =>
    { db with sensorReadings := db.sensorReadings.insertAll (rows.map fun r => ((r.1, d), r.2)) }
  | .insertDeviceConfig d row, db => { db with deviceConfigs := db.deviceConfigs.insert d row }
  | .updateDeviceConfig d p, db => { db with deviceConfigs := db.deviceConfigs.update d p.apply }
  | .insertCompostCycle id row, db => { db with compostCycles := db.compostCycles.insert id row }
  | .updateCompostCycle id _ p now, db =>
    { db with compostCycles := db.compostCycles.update id (p.apply now) }
  | .insertWasteLog id row, db => { db with wasteLogs := db.wasteLogs.insert id row }

/-- An INSERT fails on a duplicate key or on a reference to a row that is missing; an UPDATE
fails when its row is gone. A DELETE of a row that is gone is only a warning of the ORM. -/
def violates : Write → Db → Option Exn
  | .insertUser id row, db =>
    if db.users.contains id || db.emailTaken row.email || db.phoneTaken row.phone none
    then some .integrityError else none
  | .updateUser id p, db =>
    if !db.users.contains id then some .staleDataError
    else if db.phoneTaken p.phone (some id) then some .integrityError else none
  | .insertRefreshToken id row, db =>
    if db.refreshTokens.contains id || db.hashTaken row.tokenHash ||
      !db.users.contains row.userId then some .integrityError else none
  | .updateRefreshToken id _, db =>
    if !db.refreshTokens.contains id then some .staleDataError else none
  | .insertDevice id row, db =>
    if db.devices.contains id || db.hardwareUidTaken row.hardwareUid
    then some .integrityError else none
  | .updateDevice id _, db => if !db.devices.contains id then some .staleDataError else none
  | .insertUserDevice u d _, db =>
    if db.userDevices.contains (u, d) || !db.users.contains u || !db.devices.contains d
    then some .integrityError else none
  | .deleteUserDevice _ _, _ => none
  | .insertSensorReadings d rows, db =>
    if rows.any (fun r => db.sensorReadings.contains (r.1, d)) || !(rows.map Prod.fst).Nodup ||
      !db.devices.contains d then some .integrityError else none
  | .insertDeviceConfig d _, db =>
    if db.deviceConfigs.contains d || !db.devices.contains d
    then some .integrityError else none
  | .updateDeviceConfig d _, db =>
    if !db.deviceConfigs.contains d then some .staleDataError else none
  | .insertCompostCycle id row, db =>
    if db.compostCycles.contains id || !db.devices.contains row.deviceId ||
      (row.status = .active && db.activeTaken row.deviceId none)
    then some .integrityError else none
  | .updateCompostCycle id d p _, db =>
    if !db.compostCycles.contains id then some .staleDataError
    else if p.status = some .active && db.activeTaken d (some id) then some .integrityError
    else none
  | .insertWasteLog id row, db =>
    if db.wasteLogs.contains id || !db.devices.contains row.deviceId ||
      row.compostCycleId.any (fun c => !db.compostCycles.contains c) ||
      row.userId.any (fun u => !db.users.contains u) then some .integrityError else none

section
variable {db : Db} {id u d : Uuid}

theorem insertUser_violates_iff {row : User} : (insertUser id row).violates db = none ↔
    db.users.contains id = false ∧ db.emailTaken row.email = false ∧
      db.phoneTaken row.phone none = false := by
  simp only [violates, ite_eq_right_iff, reduceCtorEq, imp_false, Bool.or_eq_true, not_or,
    Bool.not_eq_true, and_assoc]

theorem insertRefreshToken_violates_iff {row : RefreshToken} :
    (insertRefreshToken id row).violates db = none ↔ db.refreshTokens.contains id = false ∧
      db.hashTaken row.tokenHash = false ∧ db.users.contains row.userId = true := by
  simp only [violates, ite_eq_right_iff, reduceCtorEq, imp_false, Bool.or_eq_true, not_or,
    Bool.not_eq_true, Bool.not_eq_false', and_assoc]

theorem insertDevice_violates_iff {row : Device} : (insertDevice id row).violates db = none ↔
    db.devices.contains id = false ∧ db.hardwareUidTaken row.hardwareUid = false := by
  simp only [violates, ite_eq_right_iff, reduceCtorEq, imp_false, Bool.or_eq_true, not_or,
    Bool.not_eq_true]

theorem insertUserDevice_violates_iff {row : UserDevice} :
    (insertUserDevice u d row).violates db = none ↔ db.userDevices.contains (u, d) = false ∧
      db.users.contains u = true ∧ db.devices.contains d = true := by
  simp only [violates, ite_eq_right_iff, reduceCtorEq, imp_false, Bool.or_eq_true, not_or,
    Bool.not_eq_true, Bool.not_eq_false', and_assoc]

theorem insertCompostCycle_violates_iff {row : CompostCycle} :
    (insertCompostCycle id row).violates db = none ↔ db.compostCycles.contains id = false ∧
      db.devices.contains row.deviceId = true ∧
      (row.status = .active → db.activeTaken row.deviceId none = false) := by
  simp only [violates, ite_eq_right_iff, reduceCtorEq, imp_false, Bool.or_eq_true, not_or,
    Bool.and_eq_true, decide_eq_true_eq, not_and, Bool.not_eq_true, Bool.not_eq_false', and_assoc]

/-- The UPDATE of a cycle fails iff it makes a second cycle of the device active. -/
theorem updateCompostCycle_violates {patch : CompostCyclePatch} {now : Time} {c : CompostCycle}
    (hc : db.compostCycles.get? id = some c) : (updateCompostCycle id d patch now).violates db =
      if patch.status = some .active ∧ db.activeTaken d (some id) = true then some .integrityError
      else none := by
  simp only [violates, Table.contains_of_get? hc, Bool.not_true, Bool.false_eq_true, if_false,
    Bool.and_eq_true, decide_eq_true_eq]

end

/-- What the transaction holds after the statement. A DELETE locks the row that it found, an
INSERT the key that nobody sees yet. -/
def locks : Write → List Lock
  | .insertUser id row => [.user id, .userEmail row.email] ++ phoneLock row.phone
  | .updateUser id p => .user id :: phoneLock p.phone
  | .insertRefreshToken id row => [.refreshToken id, .tokenHash row.tokenHash]
  | .updateRefreshToken id _ => [.refreshToken id]
  | .insertDevice id row => [.device id, .hardwareUid row.hardwareUid]
  | .updateDevice id _ => [.device id]
  | .insertUserDevice u d _ => [.userDeviceKey u d]
  | .deleteUserDevice u d => [.userDevice u d]
  | .insertSensorReadings d rows => rows.map fun r => .sensorReading r.1 d
  | .insertDeviceConfig d _ => [.deviceConfig d]
  | .updateDeviceConfig d _ => [.deviceConfig d]
  | .insertCompostCycle id row => .compostCycle id :: activeLock row.deviceId (some row.status)
  | .updateCompostCycle id d p _ => .compostCycle id :: activeLock d p.status
  | .insertWasteLog id _ => [.wasteLog id]

/-- What the statement waits for. An INSERT also waits to see whether the row with its key is
really deleted; a DELETE does not see a row whose INSERT has not been committed. -/
def waits : Write → List Lock
  | .insertUserDevice u d _ => [.userDevice u d, .userDeviceKey u d]
  | w => w.locks

/-- The rows that the foreign keys of a new row refer to. They are locked `FOR KEY SHARE`. -/
def keyShares : Write → List Lock
  | .insertRefreshToken _ row => [.user row.userId]
  | .insertUserDevice u d _ => [.user u, .device d]
  | .insertSensorReadings d _ => [.device d]
  | .insertDeviceConfig d _ => [.device d]
  | .insertCompostCycle _ row => [.device row.deviceId]
  | .insertWasteLog _ row =>
    .device row.deviceId :: row.compostCycleId.toList.map .compostCycle ++
      row.userId.toList.map .user
  | _ => []

/-- The rows that an UPDATE locks against that: those with a change in the column of a unique index,
which no route changes but the phone number of a user. -/
def keyUpdates : Write → List Lock
  | .updateUser id p => if p.phone.isSome then [.user id] else []
  | _ => []

/-- The statement waits for a transaction that has executed these. A unique value that an open
UPDATE gives up is taken for one that is still there: the statement fails at once, or comes after
the end of the transaction, where the database would make it wait for that. -/
def conflicts (w : Write) (ws : List Write) : Bool :=
  ws.any fun w' => (w.waits.any fun l => w'.locks.contains l) ||
    (w.keyShares.any fun l => w'.keyUpdates.contains l) ||
    w.keyUpdates.any fun l => w'.keyShares.contains l

theorem locks_subset_waits (w : Write) : w.locks ⊆ w.waits := by
  cases w with
  | insertUserDevice => exact fun _ h => List.mem_cons_of_mem _ h
  | _ => exact fun _ h => h

theorem not_mem_locks_of_not_conflicts {w w' : Write} {ws : List Write}
    (h : w.conflicts ws = false) (hw : w' ∈ ws) (hl : l ∈ w.locks) : l ∉ w'.locks := by
  have h' := List.any_eq_false.mp h w' hw
  simp only [Bool.or_eq_true, not_or] at h'
  intro hl'
  exact h'.1.1 (List.any_eq_true.mpr ⟨l, w.locks_subset_waits hl, by simpa using hl'⟩)

/-- A DELETE that matches no row does nothing and locks nothing. -/
def noop : Write → Db → Bool
  | .deleteUserDevice u d, db => !db.userDevices.contains (u, d)
  | _, _ => false

end Write

end Rawbin
