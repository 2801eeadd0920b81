import Mathlib.Data.Prod.Lex
import Rawbin.Db.Query
import Rawbin.Library.Columns
import Rawbin.Library.Groups

/-!
# The migrations

`alembic/versions/*.py`. Revision 958308305136 has one owner for each device and no phone numbers;
revision a1b2c3d4e5f6, which `upgrade` reaches and `downgrade` leaves, is the schema of `Db`. The
revisions below 958308305136 are here for the way down only. A migration is one transaction, so it
happens as a whole or not at all. What it tells TimescaleDB about chunks, compression, retention
and the hourly aggregate changes no row of a table and is left out.
-/

namespace Rawbin

/-! ## Revision 958308305136 -/

/-- A user without a phone. -/
structure OldUser where
  email : String
  passwordHash : String
  displayName : String
  firebasePushToken : Option String
  isActive : Bool
  createdAt : Time
  deriving DecidableEq

structure OwnedDevice extends Device where
  ownerId : Uuid
  deriving DecidableEq

@[ext] structure OldDb where
  users : Table Uuid OldUser
  refreshTokens : Table Uuid RefreshToken
  devices : Table Uuid OwnedDevice
  sensorReadings : Table (Time × Uuid) SensorReading
  alertEvents : Table Uuid AlertEvent
  deviceConfigs : Table Uuid DeviceConfig
  /-- `devices_owner_id_fkey` -/
  owner_fkey : ∀ e ∈ devices.rows, users.contains e.2.ownerId = true

/-! ## Upgrade -/

/-- `ADD COLUMN phone`, nullable. -/
def OldUser.addPhone (u : OldUser) : User where
  email := u.email
  phone := none
  passwordHash := u.passwordHash
  displayName := u.displayName
  firebasePushToken := u.firebasePushToken
  isActive := u.isActive
  createdAt := u.createdAt

/-- The rows of `SELECT owner_id, id, now(), now() FROM devices`. -/
def OldDb.ownerLinks (db : OldDb) (now : Time) : List ((Uuid × Uuid) × UserDevice) :=
  db.devices.rows.map fun e => ((e.2.ownerId, e.1), ⟨now⟩)

/-- The existing owners become members, and the owner column is dropped. -/
def upgrade (now : Time) (db : OldDb) : Db where
  users := db.users.map fun _ u => u.addPhone
  refreshTokens := db.refreshTokens
  devices := db.devices.map fun _ d => d.toDevice
  userDevices := Table.empty.insertAll (db.ownerLinks now)
  sensorReadings := db.sensorReadings
  alertEvents := db.alertEvents
  deviceConfigs := db.deviceConfigs
  compostCycles := .empty
  wasteLogs := .empty

/-! ## Downgrade -/

inductive MigrationError where
  | notNullViolation
  | foreignKeyViolation
  deriving DecidableEq

/-- `DROP COLUMN phone` -/
def User.dropPhone (u : User) : OldUser where
  email := u.email
  passwordHash := u.passwordHash
  displayName := u.displayName
  firebasePushToken := u.firebasePushToken
  isActive := u.isActive
  createdAt := u.createdAt

/-- `SELECT DISTINCT ON (device_id) device_id, user_id FROM user_devices ORDER BY device_id,
created_at ASC`. Rows of equal keys come in the order in which the table was scanned. -/
def firstMembers (scan : List ((Uuid × Uuid) × UserDevice)) : List (Uuid × Uuid) :=
  (Groups.distinctOn (fun r => r.1.2)
    (orderBy (fun r => toLex (r.1.2, r.2.createdAt)) false scan)).map fun r => (r.1.2, r.1.1)

/-- `UPDATE devices d SET owner_id = ud.user_id FROM (...) ud WHERE ud.device_id = d.id` -/
def ownerFrom (ud : List (Uuid × Uuid)) (d : Uuid) : Option Uuid :=
  (ud.find? fun r => r.1 = d).map Prod.snd

/-- `owner_id` is added as a nullable column, filled, and made mandatory. -/
def restoreOwners (ud : List (Uuid × Uuid)) (devices : Table Uuid Device) :
    Option (Table Uuid OwnedDevice) :=
  (devices.map fun d device => (device, ownerFrom ud d)).mapM fun r => r.2.map (OwnedDevice.mk r.1)

/-- An arbitrary member of each device becomes its owner. -/
def downgrade (scan : List ((Uuid × Uuid) × UserDevice)) (db : Db) : Except MigrationError OldDb :=
  let users := db.users.map fun _ u => u.dropPhone
  match restoreOwners (firstMembers scan) db.devices with
  | none => .error .notNullViolation
  | some devices =>
    if h : ∀ e ∈ devices.rows, users.contains e.2.ownerId = true then
      .ok {
        users := users
        refreshTokens := db.refreshTokens
        devices := devices
        sensorReadings := db.sensorReadings
        alertEvents := db.alertEvents
        deviceConfigs := db.deviceConfigs
        owner_fkey := h }
    else .error .foreignKeyViolation

/-! ## Further down -/

/-- Revisions ebb4657960fd and c609f5b32976, which differ in the policies of TimescaleDB only. -/
structure HypertableDb where
  users : Table Uuid OldUser
  refreshTokens : Table Uuid RefreshToken
  devices : Table Uuid OwnedDevice
  sensorReadings : Table (Time × Uuid) SensorReading
  /-- `devices_owner_id_fkey` -/
  owner_fkey : ∀ e ∈ devices.rows, users.contains e.2.ownerId = true

/-- The downgrade of 958308305136 drops two tables. -/
def OldDb.dropAlertsAndConfigs (db : OldDb) : HypertableDb where
  users := db.users
  refreshTokens := db.refreshTokens
  devices := db.devices
  sensorReadings := db.sensorReadings
  owner_fkey := db.owner_fkey

/-- A device of revision 58c6300519c4. -/
structure HashedDevice where
  hardwareUid : String
  deviceSecretHash : String
  ownerId : Uuid
  displayName : String
  isPaired : Bool
  firmwareVersion : Option String
  createdAt : Time
  deriving DecidableEq

/-- `DROP COLUMN device_secret_enc`, once there is a hash. -/
def OwnedDevice.dropSecretEnc (d : OwnedDevice) (hash : String) : HashedDevice where
  hardwareUid := d.hardwareUid
  deviceSecretHash := hash
  ownerId := d.ownerId
  displayName := d.displayName
  isPaired := d.isPaired
  firmwareVersion := d.firmwareVersion
  createdAt := d.createdAt

/-- Revision 58c6300519c4. -/
structure InitialDb where
  users : Table Uuid OldUser
  refreshTokens : Table Uuid RefreshToken
  devices : Table Uuid HashedDevice
  /-- `devices_owner_id_fkey` -/
  owner_fkey : ∀ e ∈ devices.rows, users.contains e.2.ownerId = true

/-- The rest of the downgrade of c609f5b32976, once the devices have hashes. -/
def HypertableDb.dropReadings (db : HypertableDb) (devices : Table Uuid (OwnedDevice × String))
    (h : db.devices.addColumn none = some devices) : InitialDb where
  users := db.users
  refreshTokens := db.refreshTokens
  devices := devices.map fun _ r => r.1.dropSecretEnc r.2
  owner_fkey := by
    rintro e he
    obtain ⟨⟨d, device, hash⟩, hd, rfl⟩ := List.mem_map.mp he
    exact db.owner_fkey (d, device) (Table.addColumn_eq_some h hd).1

/-- The downgrade of c609f5b32976: `ADD COLUMN device_secret_hash VARCHAR(255) NOT NULL` has no
default. -/
def HypertableDb.downgrade (db : HypertableDb) : Except MigrationError InitialDb :=
  match h : db.devices.addColumn none with
  | none => .error .notNullViolation
  | some devices => .ok (db.dropReadings devices h)

/-- All the way down to the initial schema. -/
def downgradeToInitial (scan : List ((Uuid × Uuid) × UserDevice)) (db : Db) :
    Except MigrationError InitialDb := do
  let old ← downgrade scan db
  -- ebb4657960fd, between these two, has nothing but policies to remove.
  old.dropAlertsAndConfigs.downgrade

end Rawbin
