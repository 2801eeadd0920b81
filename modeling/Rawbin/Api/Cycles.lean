import Rawbin.Services.DeviceAccess
import Rawbin.Api.Deps

/-!
# Compost cycles and waste logs

`app/api/v1/cycles.py` and `app/api/v1/waste.py`.
-/

namespace Rawbin

/-! ## Cycles -/

/-- Load a cycle and confirm that the user is a member of its device. -/
def loadCycleWithAccess (cycleId userId : Uuid) : Handler CompostCycle := do
  match ← .select (.cycleById cycleId) with
  | none => httpException 404 "Cycle not found."
  | some cycle =>
    let _ ← DeviceAccess.assertDeviceMember cycle.deviceId userId
    pure cycle

/-- `body.started_at or datetime.now(timezone.utc)` -/
def orNow : Option Time → Handler Time
  | some t => pure t
  | none => .utcnow

def createCycle (deviceId : Uuid) (body : CompostCycleCreate) (user : CurrentUser)
    (draws : Draws) : Handler Response := do
  let _ ← DeviceAccess.assertDeviceMember deviceId user.id
  let active ← .select (.activeCycles deviceId)
  let existingActive ← .scalarOneOrNone active
  .raiseIf existingActive.isSome 409
    "This device already has an active cycle. Complete it before starting a new one."
  let startedAt ← orNow body.startedAt
  let createdAt ← .txnow
  let cycle : CompostCycle := {
    deviceId := deviceId
    status := .active
    startedAt := startedAt
    endedAt := none
    label := body.label
    notes := body.notes
    createdAt := createdAt
    updatedAt := createdAt }
  .add (.insertCompostCycle draws.id cycle)
  .flush
  pure ⟨201, .cycle draws.id cycle, []⟩

def listCycles (deviceId : Uuid) (statusFilter : Option CycleStatus) (user : CurrentUser) :
    Handler Response := do
  let _ ← DeviceAccess.assertDeviceMember deviceId user.id
  let cycles ← .select (.cycles deviceId statusFilter)
  pure ⟨200, .cycles cycles, []⟩

def getCycle (cycleId : Uuid) (user : CurrentUser) : Handler Response := do
  let cycle ← loadCycleWithAccess cycleId user.id
  pure ⟨200, .cycle cycleId cycle, []⟩

/-- The attributes that a PATCH assigns, before the end time is stamped. -/
def annotated (body : CompostCycleUpdate) (cycle : CompostCycle) : CompostCyclePatch where
  status := body.status.bind (changed cycle.status)
  endedAt := body.endedAt.bind fun t => if cycle.endedAt = some t then none else some t
  label := body.label.bind fun l => if cycle.label = some l then none else some l
  notes := body.notes.bind fun n => if cycle.notes = some n then none else some n

/-- The batch is being finished and has no end time, neither stored nor in the request. -/
def needsEndTime (body : CompostCycleUpdate) (cycle : CompostCycle) : Bool :=
  body.status = some .completed && cycle.status ≠ .completed && body.endedAt.isNone &&
    cycle.endedAt.isNone

/-- The patch of an update; the end time is stamped where it is needed. -/
def stampedPatch (body : CompostCycleUpdate) (cycle : CompostCycle) :
    Handler CompostCyclePatch :=
  if needsEndTime body cycle then do
    let now ← .utcnow
    pure { annotated body cycle with endedAt := some now }
  else pure (annotated body cycle)

/-- An UPDATE expires `updated_at`, which the database computes (`onupdate`) and the flush does not
fetch. `CompostCycleOut` reads it when the handler has returned, where an `AsyncSession` cannot load
it, and FastAPI raises before `get_db` commits. -/
def updateCycle (cycleId : Uuid) (body : CompostCycleUpdate) (user : CurrentUser) :
    Handler Response := do
  let cycle ← loadCycleWithAccess cycleId user.id
  let patch ← stampedPatch body cycle
  if patch = {} then
    pure ⟨200, .cycle cycleId cycle, []⟩
  else
    let updatedAt ← .txnow
    .add (.updateCompostCycle cycleId cycle.deviceId patch updatedAt)
    .flush
    throw .responseValidationError

/-! ## Waste logs -/

/-- The cycle of a new entry: the given one, which must belong to the device, or the active one
if the device has one. -/
def attributedCycle (deviceId : Uuid) : Option Uuid → Handler (Option Uuid)
  | some cycleId => do
    match ← .select (.cycleOfDevice cycleId deviceId) with
    | none => httpException 400 "compost_cycle_id does not belong to this device."
    | some _ => pure (some cycleId)
  | none => do
    let active ← .select (.activeCycles deviceId)
    let active ← .scalarOneOrNone active
    pure (active.map Prod.fst)

def createWasteLog (deviceId : Uuid) (body : WasteLogCreate) (user : CurrentUser)
    (draws : Draws) : Handler Response := do
  let _ ← DeviceAccess.assertDeviceMember deviceId user.id
  let cycleId ← attributedCycle deviceId body.compostCycleId
  let loggedAt ← orNow body.loggedAt
  let createdAt ← .txnow
  let entry : WasteLog := {
    deviceId := deviceId
    compostCycleId := cycleId
    userId := some user.id
    loggedAt := loggedAt
    wasteType := body.wasteType
    weightKg := body.weightKg
    notes := body.notes
    createdAt := createdAt }
  .add (.insertWasteLog draws.id entry)
  .flush
  pure ⟨201, .wasteLog draws.id entry, []⟩

def listWasteLogs (deviceId : Uuid) (limit offset : Nat) (cycleId : Option Uuid)
    (user : CurrentUser) : Handler Response := do
  let _ ← DeviceAccess.assertDeviceMember deviceId user.id
  let total ← .select (.wasteLogCount deviceId cycleId)
  let rows ← .select (.wasteLogs deviceId cycleId limit offset)
  pure ⟨200, .wasteLogs ⟨deviceId, total, limit, offset, rows⟩, []⟩

end Rawbin
