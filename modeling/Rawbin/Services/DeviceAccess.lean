import Rawbin.Db.Session

/-!
# Membership of devices

`app/services/device_access.py`. A user may act on a device iff a `user_devices` row links them.
-/

namespace Rawbin
namespace DeviceAccess

def isMember (deviceId userId : Uuid) : Handler Bool := do
  let link ← .select (.member deviceId userId)
  pure link.isSome

/-- Load the device and confirm the membership; the 404 is the same for a missing device and for
a user who is not a member. -/
def assertDeviceMember (deviceId userId : Uuid) : Handler Device := do
  match ← .select (.deviceById deviceId) with
  | none => httpException 404 "Device not found."
  | some device =>
    if ← isMember deviceId userId then pure device
    else httpException 404 "Device not found."

/-- Link the user to the device unless the link exists. -/
def addMember (deviceId userId : Uuid) : Handler Bool := do
  if ← isMember deviceId userId then pure false
  else
    let createdAt ← .txnow
    .add (.insertUserDevice userId deviceId ⟨createdAt⟩)
    .flush
    pure true

/-- Unlink the user from the device; nothing happens without a link. -/
def removeMember (deviceId userId : Uuid) : Handler Unit := do
  match ← .select (.userDevice deviceId userId) with
  | none => pure ()
  | some _ => .add (.deleteUserDevice userId deviceId)

def memberCount (deviceId : Uuid) : Handler Nat := .select (.memberCount deviceId)

end DeviceAccess
end Rawbin
