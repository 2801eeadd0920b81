import Rawbin.Api.Auth
import Rawbin.Api.Cycles
import Rawbin.Api.Devices
import Rawbin.Api.Readings

/-!
# Requests

All routes that `app/main.py` mounts, apart from the health check and the documentation.
-/

namespace Rawbin

/-- The routes that depend on `CurrentUser`. -/
inductive Route where
  | createDemoDevice
  | pairingChallenge (body : PairingChallengeRequest)
  | pairingConfirm (body : PairingConfirmRequest)
  | provisionDeviceSecret (deviceId : Uuid) (secret : String)
  | listDevices
  | shareDevice (deviceId : Uuid) (body : DeviceShareRequest)
  | listMembers (deviceId : Uuid)
  | removeMember (deviceId userId : Uuid)
  | getDeviceConfig (deviceId : Uuid)
  | putDeviceConfig (deviceId : Uuid) (body : DeviceConfigIn)
  | createCycle (deviceId : Uuid) (body : CompostCycleCreate)
  | listCycles (deviceId : Uuid) (statusFilter : Option CycleStatus)
  | getCycle (cycleId : Uuid)
  | updateCycle (cycleId : Uuid) (body : CompostCycleUpdate)
  | createWasteLog (deviceId : Uuid) (body : WasteLogCreate)
  | listWasteLogs (deviceId : Uuid) (limit offset : Nat) (cycleId : Option Uuid)
  | getMe
  | patchMe (body : UserPatchIn)
  | updatePushToken (body : PushTokenIn)
  | deviceSnapshot (deviceId : Uuid)
  | listAlerts (deviceId : Uuid) (limit offset : Nat) (severity : Option Severity)
    (metric : Option String)
  | getTelemetryHistory (deviceId : Uuid) (interval : Interval) (start stop : Option PyDatetime)
  | checkOtaUpdate (deviceId : Uuid)

inductive Method where
  | get | post | put | patch | delete
  deriving DecidableEq

/-- The method in the decorator of the route. -/
def Route.method : Route → Method
  | .createDemoDevice | .pairingChallenge _ | .pairingConfirm _ | .provisionDeviceSecret .. => .post
  | .shareDevice .. | .createCycle .. | .createWasteLog .. => .post
  | .removeMember .. => .delete
  | .putDeviceConfig .. | .updatePushToken _ => .put
  | .updateCycle .. | .patchMe _ => .patch
  | .listDevices | .listMembers _ | .getDeviceConfig _ | .listCycles .. | .getCycle _ => .get
  | .listWasteLogs .. | .getMe | .deviceSnapshot _ | .listAlerts .. => .get
  | .getTelemetryHistory .. | .checkOtaUpdate _ => .get

inductive AuthRoute where
  | register (body : UserRegisterRequest)
  | login (body : UserLoginRequest)
  | requestOtp (body : OTPRequestIn)
  | verifyOtp (body : OTPVerifyIn)
  | refresh (body : RefreshRequest)
  | logout (body : RefreshRequest)

/-- A request, with the random values that are drawn while it is served. -/
inductive Request where
  | user (credentials : String) (route : Route) (draws : Draws)
  | auth (route : AuthRoute) (draws : Draws)

variable (E : Env)

def Route.handle (user : CurrentUser) (draws : Draws) : Route → Handler Response
  | .createDemoDevice => Rawbin.createDemoDevice E user draws
  | .pairingChallenge body => Rawbin.pairingChallenge E body user draws
  | .pairingConfirm body => Rawbin.pairingConfirm E body user
  | .provisionDeviceSecret deviceId secret =>
    Rawbin.provisionDeviceSecret E deviceId secret user draws
  | .listDevices => Rawbin.listDevices user
  | .shareDevice deviceId body => Rawbin.shareDevice deviceId body user
  | .listMembers deviceId => Rawbin.listMembers deviceId user
  | .removeMember deviceId userId => Rawbin.removeMember deviceId userId user
  | .getDeviceConfig deviceId => Rawbin.getDeviceConfig deviceId user
  | .putDeviceConfig deviceId body => Rawbin.putDeviceConfig deviceId body user
  | .createCycle deviceId body => Rawbin.createCycle deviceId body user draws
  | .listCycles deviceId status => Rawbin.listCycles deviceId status user
  | .getCycle cycleId => Rawbin.getCycle cycleId user
  | .updateCycle cycleId body => Rawbin.updateCycle cycleId body user
  | .createWasteLog deviceId body => Rawbin.createWasteLog deviceId body user draws
  | .listWasteLogs deviceId limit offset cycleId =>
    Rawbin.listWasteLogs deviceId limit offset cycleId user
  | .getMe => Rawbin.getMe user
  | .patchMe body => Rawbin.patchMe body user
  | .updatePushToken body => Rawbin.updatePushToken body user
  | .deviceSnapshot deviceId => Rawbin.deviceSnapshot deviceId user
  | .listAlerts deviceId limit offset severity metric =>
    Rawbin.listAlerts deviceId limit offset severity metric user
  | .getTelemetryHistory deviceId interval start stop =>
    Rawbin.getTelemetryHistory deviceId interval start stop user
  | .checkOtaUpdate deviceId => Rawbin.checkOtaUpdate E deviceId user

def AuthRoute.handle (draws : Draws) : AuthRoute → Handler Response
  | .register body => Rawbin.register E body draws
  | .login body => Rawbin.login E body draws
  | .requestOtp body => Rawbin.requestOtp E body draws
  | .verifyOtp body => Rawbin.verifyOtp E body draws
  | .refresh body => Rawbin.refresh E body draws
  | .logout body => Rawbin.logout E body

def Request.handle : Request → Handler Response
  | .user credentials route draws => do
    let user ← getCurrentUser E credentials
    route.handle E user draws
  | .auth route draws => route.handle E draws

def Request.prog (r : Request) : Prog Cmd Exn Response := getDb (r.handle E)

end Rawbin
