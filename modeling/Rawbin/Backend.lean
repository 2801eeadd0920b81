import Rawbin.Api.Router
import Rawbin.Library.Pool

/-!
# The running system

The API processes and the worker share the database, Redis and the clock. Any number of jobs
is in flight: requests, calls of the threshold loader, calls of `verify_code`. A step is one
command of one job; between steps time may pass.

`serve` is the other way to run a request, alone from its first command to its last.
-/

namespace Rawbin

inductive Job where
  | http (r : Request)
  | loadThresholds (deviceId : Uuid)
  | verifyCode (phone code : String)

inductive Outcome where
  | response (r : Response)
  | thresholds (t : Thresholds)
  | verified (b : Bool)

variable (E : Env)

def Job.prog : Job → Prog Cmd Exn Outcome
  | .http r => (r.prog E).bind fun response => .pure (.response response)
  | .loadThresholds deviceId => (Rawbin.loadThresholds deviceId).bind fun t => .pure (.thresholds t)
  | .verifyCode phone code => (Rawbin.verifyCode E phone code []).bind fun r =>
      .pure (.verified r.1)

def World.tick (w : World) (dt : Nat) : World := { w with now := w.now + dt }

def backend : System Cmd World Session Choice Exn Job Outcome Nat where
  toMachine := machine
  start := .idle
  prog := Job.prog E
  env dt w := w.tick dt

/-- A request served without overlap: the response and the world it leaves. -/
def serve (r : Request) (w : World) : Response × World :=
  match machine.runConst .ok (r.prog E) .idle w with
  | (.ok response, _, w') => (response, w')
  | (.error e, _, w') => (e.response, w')

/-! ## A concrete environment

Stand-ins for the libraries with which runs can be evaluated: hashes keep their input, a Fernet
token is the plaintext behind a letter, a JWT spells out its subject and its id. -/

namespace Sample

/-- A token is its type, its subject and its id, the numbers in unary. -/
def jwtEncode (p : Payload) : String :=
  String.ofList ((match p.type with | .access => 'a' | .refresh => 'r') ::
    (List.replicate p.sub '|' ++ '.' :: List.replicate p.jti '|'))

def jwtDecode (now : Time) (token : String) : Option Payload :=
  match token.toList with
  | c :: cs =>
    let sub := (cs.takeWhile (· = '|')).length
    let jti := ((cs.dropWhile (· = '|')).drop 1).length
    if c = 'a' then some ⟨sub, .access, now + 1, now, jti⟩
    else if c = 'r' then some ⟨sub, .refresh, now + 1, now, jti⟩
    else none
  | [] => none

def crypto : Crypto where
  sha256 s := "#" ++ s
  hmacSha256 key msg := key ++ "." ++ msg
  fernetEncrypt _ plaintext := "f" ++ plaintext
  fernetDecrypt token := some (String.ofList (token.toList.drop 1))
  bcryptHash _ password := .ok ("$" ++ password)
  bcryptVerify password hash := .ok ("$" ++ password = hash)
  jwtEncode := jwtEncode
  jwtDecode := jwtDecode
  lowerUnicode _ c _ := [c]

def env : Env where
  cfg := {}
  crypto := crypto
  presignedUrl key _ := some key
  twilio _ _ := .status 201
  interpreter := ⟨fun _ => none, fun _ => false, 4300, 1000⟩

/-- Draws in which every identifier is the same number. -/
def draws (n : Nat) : Draws := ⟨n, n, n, n, "nonce", 0, 0, 0, fun _ => 0⟩

/-- A request by one of the sample users. -/
def request (user : Uuid) (route : Route) (n : Nat) : Job :=
  .http (.user (jwtEncode ⟨user, .access, 0, 0, 0⟩) route (draws n))

def user (email : String) : User := ⟨email, none, "$password", email, none, true, 0⟩

/-- Two users and nothing else. -/
def world : World where
  db :=
    { Db.empty with
      users := (Table.empty.insert 1 (user "alice@rawbin.io")).insert 2 (user "bob@rawbin.io") }
  redis := .empty
  now := 0

/-- Alice is the member of device 7. -/
def deviceWorld : World :=
  { world with
    db := { world.db with
      devices := Table.empty.insert 7 ⟨"uid", "f", "bin", false, none, 0⟩
      userDevices := Table.empty.insert (1, 7) ⟨0⟩ } }

/-- The next `n` commands of a job. -/
def steps (i n : Nat) : List (Label Choice Job Nat) := List.replicate n (.step i .ok)

end Sample

end Rawbin
