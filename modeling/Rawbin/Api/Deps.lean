import Rawbin.Api.Schemas
import Rawbin.Core.Security
import Rawbin.Db.Session

/-!
# Dependencies of the routes

`app/api/deps.py` and `get_db` of `app/db/session.py`, with what the framework does around a
route: an exception becomes the response, and the code of `get_db` after its `yield` runs when
the response has left.
-/

namespace Rawbin

/-- What a request to Twilio comes to. -/
inductive TwilioAnswer where
  | incompleteSettings
  | status (code : Nat)
  | unreachable
  deriving DecidableEq

/-- The settings and the code outside the repository that the routes call. -/
structure Env where
  cfg : Settings
  crypto : Crypto
  /-- `generate_presigned_url` of boto3, by object key and lifetime; `none` is a client error. -/
  presignedUrl : String → Nat → Option String
  twilio : (recipient body : String) → TwilioAnswer
  interpreter : Interpreter

/-- The random values that a request draws. -/
structure Draws where
  /-- The primary key of the row that the request creates. -/
  id : Uuid
  /-- The primary key of a `refresh_tokens` row. -/
  tokenId : Uuid
  accessJti : Uuid
  refreshJti : Uuid
  /-- `secrets.token_hex(32)` -/
  tokenHex : String
  fernetIv : Nat
  bcryptSalt : Nat
  /-- `secrets.randbelow(upper)` -/
  randbelow : Nat
  /-- `random.uniform(a, b)` is `a + (b - a) * unit n`. -/
  unit : Nat → ℚ

structure CurrentUser where
  id : Uuid
  user : User

def credentialsException : Exn :=
  .http 401 "Could not validate credentials." [("WWW-Authenticate", "Bearer")]

/-- Validate the bearer JWT; any failure is the same 401. -/
def getCurrentUser (E : Env) (credentials : String) : Handler CurrentUser := do
  let now ← .utcnow
  match decodeToken E.crypto now credentials with
  | none => throw credentialsException
  | some payload =>
    if payload.type ≠ .access then throw credentialsException
    else
      match ← .select (.userById payload.sub) with
      | none => throw credentialsException
      | some user =>
        if user.isActive then pure ⟨payload.sub, user⟩ else throw credentialsException

/-- What the client sees of an exception. -/
def Exn.response : Exn → Response
  | .http status detail headers => ⟨status, .detail detail, headers⟩
  | _ => ⟨500, .internalServerError, []⟩

/-- `await session.commit()`, which flushes first. An exception rolls back and reaches only the log
of the server. -/
def closeSession (flush commit : Prog Cmd Exn Unit) : Prog Cmd Exn Unit :=
  (flush.bind fun _ => commit).tryCatch fun _ => .cmd .rollback .pure

/-- Run a route with the session of `get_db`, which ends after the response has left. -/
def getDbWith (close : List Write → Prog Cmd Exn Unit) (route : Handler Response) :
    Prog Cmd Exn Response :=
  (route []).outcome.bind fun
    | .ok (response, pending) =>
      .cmd (.respond response) fun _ => (close pending).bind fun _ => .pure response
    | .error e => .cmd .rollback fun _ => .cmd (.respond e.response) fun _ => .pure e.response

def finish (pending : List Write) : Prog Cmd Exn Unit :=
  closeSession (Handler.flushAll pending) (.cmd .commit .pure)

def getDb (route : Handler Response) : Prog Cmd Exn Response := getDbWith finish route

/-- A COMMIT that may fail. -/
def commitOrFail : Prog Cmd Exn Unit := .cmd (.attempt .commit) fun
  | .ok _ => .pure ()
  | .error e => .raise e

end Rawbin
