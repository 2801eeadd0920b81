import Rawbin.Workers.AlertCheck

/-!
# Push notifications

`send_push_notification` of `app/workers/tasks/notifications.py`, and the tasks of the workers
together: a push that an alert check hands over is a call of this task, and a call that asks for a
retry is repeated with a higher count.
-/

namespace Rawbin

/-! ## The task -/

/-- `safe_data`: the data of the push, and the user. -/
structure FcmData where
  data : PushData
  userId : Uuid
  deriving DecidableEq

structure FcmMessage where
  title : String
  body : String
  data : FcmData
  token : String
  deriving DecidableEq

def PushNotification.message (p : PushNotification) : FcmMessage where
  title := p.title
  body := p.body
  data := ⟨p.data, p.userId⟩
  token := p.fcmToken

inductive NotifyCmd : Type → Type where
  /-- `_get_firebase_app()`: whether there is an app. -/
  | getFirebaseApp : NotifyCmd Bool
  /-- `messaging.send(message, app=firebase_app)`: the id of the message, or the name of the class
  of the exception. -/
  | send (message : FcmMessage) : NotifyCmd (Except String String)

/-- What becomes of a call. One that raises is not repeated. -/
inductive PushResult where
  | sent (messageId : String)
  | stub
  | failed
  | retry
  | raised (exception : String)
  deriving DecidableEq

def maxRetries : ℕ := 3

def permanentErrors : List String :=
  ["UnregisteredError", "InvalidArgumentError", "SenderIdMismatchError"]

/-- `sub in s` -/
def pyIn (sub s : String) : Bool := s.toList.tails.any sub.toList.isPrefixOf

/-- `raise self.retry(exc=exc)`: the exception itself, once there were enough retries. -/
def selfRetry (exception : String) (retries : ℕ) : PushResult :=
  if retries < maxRetries then .retry else .raised exception

def sendPushNotification (p : PushNotification) (retries : ℕ) : Prog NotifyCmd Exn PushResult :=
  .cmd .getFirebaseApp fun
    | false => .pure .stub
    | true => .cmd (.send p.message) fun
      | .ok messageId => .pure (.sent messageId)
      | .error exception =>
        if permanentErrors.any (pyIn · exception) then .pure .failed
        else .pure (selfRetry exception retries)

/-! ## The workers -/

inductive PipelineCmd : Type → Type 1 where
  | task {β : Type} (c : TaskCmd β) : PipelineCmd β
  | notify {β : Type} (c : NotifyCmd β) : PipelineCmd β

/-- The answers of the environment. -/
structure PipelineChoice where
  task : Choice
  firebaseApp : Bool
  fcm : Except String String

namespace PipelineCmd

def exec : {β : Type} → PipelineChoice → PipelineCmd β → TaskSession → World →
    β × TaskSession × World
  | _, x, .task c, t, w => c.exec x.task t w
  | _, x, .notify .getFirebaseApp, t, w => (x.firebaseApp, t, w)
  | _, x, .notify (.send _), t, w => (x.fcm, t, w)

def blocked : {β : Type} → PipelineCmd β → List TaskSession → Bool
  | _, .task c, ts => c.blocked ts
  | _, .notify _, _ => false

end PipelineCmd

/-- A job of the other code, an alert check, or a call of the push task: for a push that the check
with this number has handed over, with the count of the retries. -/
inductive PipelineJob where
  | task (j : TaskJob)
  | push (check : ℕ) (p : PushNotification) (retries : ℕ)

inductive PipelineOutcome where
  | task (o : TaskOutcome)
  | push (r : PushResult)

def PipelineJob.prog (E : Env) : PipelineJob → Prog PipelineCmd Exn PipelineOutcome
  | .task j => ((j.prog E).lift .task).bind fun o => .pure (.task o)
  | .push _ p retries => ((sendPushNotification p retries).lift .notify).bind fun r =>
      .pure (.push r)

/-- The tasks, beside the API. Whatever else runs writes no alert rows. -/
def alertPipeline (E : Env) : System PipelineCmd World TaskSession PipelineChoice Exn PipelineJob
    PipelineOutcome World where
  exec := PipelineCmd.exec
  blocked := PipelineCmd.blocked
  start := .idle
  prog := PipelineJob.prog E
  env w' w := { w' with db := { w'.db with alertEvents := w.db.alertEvents } }

end Rawbin
