import Rawbin.Verify.LocalAssertions
import Rawbin.Workers.AlertCheck

/-!
# Where push notifications go

A token is the phone that registered it last, and the alerts of a device are for its members. The
token of a phone stays in the row of every account that registered it, and the fan-out reads the
tokens some time before it hands them over. So whether a push reaches a member depends on who
registered what in the past, which only the history of a run can tell.
-/

namespace Rawbin

abbrev PushThread := Thread TaskCmd TaskSession Exn TaskJob TaskOutcome

abbrev PushConfig := Config TaskCmd World TaskSession Exn TaskJob TaskOutcome

/-! ## Registrations -/

/-- A phone, by its token, and the user who registered it. -/
structure Registration where
  token : String
  userId : Uuid
  deriving DecidableEq

def lastRegistrant (os : List Registration) (token : String) : Option Uuid :=
  (os.filter fun o => o.token = token).getLast?.map Registration.userId

/-- The user whose credentials a command checks. -/
def Cmd.authenticates : {β : Type} → Cmd β → Option Uuid
  | _, .select (.userById u) => some u
  | _, _ => none

/-- The user that a request authenticated. -/
def authenticated (log : Log) : Option Uuid := log.findSome? fun e => e.cmd.authenticates

/-- What a job has seen of the commands of the other code. -/
def baseEvent : Event TaskCmd → Option (Event Cmd)
  | ⟨β, .base c, b⟩ => some ⟨β, c, b⟩
  | _ => none

def baseLog (log : TaskLog) : Log := log.filterMap baseEvent

def TaskJob.registers : TaskJob → Option String
  | .job (.http (.user _ (.updatePushToken body) _)) => some body.token
  | _ => none

def isCommitting (t : PushThread) : Bool :=
  match t.prog with
  | .cmd (.base c) _ => c.isCommit
  | _ => false

/-- The registration that the thread is about to commit, if it is. A token that the account had
already is registered again without an UPDATE. -/
def registering (t : PushThread) : List Registration :=
  if isCommitting t then
    match t.req.registers, authenticated (baseLog t.log) with
    | some token, some u => [⟨token, u⟩]
    | _, _ => []
  else []

/-- The registrations of a run, in the order of their commits. -/
def registered (c : PushConfig) : Label Choice TaskJob World → List Registration
  | .step i _ => c.threads[i]?.elim [] registering
  | _ => []

/-! ## Pushes -/

def TaskJob.checks : TaskJob → Option Uuid
  | .alertCheck a _ => some a.deviceId
  | _ => none

/-- The tokens that the fan-out has read and not handed over. An error leaves the loop. -/
def pendingStep : List String → Event TaskCmd → List String
  | _, ⟨_, .memberTokens _, .ok members⟩ => members.map Prod.snd
  | tokens, ⟨_, .sendPush _, .ok _⟩ => tokens.tail
  | _, ⟨_, .sendPush _, .error _⟩ => []
  | _, ⟨_, .commit, .error _⟩ => []
  | tokens, _ => tokens

def pendingTokens (log : TaskLog) : List String := log.foldl pendingStep []

/-- The push that the thread is about to hand over. -/
def sending (t : PushThread) : Option PushNotification :=
  match t.prog with
  | .cmd (.sendPush p) _ => some p
  | _ => none

/-- The user who registered the token last is a member of the device. -/
def reachesMember (os : List Registration) (db : Db) (token : String) (d : Uuid) : Bool :=
  (lastRegistrant os token).any fun u => db.userDevices.contains (u, d)

/-! ## What the writers find -/

/-- The user `u` is a member of every device of the other accounts that hold the token, and of
every device with a check that has still to send to it. -/
def registersApart (c : PushConfig) (token : String) (u : Uuid) : Bool :=
  ((c.state.db.users.select fun _ row => row.firebasePushToken = some token).all fun holder =>
    (c.state.db.userDevices.select fun k _ => k.1 = holder.1).all fun link =>
      c.state.db.userDevices.contains (u, link.1.2)) &&
  c.threads.all fun t => t.req.checks.all fun d =>
    token ∉ pendingTokens t.log || c.state.db.userDevices.contains (u, d)

/-- The token of the new member was registered last by the new member or by a member. -/
def joinsApart (os : List Registration) (db : Db) (v d : Uuid) : Bool :=
  (db.users.get? v).all fun row => row.firebasePushToken.all fun token =>
    (lastRegistrant os token).any fun u => u = v || db.userDevices.contains (u, d)

/-- No other member holds a token that the leaving user registered last, and no check of the
device has still to send to one. -/
def leavesApart (os : List Registration) (c : PushConfig) (v d : Uuid) : Bool :=
  ((c.state.db.membersOf d).all fun link => link.1.1 = v ||
    (c.state.db.users.get? link.1.1).all fun row => row.firebasePushToken.all fun token =>
      lastRegistrant os token ≠ some v) &&
  c.threads.all fun t => t.req.checks ≠ some d ||
    (pendingTokens t.log).all fun token => lastRegistrant os token ≠ some v

def writesApart (os : List Registration) (c : PushConfig) : Write → Bool
  | .insertUserDevice v d _ => joinsApart os c.state.db v d
  | .deleteUserDevice v d => leavesApart os c v d
  | _ => true

/-- What a registration, a new membership and the end of one find when they commit. -/
def commitsApart (os : List Registration) (c : PushConfig) : Label Choice TaskJob World → Bool
  | .step i _ => c.threads[i]?.all fun t =>
    (registering t).all (fun o => registersApart c o.token o.userId) &&
      (!isCommitting t || t.sess.base.written.all (writesApart os c))
  | _ => true

/-- The requests that register tokens or log in and out, share a device or remove a member, and
the alert tasks. -/
def startsPushJob : Label Choice TaskJob World → Bool
  | .spawn (.job (.http (.user _ (.updatePushToken _) _))) => true
  | .spawn (.job (.http (.user _ (.shareDevice _ _) _))) => true
  | .spawn (.job (.http (.user _ (.removeMember _ _) _))) => true
  | .spawn (.job (.http (.auth (.login _) _))) => true
  | .spawn (.job (.http (.auth (.logout _) _))) => true
  | .spawn (.job _) => false
  | _ => true

/-! ## What the jobs commit -/

/-- Neither a user nor a membership. -/
def Write.isToken : Write → Bool
  | .insertRefreshToken .. | .updateRefreshToken .. => true
  | _ => false

/-- The statements of a request at its commit. -/
def PushWrites (j : Job) (log : Log) (ws : List Write) : Prop :=
  match j with
  | .http (.user _ (.updatePushToken body) _) => ∃ u, authenticated log = some u ∧
    (ws = [] ∨ ws = [.updateUser u { firebasePushToken := some body.token }])
  | .http (.user _ (.shareDevice d _) _) => ws = [] ∨ ∃ v link, ws = [.insertUserDevice v d link]
  | .http (.user _ (.removeMember d v) _) => ws = [] ∨ ws = [.deleteUserDevice v d]
  | _ => ∀ w ∈ ws, w.isToken = true

theorem authenticated_extends {log log' : Log} (h : log.Extends log')
    (hu : authenticated log = some u) : authenticated log' = some u := by
  obtain ⟨es, rfl, -⟩ := h
  rw [authenticated, List.findSome?_append, ← authenticated, hu]
  rfl

section
variable {E : Env} {user : CurrentUser} {draws : Draws} {log : Log} {j : Job}

theorem updatePushToken_keeps {body : PushTokenIn} {credentials : String}
    (hu : authenticated log = some user.id)
    (hj : j = .http (.user credentials (.updatePushToken body) draws)) :
    Keeps (AtCommit (PushWrites j)) (Leaves (PushWrites j)) log []
      (updatePushToken body user []) := by
  subst hj
  refine when_keeps (fun hne => ?_) fun _ => ?_
  · have hpatch : user.user.firebasePushToken ≠ some body.token := by
      intro h
      rw [if_pos h] at hne
      exact hne rfl
    rw [if_neg hpatch]
    refine .execute (.plain rfl rfl) (fun _ => .raise Leaves.error) (fun _ h => nomatch h) ?_
    refine .pure (Leaves.of_executed fun log' hl => ⟨user.id, ?_, .inr rfl⟩)
    exact authenticated_extends (((Log.Extends.refl log).snoc rfl).trans hl) hu
  · exact .pure (Leaves.of_executed fun log' hl => ⟨user.id, authenticated_extends hl hu, .inl rfl⟩)

theorem shareDevice_keeps {d : Uuid} {body : DeviceShareRequest} {credentials : String}
    (hj : j = .http (.user credentials (.shareDevice d body) draws)) :
    Keeps (AtCommit (PushWrites j)) (Leaves (PushWrites j)) log []
      (shareDevice d body user []) := by
  subst hj
  refine assertDeviceMember_keeps AtCommit.routine.reads (fun _ => Leaves.error)
    fun device link => ?_
  refine .select (.plain rfl rfl) fun db => ?_
  cases (Query.userByEmail body.email).eval db with
  | none => exact .raise Leaves.error
  | some target =>
    refine addMember_keeps (fun _ _ _ hp hc => .plain hp hc) (fun _ _ => Leaves.error)
      (fun log' b => ?_) fun log' row => ?_
    · refine .select (.plain rfl rfl) fun _ => .pure ?_
      exact Leaves.of_executed fun _ _ => .inl rfl
    · refine .select ⟨rfl, nofun⟩ fun _ => .pure ?_
      exact Leaves.of_executed fun _ _ => .inr ⟨_, _, rfl⟩

theorem removeMember_keeps {d v : Uuid} {credentials : String}
    (hj : j = .http (.user credentials (.removeMember d v) draws)) :
    Keeps (AtCommit (PushWrites j)) (Leaves (PushWrites j)) log []
      (removeMember d v user []) := by
  subst hj
  refine assertDeviceMember_keeps AtCommit.routine.reads (fun _ => Leaves.error)
    fun device link => ?_
  refine .select (.plain rfl rfl) fun count => raiseIf_keeps Leaves.error fun _ => ?_
  refine .select (.plain rfl rfl) fun db => ?_
  cases (Query.userDevice d v).eval db with
  | none => exact .pure (Leaves.of_executed fun _ _ => .inl rfl)
  | some link =>
    refine .pure fun _ _ hr log' sub _ hs => ?_
    cases hr
    exact List.sublist_singleton.mp hs

theorem login_keeps {body : UserLoginRequest} (hj : j = .http (.auth (.login body) draws)) :
    Keeps (AtCommit (PushWrites j)) (Leaves (PushWrites j)) log [] (login E body draws []) := by
  subst hj
  refine .select (.plain rfl rfl) fun db => ?_
  cases (Query.userByEmail body.email).eval db with
  | none => exact .raise Leaves.error
  | some found =>
    refine ofExcept_keeps (fun _ _ => Leaves.error) fun verified _ => ?_
    refine raiseIf_keeps Leaves.error fun _ => raiseIf_keeps Leaves.error fun _ => ?_
    -- the clock reads of the two tokens and of the new row
    refine .utcnow (.plain rfl rfl) fun _ => .utcnow (.plain rfl rfl) fun _ => ?_
    refine .utcnow (.plain rfl rfl) fun _ => .utcnow (.plain rfl rfl) fun _ => ?_
    refine .utcnow (.plain rfl rfl) fun _ => ?_
    refine .execute (.plain rfl rfl) (fun _ => .raise Leaves.error) (fun _ h => nomatch h) ?_
    refine .pure (Leaves.of_executed fun _ _ w hw => ?_)
    exact List.mem_singleton.mp hw ▸ rfl

theorem logout_writes {body : RefreshRequest} (hj : j = .http (.auth (.logout body) draws)) :
    Keeps (AtCommit (PushWrites j)) (Leaves (PushWrites j)) log [] (logout E body []) := by
  subst hj
  refine .select (.plain rfl rfl) fun db => ?_
  cases (Query.refreshTokenByHash (hashToken E body.refreshToken)).eval db with
  | none => exact .pure (Leaves.of_executed fun _ _ w hw => absurd hw List.not_mem_nil)
  | some found =>
    refine when_keeps (fun _ => .pure fun _ _ hr log' sub _ hs w hw => ?_) fun _ => .pure ?_
    · cases hr
      exact List.mem_singleton.mp (hs.subset hw) ▸ rfl
    · exact Leaves.of_executed fun _ _ w hw => absurd hw List.not_mem_nil

theorem pushJob_keeps (hj : startsPushJob (.spawn (.job j)) = true) :
    Keeps (AtCommit (PushWrites j)) (fun _ _ _ => True) [] [] (j.prog E) := by
  cases j with
  | http r =>
    cases r with
    | user credentials route draws =>
      refine Request.keeps_of_route fun _ payload user _ _ _ => ?_
      cases route with
      | updatePushToken body => exact updatePushToken_keeps rfl rfl
      | shareDevice d body => exact shareDevice_keeps rfl
      | removeMember d v => exact removeMember_keeps rfl
      | _ => cases hj
    | auth route draws =>
      refine Request.keeps_of_handle AtCommit.routine (fun _ _ h => ⟨rfl, fun _ => h⟩) ?_
      cases route with
      | login body => exact login_keeps rfl
      | logout body => exact logout_writes rfl
      | _ => cases hj
  | _ => cases hj

/-- The loader executes no statement. -/
theorem loadThresholds_reads (d : Uuid) :
    Keeps (fun _ ws _ => ws = []) (fun _ ws _ => ws = []) [] [] (loadThresholds d) := by
  have hmiss (log : Log) : Keeps (fun _ ws _ => ws = []) (fun _ ws _ => ws = []) log []
      ((thresholdsFromDb d).bind fun thresholds =>
        (Prog.perform (.attempt (.redis (.setex (.alertConfig d) configCacheTtl thresholds)))).bind
          fun _ => (.pure thresholds : Prog Cmd Exn Thresholds)) := by
    have hfill (log : Log) (θ : Thresholds) : Keeps (fun _ ws _ => ws = []) (fun _ ws _ => ws = [])
        log [] ((Prog.perform (.attempt (.redis (.setex (.alertConfig d) configCacheTtl θ)))).bind
          fun _ => (.pure θ : Prog Cmd Exn Thresholds)) := .quiet rfl rfl fun _ => .pure rfl
    refine .quiet rfl rfl fun answer => ?_
    cases answer with
    | error e => exact .quiet rfl rfl fun _ => hfill _ _
    | ok row =>
      refine .quiet rfl rfl fun committed => ?_
      cases committed with
      | error e => exact .quiet rfl rfl fun _ => hfill _ _
      | ok u => exact hfill _ _
  refine .quiet rfl rfl fun cached => ?_
  cases cached with
  | error e => exact hmiss _
  | ok θ =>
    cases θ with
    | none => exact hmiss _
    | some θ => exact .pure rfl

end

/-! ## What the jobs and the tasks do -/

/-- A job commits what its route does; the task writes no user and no membership, and hands over
what it has read. -/
def TaskJob.expects : TaskJob → {β : Type} → TaskLog → TaskSession → TaskCmd β → Prop
  | .job j, _, log, t, .base c => AtCommit (PushWrites j) (baseLog log) t.base.written c
  | .job _, _, _, _, _ => False
  | .alertCheck _ _, _, _, t, .base _ => t.base.written = []
  | .alertCheck a _, _, _, _, .memberTokens d => d = a.deviceId
  | .alertCheck a _, _, log, _, .sendPush p =>
    p.data.deviceId = a.deviceId ∧ p.fcmToken ∈ pendingTokens log
  | .alertCheck _ _, _, _, _, _ => True

section
variable {E : Env} {a : AlertCheck} {ids : ℕ → Uuid} {log : TaskLog} {t : TaskSession}

theorem pendingTokens_snoc (log : TaskLog) (e : Event TaskCmd) :
    pendingTokens (log ++ [e]) = pendingStep (pendingTokens log) e := by
  rw [pendingTokens, List.foldl_append]
  rfl

theorem baseLog_map (log : Log) : baseLog (log.map taskEmbedding.event) = log := by
  induction log with
  | nil => rfl
  | cons e log ih => exact congrArg (e :: ·) ih

theorem job_expects {j : Job} (hj : startsPushJob (.spawn (.job j)) = true) :
    taskMachine.Always (TaskJob.job j).expects (fun _ _ _ => True) [] .idle
      (TaskJob.prog E (.job j)) := by
  have hlift := taskEmbedding.always (J := (TaskJob.job j).expects) (R := fun _ _ _ => True)
    (t := .idle) (fun log t c h => by
      show AtCommit (PushWrites j) (baseLog _) t.base.written c
      rw [baseLog_map]
      exact h) (fun _ _ _ _ => trivial) ((pushJob_keeps (E := E) hj).always .idle rfl)
  exact hlift.bind (fun _ _ _ _ => trivial) fun _ _ _ _ => trivial

theorem sendPushes_hands {ps : List PushNotification}
    (hd : ∀ p ∈ ps, p.data.deviceId = a.deviceId)
    (h : pendingTokens log = ps.map PushNotification.fcmToken) :
    taskMachine.Always (TaskJob.alertCheck a ids).expects (fun _ _ _ => True) log t
      (sendPushes ps) := by
  induction ps generalizing log t with
  | nil => exact trivial
  | cons p ps ih =>
    refine ⟨⟨hd p List.mem_cons_self, h ▸ List.mem_cons_self⟩, fun x w => ?_⟩
    generalize taskMachine.exec x (.sendPush p) t w = res
    obtain ⟨answer, t', w'⟩ := res
    cases answer with
    | error e => exact trivial
    | ok u =>
      refine ih (fun p' hp' => hd p' (List.mem_cons_of_mem _ hp')) ?_
      rw [pendingTokens_snoc, h]
      rfl

theorem rollback_hands :
    taskMachine.Always (TaskJob.alertCheck a ids).expects (fun _ _ _ => True) log t
      (.cmd .rollback fun _ => (.pure () : Prog TaskCmd Exn Unit)) := ⟨trivial, fun _ _ => trivial⟩

theorem dispatchPushes_hands (alerts : List Alert) :
    taskMachine.Always (TaskJob.alertCheck a ids).expects (fun _ _ _ => True) log t
      (dispatchPushes a.deviceId alerts) := by
  refine ⟨rfl, fun x w => ?_⟩
  generalize taskMachine.exec x (.memberTokens a.deviceId) t w = res
  obtain ⟨answer, t', w'⟩ := res
  cases answer with
  | error e => exact rollback_hands
  | ok members =>
    refine ⟨trivial, fun x w => ?_⟩
    generalize taskMachine.exec x .commit t' w = res
    obtain ⟨answer, t', w'⟩ := res
    cases answer with
    | error e => exact rollback_hands
    | ok u =>
      refine sendPushes_hands (fun p hp => ?_) ?_
      · obtain ⟨member, -, rfl⟩ := List.mem_map.mp hp
        rfl
      · rw [pendingTokens_snoc, pendingTokens_snoc, List.map_map]
        rfl

theorem persistAlerts_hands (alerts : List Alert) (ts : Time) :
    taskMachine.Always (TaskJob.alertCheck a ids).expects (fun _ _ _ => True) log t
      (persistAlerts a.deviceId alerts ts ids) := by
  rw [persistAlerts]
  split
  · exact trivial
  · refine ⟨trivial, fun x w => ?_⟩
    generalize taskMachine.exec x (.insertAlertEvents _ _ _) t w = res
    obtain ⟨answer, t', w'⟩ := res
    cases answer with
    | error e => exact rollback_hands
    | ok u =>
      refine ⟨trivial, fun x w => ?_⟩
      generalize taskMachine.exec x .commit t' w = res
      obtain ⟨answer, t', w'⟩ := res
      cases answer with
      | error e => exact rollback_hands
      | ok u => exact trivial

theorem alertTime_hands (r : IsoText) (ht : t.base.written = []) :
    taskMachine.Always (TaskJob.alertCheck a ids).expects (fun _ _ _ => True) log t
      (alertTime r) := by
  cases r with
  | absent => exact ⟨ht, fun _ _ => trivial⟩
  | datetime ts => exact trivial
  | malformed => exact trivial

theorem alertCheck_expects :
    taskMachine.Always (TaskJob.alertCheck a ids).expects (fun _ _ _ => True) [] .idle
      (TaskJob.prog E (.alertCheck a ids)) := by
  have hload := taskEmbedding.always (J := (TaskJob.alertCheck a ids).expects)
    (R := fun _ t _ => t.base.written = []) (t := .idle) (fun _ _ _ h => h) (fun _ _ _ h => h)
    ((loadThresholds_reads a.deviceId).always .idle rfl)
  refine Machine.Always.bind (Q := fun _ _ _ => True) ?_ (fun _ _ _ _ => trivial)
    fun _ _ _ _ => trivial
  refine Machine.Always.tryCatch (Q := fun _ _ _ => True) ?_ (fun _ _ _ _ => trivial)
    fun _ _ _ _ => trivial
  refine hload.bind (fun log t θ ht => ?_) fun _ _ _ _ => trivial
  dsimp only
  split
  · exact trivial
  · refine (alertTime_hands _ ht).bind (fun log t ts _ => ?_) fun _ _ _ _ => trivial
    refine (persistAlerts_hands _ ts).bind (fun log t _ _ => ?_) fun _ _ _ _ => trivial
    exact (dispatchPushes_hands _).bind (fun _ _ _ _ => trivial) fun _ _ _ _ => trivial

end

/-! ## What a run keeps -/

/-- The account has the token of a phone. -/
def Db.Holds (db : Db) (v : Uuid) (token : String) : Prop :=
  ∃ row, db.users.get? v = some row ∧ row.firebasePushToken = some token

/-- The join of the fan-out is right, and what it found before still is. -/
structure PushSafe (os : List Registration) (c : PushConfig) : Prop where
  held : ∀ v d token, c.state.db.Holds v token → c.state.db.userDevices.contains (v, d) = true →
    reachesMember os c.state.db token d = true
  pending : ∀ t ∈ c.threads, ∀ d, t.req.checks = some d → ∀ token ∈ pendingTokens t.log,
    reachesMember os c.state.db token d = true

section
variable {E : Env} {os : List Registration} {c : PushConfig} {db db' : Db} {u v d : Uuid}
variable {token : String}

theorem lastRegistrant_snoc (os : List Registration) (o : Registration) (token : String) :
    lastRegistrant (os ++ [o]) token =
      if o.token = token then some o.userId else lastRegistrant os token := by
  simp only [lastRegistrant, System.getLast?_filter_snoc, decide_eq_true_eq]
  split <;> rfl

theorem reachesMember_iff : reachesMember os db token d = true ↔
    ∃ u, lastRegistrant os token = some u ∧ db.userDevices.contains (u, d) = true :=
  Option.any_eq_true ..

theorem reachesMember_congr (h : db'.userDevices = db.userDevices) :
    reachesMember os db' token d = reachesMember os db token d := by
  rw [reachesMember, h, reachesMember]

theorem memberTokens_holds (h : (v, token) ∈ db.memberTokens d) :
    db.Holds v token ∧ db.userDevices.contains (v, d) = true := by
  obtain ⟨r, hr, he⟩ := List.mem_filterMap.mp h
  obtain ⟨hget, hp⟩ := Table.mem_select.mp hr
  obtain ⟨token', htoken, he⟩ := Option.map_eq_some_iff.mp he
  cases he
  rw [Bool.and_eq_true] at hp
  exact ⟨⟨r.2, hget, htoken⟩, hp.1⟩

/-- Only a commit of the other code changes users or memberships. -/
theorem exec_accounts (x : Choice) (cm : TaskCmd β) (t : TaskSession) (w : World) :
    ((cm.exec x t w).2.2.db.users = w.db.users ∧
      (cm.exec x t w).2.2.db.userDevices = w.db.userDevices) ∨
    ∃ c : Cmd β, cm = .base c ∧ c.isCommit = true ∧
      (cm.exec x t w).2.2.db = t.base.view w.db := by
  cases cm with
  | base c =>
    rcases c.exec_db x t.base w with h | ⟨hc, h⟩
    · exact .inl ⟨congrArg Db.users h, congrArg Db.userDevices h⟩
    · exact .inr ⟨c, rfl, hc, congrArg (fun r => r.2.db) h⟩
  | insertAlertEvents d ts alerts =>
    refine .inl ?_
    simp only [TaskCmd.exec]
    split <;> cases x <;> exact ⟨rfl, rfl⟩
  | memberTokens | rollback | sendPush | commit => cases x <;> exact .inl ⟨rfl, rfl⟩

/-- The tokens that a check has still to send to were there before, or it reads them now. -/
theorem mem_pendingTokens_step {cm : TaskCmd β} {x : Choice} {log : TaskLog} {t : TaskSession}
    {w : World} {a : AlertCheck} {ids : ℕ → Uuid} (he : (TaskJob.alertCheck a ids).expects log t cm)
    (h : token ∈ pendingTokens (log ++ [⟨β, cm, (cm.exec x t w).1⟩])) :
    token ∈ pendingTokens log ∨ ∃ v, (v, token) ∈ w.db.memberTokens a.deviceId := by
  rw [pendingTokens_snoc] at h
  cases cm with
  | base c => exact .inl h
  | insertAlertEvents d ts alerts => exact .inl h
  | rollback => exact .inl h
  | memberTokens d =>
    obtain rfl : d = a.deviceId := he
    cases x with
    | ok =>
      obtain ⟨member, hmem, rfl⟩ := List.mem_map.mp h
      exact .inr ⟨member.1, hmem⟩
    | fault | lost => exact .inl h
  | commit =>
    cases x with
    | ok => exact .inl h
    | fault | lost => exact absurd h List.not_mem_nil
  | sendPush p =>
    cases x with
    | ok => exact .inl (List.mem_of_mem_tail h)
    | fault | lost => exact absurd h List.not_mem_nil

/-- Every thread does what its job or its task does. -/
def Expected (c : PushConfig) : Prop :=
  ∀ t ∈ c.threads, taskMachine.Always t.req.expects (fun _ _ _ => True) t.log t.sess t.prog

theorem Expected.step {l : Label Choice TaskJob World} {c' : PushConfig} (h : Expected c)
    (hok : startsPushJob l = true) (hs : (backendWithTasks E).Step c l c') : Expected c' := by
  refine hs.always (I := TaskJob.expects) (Q := fun _ _ _ _ => True) h fun r hr => ?_
  subst hr
  cases r with
  | job j => exact job_expects hok
  | alertCheck a ids => exact alertCheck_expects (E := E)

namespace PushSafe

variable {w w' : World} {ts : List PushThread} {t t' : PushThread} {i : ℕ}

theorem start {w : World}
    (h : ∀ u row, w.db.users.get? u = some row → row.firebasePushToken = none) :
    PushSafe [] ⟨w, []⟩ where
  held v d token hv _ := by
    obtain ⟨row, hget, hrow⟩ := hv
    cases (h v row hget).symm.trans hrow
  pending _ ht := absurd ht List.not_mem_nil

/-- A step that changes no account, of a thread that has nothing new to send. -/
theorem of_accounts (h : PushSafe os ⟨w, ts⟩) (husers : w'.db.users = w.db.users)
    (hdevices : w'.db.userDevices = w.db.userDevices)
    (hpending : ∀ d, t'.req.checks = some d → ∀ token ∈ pendingTokens t'.log,
      reachesMember os w.db token d = true) : PushSafe os ⟨w', ts.set i t'⟩ where
  held v d token hv hd := by
    rw [reachesMember_congr hdevices]
    rw [hdevices] at hd
    obtain ⟨row, hget, htoken⟩ := hv
    exact h.held v d token ⟨row, husers ▸ hget, htoken⟩ hd
  pending u hu d hd token htoken := by
    rw [reachesMember_congr hdevices]
    rcases List.mem_or_eq_of_mem_set hu with hu | rfl
    · exact h.pending u hu d hd token htoken
    · exact hpending d hd token htoken

/-- The commit of a job, which has nothing to send. -/
theorem of_commit {os' : List Registration} (ht : t'.req.checks = none)
    (held : ∀ v d token, w'.db.Holds v token → w'.db.userDevices.contains (v, d) = true →
      reachesMember os' w'.db token d = true)
    (pending : ∀ u ∈ ts, ∀ d, u.req.checks = some d → ∀ token ∈ pendingTokens u.log,
      reachesMember os' w'.db token d = true) : PushSafe os' ⟨w', ts.set i t'⟩ where
  held := held
  pending u hu d hd token htoken := by
    rcases List.mem_or_eq_of_mem_set hu with hu | rfl
    · exact pending u hu d hd token htoken
    · cases ht.symm.trans hd

theorem register (h : PushSafe os ⟨w, ts⟩) (ht : t'.req.checks = none)
    (hapart : registersApart ⟨w, ts⟩ token u = true)
    (hholds : ∀ v token', w'.db.Holds v token' → w.db.Holds v token' ∨ v = u ∧ token' = token)
    (hdevices : w'.db.userDevices = w.db.userDevices) :
    PushSafe (os ++ [⟨token, u⟩]) ⟨w', ts.set i t'⟩ := by
  simp only [registersApart, Bool.and_eq_true, List.all_eq_true] at hapart
  obtain ⟨hholders, hchecks⟩ := hapart
  have hnew (d : Uuid) (hd : w.db.userDevices.contains (u, d) = true) :
      reachesMember (os ++ [⟨token, u⟩]) w'.db token d = true := by
    rw [reachesMember_iff, lastRegistrant_snoc, if_pos rfl, hdevices]
    exact ⟨u, rfl, hd⟩
  have hold {token' : String} {d : Uuid} (htoken : token' ≠ token)
      (hr : reachesMember os w.db token' d = true) :
      reachesMember (os ++ [⟨token, u⟩]) w'.db token' d = true := by
    rw [reachesMember_iff] at hr ⊢
    rwa [lastRegistrant_snoc, if_neg (Ne.symm htoken), hdevices]
  refine of_commit ht (fun v d token' hv hd => ?_) fun t₁ ht₁ d hd token' htoken' => ?_
  · rw [hdevices] at hd
    by_cases htoken : token' = token
    · subst token'
      rcases hholds v token hv with ⟨row, hget, hrow⟩ | ⟨rfl, -⟩
      · obtain ⟨link, hlink⟩ := Table.contains_iff.mp hd
        refine hnew d (hholders (v, row) ?_ ((v, d), link) ?_)
        · exact Table.mem_select.mpr ⟨hget, decide_eq_true hrow⟩
        · exact Table.mem_select.mpr ⟨hlink, decide_eq_true rfl⟩
      · exact hnew d hd
    · rcases hholds v token' hv with hv | ⟨-, hv⟩
      · exact hold htoken (h.held v d token' hv hd)
      · exact absurd hv htoken
  · by_cases htoken : token' = token
    · subst token'
      have hcheck := hchecks t₁ ht₁
      rw [hd] at hcheck
      simp only [Option.all_some, Bool.or_eq_true, decide_eq_true_eq] at hcheck
      exact hnew d (hcheck.resolve_left fun hn => hn htoken')
    · exact hold htoken (h.pending t₁ ht₁ d hd token' htoken')

theorem join (h : PushSafe os ⟨w, ts⟩) (ht : t'.req.checks = none)
    (hapart : joinsApart os w.db v d = true) (husers : w'.db.users = w.db.users)
    (hdevices : ∀ u' d', w'.db.userDevices.contains (u', d') = true ↔
      w.db.userDevices.contains (u', d') = true ∨ (u', d') = (v, d)) :
    PushSafe os ⟨w', ts.set i t'⟩ := by
  have hmono {token : String} {d' : Uuid} (hr : reachesMember os w.db token d' = true) :
      reachesMember os w'.db token d' = true := by
    obtain ⟨u, hu, hd⟩ := reachesMember_iff.mp hr
    exact reachesMember_iff.mpr ⟨u, hu, (hdevices u d').mpr (.inl hd)⟩
  refine of_commit ht (fun v' d' token hv hd => ?_) fun t₁ ht₁ d' hd token htoken =>
    hmono (h.pending t₁ ht₁ d' hd token htoken)
  obtain ⟨row, hget, htoken⟩ := hv
  rw [husers] at hget
  rcases (hdevices v' d').mp hd with hd | hd
  · exact hmono (h.held v' d' token ⟨row, hget, htoken⟩ hd)
  · cases hd
    simp only [joinsApart, hget, Option.all_some, htoken] at hapart
    obtain ⟨u, hu, hd⟩ := (Option.any_eq_true ..).mp hapart
    refine reachesMember_iff.mpr ⟨u, hu, (hdevices u d).mpr ?_⟩
    rcases (Bool.or_eq_true ..).mp hd with hd | hd
    · exact .inr (by rw [of_decide_eq_true hd])
    · exact .inl hd

theorem leave (h : PushSafe os ⟨w, ts⟩) (ht : t'.req.checks = none)
    (hapart : leavesApart os ⟨w, ts⟩ v d = true) (husers : w'.db.users = w.db.users)
    (hdevices : ∀ u' d', w'.db.userDevices.contains (u', d') = true ↔
      w.db.userDevices.contains (u', d') = true ∧ (u', d') ≠ (v, d)) :
    PushSafe os ⟨w', ts.set i t'⟩ := by
  simp only [leavesApart, Bool.and_eq_true, List.all_eq_true] at hapart
  obtain ⟨hothers, hchecks⟩ := hapart
  have hkeep {token : String} {d' : Uuid} (hr : reachesMember os w.db token d' = true)
      (hne : d' = d → lastRegistrant os token ≠ some v) :
      reachesMember os w'.db token d' = true := by
    obtain ⟨u, hu, hd⟩ := reachesMember_iff.mp hr
    refine reachesMember_iff.mpr ⟨u, hu, (hdevices u d').mpr ⟨hd, fun he => ?_⟩⟩
    cases he
    exact hne rfl hu
  refine of_commit ht (fun v' d' token hv hd => ?_) fun t₁ ht₁ d' hd token htoken => ?_
  · obtain ⟨row, hget, htoken⟩ := hv
    rw [husers] at hget
    obtain ⟨hd, hne⟩ := (hdevices v' d').mp hd
    refine hkeep (h.held v' d' token ⟨row, hget, htoken⟩ hd) fun he => ?_
    subst d'
    obtain ⟨link, hlink⟩ := Table.contains_iff.mp hd
    have hother := hothers ((v', d), link) (Table.mem_select.mpr ⟨hlink, decide_eq_true rfl⟩)
    simpa [hget, htoken, show v' ≠ v from fun he => hne (by rw [he])] using hother
  · refine hkeep (h.pending t₁ ht₁ d' hd token htoken) fun he => ?_
    subst d'
    have hcheck := hchecks t₁ ht₁
    simp only [hd, ne_eq, not_true_eq_false, decide_false, Bool.false_or,
      List.all_eq_true] at hcheck
    exact of_decide_eq_true (hcheck token htoken)

/-- A transaction that writes tokens of sessions. -/
theorem view_accounts {t : Session} (h : ∀ w ∈ t.written, w.isToken = true) (db : Db) :
    (t.view db).users = db.users ∧ (t.view db).userDevices = db.userDevices := by
  rw [Session.view]
  generalize t.written = ws at h
  induction ws generalizing db with
  | nil => exact ⟨rfl, rfl⟩
  | cons wr ws ih =>
    have happly : (wr.apply db).users = db.users ∧ (wr.apply db).userDevices = db.userDevices := by
      have hwr := h wr List.mem_cons_self
      cases wr with
      | insertRefreshToken | updateRefreshToken => exact ⟨rfl, rfl⟩
      | _ => cases hwr
    have hws := ih (wr.apply db) fun w hw => h w (List.mem_cons_of_mem _ hw)
    exact ⟨hws.1.trans happly.1, hws.2.trans happly.2⟩

/-- What an UPDATE of the token leaves. -/
theorem holds_update {db' : Db} (hdb : db' = db ∨ db' =
      (Write.updateUser u { firebasePushToken := some token }).apply db) {token' : String}
    (h : db'.Holds v token') : db.Holds v token' ∨ v = u ∧ token' = token := by
  rcases hdb with rfl | rfl
  · exact .inl h
  · obtain ⟨row, hget, hrow⟩ := h
    simp only [Write.apply, Table.get?_update] at hget
    split at hget
    · rename_i hv
      obtain ⟨old, -, rfl⟩ := Option.map_eq_some_iff.mp hget
      cases hrow
      exact .inr ⟨hv, rfl⟩
    · exact .inl ⟨row, hget, hrow⟩

/-- The commit of a job. -/
theorem commit {j : Job} (h : PushSafe os ⟨w, ts⟩) (hi : ts[i]? = some t) (ht : t.req = .job j)
    (ht' : t'.req = t.req) (hcommitting : isCommitting t = true)
    (hws : PushWrites j (baseLog t.log) t.sess.base.written)
    (hok : commitsApart os ⟨w, ts⟩ (.step i x) = true)
    (hdb : w'.db = t.sess.base.view w.db) :
    PushSafe (os ++ registering t) ⟨w', ts.set i t'⟩ := by
  have hchecks : t'.req.checks = none := by rw [ht', ht]; rfl
  simp only [commitsApart, hi, Option.all_some, hcommitting, Bool.not_true, Bool.false_or,
    Bool.and_eq_true, List.all_eq_true] at hok
  obtain ⟨hregister, hwrites⟩ := hok
  have hplain (hr : t.req.registers = none)
      (htoken : ∀ wr ∈ t.sess.base.written, wr.isToken = true) :
      PushSafe (os ++ registering t) ⟨w', ts.set i t'⟩ := by
    obtain ⟨husers, hdevices⟩ := view_accounts htoken w.db
    rw [registering, if_pos hcommitting, hr, List.append_nil]
    exact h.of_accounts (hdb ▸ husers) (hdb ▸ hdevices) fun d hd => nomatch hchecks.symm.trans hd
  have hsilent (hr : t.req.registers = none) : os ++ registering t = os := by
    rw [registering, if_pos hcommitting, hr, List.append_nil]
  unfold PushWrites at hws
  split at hws
  · rename_i body _
    obtain ⟨u, hu, hws⟩ := hws
    have hregistering : registering t = [⟨body.token, u⟩] := by
      rw [registering, if_pos hcommitting, ht, TaskJob.registers, hu]
    rw [hregistering] at hregister ⊢
    have hview : w'.db = w.db ∨ w'.db =
        (Write.updateUser u { firebasePushToken := some body.token }).apply w.db := by
      rw [hdb, Session.view]
      rcases hws with hws | hws <;> rw [hws]
      · exact .inl rfl
      · exact .inr rfl
    refine h.register hchecks (hregister _ (List.mem_singleton_self _))
      (fun v token' => holds_update hview) ?_
    rcases hview with hview | hview <;> rw [hview]
    rfl
  · rename_i d _ _
    rcases hws with hws | ⟨v, link, hws⟩
    · exact hplain (by rw [ht]; rfl) (by rw [hws]; exact fun _ hw => absurd hw List.not_mem_nil)
    · rw [hsilent (by rw [ht]; rfl)]
      rw [Session.view, hws] at hdb
      refine h.join hchecks (hwrites (.insertUserDevice v d link) (hws ▸ List.mem_singleton_self _))
        (hdb ▸ rfl) fun u' d' => ?_
      rw [hdb]
      exact Table.contains_insert ..
  · rename_i d v _
    rcases hws with hws | hws
    · exact hplain (by rw [ht]; rfl) (by rw [hws]; exact fun _ hw => absurd hw List.not_mem_nil)
    · rw [hsilent (by rw [ht]; rfl)]
      rw [Session.view, hws] at hdb
      refine h.leave hchecks (hwrites (.deleteUserDevice v d) (hws ▸ List.mem_singleton_self _))
        (hdb ▸ rfl) fun u' d' => ?_
      rw [hdb]
      exact Table.contains_delete ..
  · rename_i hnot _ _
    refine hplain ?_ hws
    rw [ht, TaskJob.registers]
    intro credentials body draws hj
    cases hj
    exact hnot _ _ _ rfl

theorem step {l : Label Choice TaskJob World} {c' : PushConfig} (h : PushSafe os c)
    (he : Expected c) (hok : commitsApart os c l = true) (hs : (backendWithTasks E).Step c l c') :
    PushSafe (os ++ registered c l) c' := by
  cases hs with
  | @spawn w ts r =>
    show PushSafe (os ++ []) _
    rw [List.append_nil]
    refine ⟨h.held, fun t ht d hd token htoken => ?_⟩
    rcases List.mem_append.mp ht with ht | ht
    · exact h.pending t ht d hd token htoken
    · cases List.mem_singleton.mp ht
      exact absurd htoken List.not_mem_nil
  | @env w ts e =>
    show PushSafe (os ++ []) _
    rw [List.append_nil]
    exact ⟨h.held, h.pending⟩
  | @step ts i w β cm f t x hi hp hb =>
    have ht := List.mem_of_getElem? hi
    have hcm := he t ht
    rw [hp] at hcm
    have hcm : t.req.expects t.log t.sess cm := hcm.1
    have hregistered : registered ⟨w, ts⟩ (.step i x) = registering t := by
      simp only [registered, hi, Option.elim_some]
    rw [hregistered]
    cases hreq : t.req with
    | alertCheck a ids =>
      rw [hreq] at hcm
      have hsilent : registering t = [] := by
        rw [registering, hreq]
        split <;> rfl
      have haccounts : (cm.exec x t.sess w).2.2.db.users = w.db.users ∧
          (cm.exec x t.sess w).2.2.db.userDevices = w.db.userDevices := by
        rcases exec_accounts x cm t.sess w with h | ⟨c, rfl, -, hdb⟩
        · exact h
        · have hwritten : t.sess.base.written = [] := hcm
          rw [hdb, Session.view, hwritten]
          exact ⟨rfl, rfl⟩
      rw [hsilent, List.append_nil]
      refine h.of_accounts haccounts.1 haccounts.2 fun d hd token htoken => ?_
      have hchecks : t.req.checks = some d := hd
      rcases mem_pendingTokens_step hcm htoken with htoken | ⟨v, hv⟩
      · exact h.pending t ht d hchecks token htoken
      · rw [hreq] at hchecks
        cases hchecks
        obtain ⟨hholds, hmember⟩ := memberTokens_holds hv
        exact h.held v _ token hholds hmember
    | job j =>
      rw [hreq] at hcm
      cases cm with
      | base c =>
        have hchecks : t.req.checks = none := by rw [hreq]; rfl
        obtain ⟨hplain, hws⟩ := hcm
        cases hc : c.isCommit with
        | true =>
          have hcommitting : isCommitting t = true := by rw [isCommitting, hp]; exact hc
          have hexec := Cmd.exec_of_commit hplain hc x t.sess.base w
          exact h.commit hi hreq rfl hcommitting (hws hc) hok (congrArg (fun r => r.2.db) hexec)
        | false =>
          have hcommitting : isCommitting t = false := by rw [isCommitting, hp]; exact hc
          have hsilent : registering t = [] := by
            rw [registering, hcommitting]
            rfl
          have hdb := Cmd.exec_db_of_not_commit hc x t.sess.base w
          rw [hsilent, List.append_nil]
          refine h.of_accounts (congrArg Db.users hdb) (congrArg Db.userDevices hdb) fun d hd => ?_
          cases hchecks.symm.trans hd
      | _ => exact hcm.elim

end PushSafe

/-- **Pushes reach members.** In a run in which registrations, new memberships and ends of
memberships find what they should when they commit, the token of each push that is handed over was
registered last by a user who is a member of the device at that moment. -/
theorem push_reaches_member {w₀ : World} {t : PushThread} {p : PushNotification}
    (h₀ : ∀ u row, w₀.db.users.get? u = some row → row.firebasePushToken = none)
    (H : (backendWithTasks E).Traced
      (fun os c l => startsPushJob l = true ∧ commitsApart os c l = true) registered ⟨w₀, []⟩ os c)
    (ht : t ∈ c.threads) (hp : sending t = some p) :
    reachesMember os c.state.db p.fcmToken p.data.deviceId = true := by
  have hinv := H.invariant (P := fun os c => PushSafe os c ∧ Expected c)
    ⟨.start h₀, fun _ ht => absurd ht List.not_mem_nil⟩
    fun os c l c' ⟨hc, he⟩ ⟨hstart, hok⟩ hs => ⟨hc.step he hok hs, he.step hstart hs⟩
  obtain ⟨hc, he⟩ := hinv
  have hcm := he t ht
  unfold sending at hp
  split at hp
  · rename_i hprog
    cases hp
    rw [hprog] at hcm
    have hcm : t.req.expects t.log t.sess (.sendPush p) := hcm.1
    cases hreq : t.req with
    | job j =>
      rw [hreq] at hcm
      exact hcm.elim
    | alertCheck a ids =>
      rw [hreq] at hcm
      obtain ⟨hd, htoken⟩ := hcm
      exact hd ▸ hc.pending t ht a.deviceId (by rw [hreq]; rfl) p.fcmToken htoken
  · cases hp

end

/-! ## One phone, two accounts -/

namespace Sample

def pushSteps (i n : ℕ) : List (Label Choice TaskJob World) := List.replicate n (.step i .ok)

/-- The request is served from its first command to its last, the `n`-th. -/
def served (i : ℕ) (user : Uuid) (route : Route) (n : ℕ) : List (Label Choice TaskJob World) :=
  .spawn (.job (request user route 0)) :: pushSteps i n

/-- A check of a pile at 90 degrees, up to the first push. -/
def checked (i : ℕ) : List (Label Choice TaskJob World) :=
  .spawn (.alertCheck ⟨7, some (.real 90), none, none, none, .datetime ⟨5, true⟩⟩ id) ::
    pushSteps i 8

end Sample

/-- Alice and Bob, each with a phone, share device 7; the push for Alice has left. -/
def twoPhones : List (Label Choice TaskJob World) :=
  Sample.served 0 1 (.updatePushToken ⟨"phone-token"⟩) 5 ++
    Sample.served 1 1 (.shareDevice 7 ⟨"bob@rawbin.io"⟩) 11 ++
    Sample.served 2 2 (.updatePushToken ⟨"tablet-token"⟩) 5 ++ Sample.checked 3 ++
      Sample.pushSteps 3 1

/-- Bob, who is no member of device 7, logs in on the phone of Alice. -/
def onePhone : List (Label Choice TaskJob World) :=
  Sample.served 0 1 (.updatePushToken ⟨"phone-token"⟩) 5 ++
    Sample.served 1 2 (.updatePushToken ⟨"phone-token"⟩) 5 ++ Sample.checked 2

theorem deviceWorld_tokenless (u : Uuid) (row : User)
    (h : Sample.deviceWorld.db.users.get? u = some row) : row.firebasePushToken = none := by
  have hmem := Table.get?_eq_some_iff.mp h
  have hall : ∀ e ∈ Sample.deviceWorld.db.users.rows, e.2.firebasePushToken = none := by decide
  exact hall _ hmem

theorem twoPhones_reach_members : ∃ os c t p,
    (backendWithTasks Sample.env).traceIf (fun os c l => startsPushJob l && commitsApart os c l)
      registered [] ⟨Sample.deviceWorld, []⟩ twoPhones = some (os, c) ∧
    t ∈ c.threads ∧ sending t = some p ∧ p.fcmToken = "tablet-token" ∧
    reachesMember os c.state.db p.fcmToken p.data.deviceId = true := by
  have h : ((backendWithTasks Sample.env).traceIf
      (fun os c l => startsPushJob l && commitsApart os c l) registered []
      ⟨Sample.deviceWorld, []⟩ twoPhones).any (fun r => r.2.threads.any fun t =>
        (sending t).any fun p => p.fcmToken = "tablet-token") = true := by decide +kernel
  obtain ⟨⟨os, c⟩, hc, h⟩ := (Option.any_eq_true _ _).mp h
  obtain ⟨t, ht, h⟩ := List.any_eq_true.mp h
  obtain ⟨p, hp, htoken⟩ := (Option.any_eq_true _ _).mp h
  have H := System.Traced.of_traceIf .refl hc
  simp only [Bool.and_eq_true] at H
  exact ⟨os, c, t, p, hc, ht, hp, of_decide_eq_true htoken,
    push_reaches_member deviceWorld_tokenless H ht hp⟩

/-- The alerts of device 7 go to the phone that Bob registered last. -/
theorem onePhone_reaches_stranger : ¬ ∀ w₀ os c t p,
    (∀ u row, (World.db w₀).users.get? u = some row → row.firebasePushToken = none) →
    (backendWithTasks Sample.env).Traced (fun _ _ l => startsPushJob l = true) registered
      ⟨w₀, []⟩ os c → t ∈ c.threads → sending t = some p →
    reachesMember os c.state.db p.fcmToken p.data.deviceId = true := by
  intro hevery
  have h : ((backendWithTasks Sample.env).traceIf (fun _ _ l => startsPushJob l) registered []
      ⟨Sample.deviceWorld, []⟩ onePhone).any (fun r => r.2.threads.any fun t =>
        (sending t).any fun p =>
          !reachesMember r.1 r.2.state.db p.fcmToken p.data.deviceId) = true := by decide +kernel
  obtain ⟨⟨os, c⟩, hc, h⟩ := (Option.any_eq_true _ _).mp h
  obtain ⟨t, ht, h⟩ := List.any_eq_true.mp h
  obtain ⟨p, hp, hreach⟩ := (Option.any_eq_true _ _).mp h
  rw [hevery _ os c t p deviceWorld_tokenless (System.Traced.of_traceIf .refl hc) ht hp] at hreach
  cases hreach

end Rawbin
