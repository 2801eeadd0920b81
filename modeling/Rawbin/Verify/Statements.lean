import Rawbin.Verify.Acknowledged
import Rawbin.Verify.TokenPairs

/-!
# The statements of each route

What a request may execute, with what it has read and executed before, one constructor for each
statement of a route. Properties of the tables over a run are read off these, so that they need not
look at the routes again. A token pair is sent only by a request that has inserted its row.
-/

namespace Rawbin

/-! ## What a request knows -/

/-- The bearer token was valid when it was looked at, and the account was active. -/
structure Acts (E : Env) (credentials : String) (log : Log) (user : CurrentUser) : Prop where
  token : ∃ now payload, (⟨_, .utcnow, now⟩ : Event Cmd) ∈ log ∧
    decodeToken E.crypto now credentials = some payload ∧ payload.type = .access ∧
    payload.sub = user.id
  read : (⟨_, .select (.userById user.id), some user.user⟩ : Event Cmd) ∈ log
  active : user.user.isActive = true

/-- The device and the membership of the user were found. -/
structure Checked (log : Log) (d u : Uuid) : Prop where
  device : ∃ device, (⟨_, .select (.deviceById d), some device⟩ : Event Cmd) ∈ log
  member : ∃ link, (⟨_, .select (.member d u), some link⟩ : Event Cmd) ∈ log

/-- The row of a refresh token for `u`, with the clock reads that went into it. -/
def TokenRow (E : Env) (draws : Draws) (log : Log) (u : Uuid) (row : RefreshToken) : Prop :=
  ∃ now iat now', (⟨_, .utcnow, now'⟩ : Event Cmd) ∈ log ∧ row = {
    userId := u
    tokenHash := hashToken E (E.crypto.jwtEncode (refreshPayload E.cfg u now iat draws.refreshJti))
    expiresAt := now' + days E.cfg.refreshTokenExpireDays
    revoked := false }

/-- The pair for `u` whose refresh token has this row. -/
structure PairOf (E : Env) (draws : Draws) (log : Log) (u : Uuid) (row : RefreshToken)
    (pair : TokenResponse) : Prop where
  access : ∃ now iat, (⟨_, .utcnow, now⟩ : Event Cmd) ∈ log ∧
    pair.accessToken = E.crypto.jwtEncode (accessPayload E.cfg u now iat draws.accessJti)
  refresh : ∃ now iat, (⟨_, .utcnow, now⟩ : Event Cmd) ∈ log ∧
    pair.refreshToken = E.crypto.jwtEncode (refreshPayload E.cfg u now iat draws.refreshJti)
  userId : row.userId = u
  hash : row.tokenHash = hashToken E pair.refreshToken

/-! ## Statements -/

/-- The statements of the routes that depend on `CurrentUser`. The list holds the statements that
the transaction has executed before. -/
inductive RouteIssues (E : Env) (user : CurrentUser) (draws : Draws) :
    Route → Log → List Write → Write → Prop where
  | demoDevice (hnow : ⟨_, .txnow, now⟩ ∈ log) :
    RouteIssues E user draws .createDemoDevice log [] (.insertDevice draws.id {
      newDevice ("STM32_MOCK_" ++ uuidHead draws.id) "Demo Smart Composter"
        (encryptDeviceSecret E.crypto draws.fernetIv "mock") now with
      isPaired := true })
  | demoMember (hnow : ⟨_, .txnow, now⟩ ∈ log) :
    RouteIssues E user draws .createDemoDevice log [.insertDevice draws.id row]
      (.insertUserDevice user.id draws.id ⟨now⟩)
  | demoReadings (hws : .insertDevice draws.id row ∈ ws)
      (hphase : ∀ w ∈ ws, w = .insertDevice draws.id row ∨
        ∃ link, w = .insertUserDevice user.id draws.id link) :
    RouteIssues E user draws .createDemoDevice log ws (.insertSensorReadings draws.id rows)
  | newDevice (hnone : ⟨_, .select (.deviceByHardwareUid body.hardwareUid), none⟩ ∈ log)
      (hnow : ⟨_, .txnow, now⟩ ∈ log) :
    RouteIssues E user draws (.pairingChallenge body) log [] (.insertDevice draws.id
      (newDevice body.hardwareUid body.displayName
        (encryptDeviceSecret E.crypto draws.fernetIv "UNPROVISIONED") now))
  | firstMember (hnow : ⟨_, .txnow, now⟩ ∈ log) :
    RouteIssues E user draws (.pairingChallenge body) log [.insertDevice draws.id row]
      (.insertUserDevice user.id draws.id ⟨now⟩)
  | renameDevice
      (hfound : ⟨_, .select (.deviceByHardwareUid body.hardwareUid), some (d, device)⟩ ∈ log)
      (hmember : ⟨_, .select (.member d user.id), some link⟩ ∈ log)
      (hpaired : device.isPaired = false) :
    RouteIssues E user draws (.pairingChallenge body) log [] (.updateDevice d {
      displayName := some body.displayName })
  | confirm (h : Checked log body.deviceId user.id) :
    RouteIssues E user draws (.pairingConfirm body) log [] (.updateDevice body.deviceId {
      isPaired := some true })
  | provision (h : Checked log d user.id) (hpaired : paired = none ∨ paired = some false) :
    RouteIssues E user draws (.provisionDeviceSecret d secret) log [] (.updateDevice d {
      deviceSecretEnc := enc, isPaired := paired })
  | share (h : Checked log d user.id)
      (hfound : ⟨_, .select (.userByEmail body.email), some (target, row)⟩ ∈ log)
      (hnow : ⟨_, .txnow, now⟩ ∈ log) :
    RouteIssues E user draws (.shareDevice d body) log [] (.insertUserDevice target d ⟨now⟩)
  | removeMember (h : Checked log d user.id) :
    RouteIssues E user draws (.removeMember d v) log [] (.deleteUserDevice v d)
  | insertConfig (h : Checked log d user.id) :
    RouteIssues E user draws (.putDeviceConfig d body) log [] (.insertDeviceConfig d body)
  | updateConfig (h : Checked log d user.id)
      (hfound : ⟨_, .select (.deviceConfig d), some cfg⟩ ∈ log) :
    RouteIssues E user draws (.putDeviceConfig d body) log [] (.updateDeviceConfig d
      (.between cfg body))
  | createCycle (h : Checked log d user.id) (hd : row.deviceId = d) (hs : row.status = .active)
      (hnow : ⟨_, .txnow, row.createdAt⟩ ∈ log) (hupdated : row.updatedAt = row.createdAt) :
    RouteIssues E user draws (.createCycle d body) log [] (.insertCompostCycle draws.id row)
  | updateCycle (h : Checked log cycle.deviceId user.id)
      (hfound : ⟨_, .select (.cycleById cycleId), some cycle⟩ ∈ log)
      (hnow : ⟨_, .txnow, now⟩ ∈ log) :
    RouteIssues E user draws (.updateCycle cycleId body) log [] (.updateCompostCycle cycleId
      cycle.deviceId patch now)
  | createWasteLog (h : Checked log d user.id) (hd : row.deviceId = d)
      (hu : row.userId = some user.id) (hnow : ⟨_, .txnow, row.createdAt⟩ ∈ log) :
    RouteIssues E user draws (.createWasteLog d body) log [] (.insertWasteLog draws.id row)
  | patchMe (htoken : patch.firebasePushToken = none) :
    RouteIssues E user draws (.patchMe body) log [] (.updateUser user.id patch)
  | pushToken :
    RouteIssues E user draws (.updatePushToken body) log [] (.updateUser user.id {
      firebasePushToken := some body.token })

/-- The row that a registration inserts. -/
structure RegisteredRow (E : Env) (body : UserRegisterRequest) (draws : Draws) (row : User) :
    Prop where
  email : row.email = body.email
  phone : row.phone = body.phone
  hash : hashPassword E.crypto draws.bcryptSalt body.password = .ok row.passwordHash
  active : row.isActive = true

/-- The password is that of the active account with this email. -/
structure PasswordOf (E : Env) (body : UserLoginRequest) (log : Log) (u : Uuid) : Prop where
  ofRow : ∃ user, (⟨_, .select (.userByEmail body.email), some (u, user)⟩ : Event Cmd) ∈ log ∧
    verifyPassword E.crypto body.password user.passwordHash = .ok true ∧ user.isActive = true

/-- The code is the stored one, and the account with the phone is active. -/
structure CodeOf (E : Env) (body : OTPVerifyIn) (log : Log) (u : Uuid) : Prop where
  code : (⟨Option String, .redis (.get (.otpCode body.phone)), some (hashCode E body.code)⟩ :
    Event Cmd) ∈ log
  user : ∃ user, (⟨_, .select (.userByPhone body.phone), some (u, user)⟩ : Event Cmd) ∈ log ∧
    user.isActive = true

/-- The token was found, unrevoked. -/
def TokenFound (E : Env) (body : RefreshRequest) (log : Log) (id : Uuid) (rt : RefreshToken) :
    Prop :=
  (⟨_, .select (.refreshTokenByHash (hashToken E body.refreshToken)), some (id, rt)⟩ : Event Cmd)
    ∈ log ∧ rt.revoked = false

/-- Who a request of an authentication route may have a pair for, after these statements. -/
inductive Authenticates (E : Env) (draws : Draws) : AuthRoute → Log → List Write → Uuid → Prop where
  | register (hrow : RegisteredRow E body draws row) :
    Authenticates E draws (.register body) log [.insertUser draws.id row] draws.id
  | login (h : PasswordOf E body log u) : Authenticates E draws (.login body) log [] u
  | verifyOtp (h : CodeOf E body log u) : Authenticates E draws (.verifyOtp body) log [] u
  | refresh (h : TokenFound E body log tokenId rt) :
    Authenticates E draws (.refresh body) log [.updateRefreshToken tokenId true] rt.userId

/-- The statements of the authentication routes. -/
inductive AuthIssues (E : Env) (draws : Draws) : AuthRoute → Log → List Write → Write → Prop where
  | insertUser (hrow : RegisteredRow E body draws row)
      (hnow : ⟨_, .txnow, row.createdAt⟩ ∈ log) :
    AuthIssues E draws (.register body) log [] (.insertUser draws.id row)
  | insertToken (h : Authenticates E draws route log ws u) (hrow : TokenRow E draws log u row) :
    AuthIssues E draws route log ws (.insertRefreshToken draws.tokenId row)
  | revoke (h : TokenFound E body log tokenId rt)
      (hroute : route = .refresh body ∨ route = .logout body) :
    AuthIssues E draws route log [] (.updateRefreshToken tokenId true)

/-- The pair is for a user who has been signed in, and its row is inserted. -/
def AuthGrants (E : Env) (draws : Draws) (route : AuthRoute) (log : Log) (ws : List Write)
    (pair : TokenResponse) : Prop :=
  ∃ before u row, ws = before ++ [.insertRefreshToken draws.tokenId row] ∧
    Authenticates E draws route log before u ∧ PairOf E draws log u row pair

/-- The statements of a request. -/
def Request.Issues (E : Env) (log : Log) (ws : List Write) (w : Write) : Request → Prop
  | .user credentials route draws =>
    ∃ user, Acts E credentials log user ∧ RouteIssues E user draws route log ws w
  | .auth route draws => AuthIssues E draws route log ws w

/-- The token pairs that a request sends. -/
def Request.Grants (E : Env) (log : Log) (ws : List Write) (pair : TokenResponse) : Request → Prop
  | .user .. => False
  | .auth route draws => AuthGrants E draws route log ws pair

/-- A job that is no request executes no statements and sends no tokens. -/
def Job.Issues (E : Env) (log : Log) (ws : List Write) (w : Write) : Job → Prop
  | .http r => r.Issues E log ws w
  | _ => False

def Job.Grants (E : Env) (log : Log) (ws : List Write) (pair : TokenResponse) : Job → Prop
  | .http r => r.Grants E log ws pair
  | _ => False

/-! ## Routes that only read -/

/-- The command is a SELECT, or reads the clock. -/
def Cmd.reads : {β : Type} → Cmd β → Bool
  | _, .select _ => true
  | _, .utcnow => true
  | _, _ => false

/-- The command is a SELECT, reads a clock or goes to Redis. -/
def Cmd.asks : {β : Type} → Cmd β → Bool
  | _, .select _ => true
  | _, .utcnow => true
  | _, .txnow => true
  | _, .redis _ => true
  | _, _ => false

/-- All commands of the program pass a test, and what it returns satisfies `Q`. -/
def Within (ok : {β : Type} → Cmd β → Bool) (Q : α → Prop) : Prog Cmd Exn α → Prop
  | .pure a => Q a
  | .raise _ => True
  | .cmd c k => ok c = true ∧ ∀ b, Within ok Q (k b)

section
variable {ok ok' : {β : Type} → Cmd β → Bool} {Q : α → Prop} {p : Prog Cmd Exn α}

theorem Within.bind {R : β → Prop} {f : α → Prog Cmd Exn β} (h : Within ok Q p)
    (hf : ∀ a, Q a → Within ok R (f a)) : Within ok R (p.bind f) := by
  induction p with
  | pure a => exact hf a h
  | raise e => trivial
  | cmd c k ih => exact ⟨h.1, fun b => ih b (h.2 b)⟩

theorem Within.tryCatch {f : Exn → Prog Cmd Exn α} (h : Within ok Q p)
    (hf : ∀ e, Within ok Q (f e)) : Within ok Q (p.tryCatch f) := by
  induction p with
  | pure a => exact h
  | raise e => exact hf e
  | cmd c k ih => exact ⟨h.1, fun b => ih b (h.2 b)⟩

theorem Within.mono (h : Within ok Q p) (hok : ∀ {β : Type} (c : Cmd β), ok c = true →
    ok' c = true) :
    Within ok' Q p := by
  induction p with
  | pure a => exact h
  | raise e => trivial
  | cmd c k ih => exact ⟨hok c h.1, fun b => ih b (h.2 b)⟩

end

/-- The same of a handler, which leaves alone what is pending. -/
def Handler.Within (ok : {β : Type} → Cmd β → Bool) (Q : α → Prop) (h : Handler α) : Prop :=
  ∀ pending, Rawbin.Within ok (fun r => r.2 = pending ∧ Q r.1) (h pending)

namespace Handler.Within

variable {ok : {β : Type} → Cmd β → Bool} {Q : α → Prop} {R : β → Prop} {h h' : Handler α}

theorem pure {a : α} (ha : Q a) : Within ok Q (Pure.pure a) := fun _ => ⟨rfl, ha⟩

theorem bind {f : α → Handler β} (H : h.Within ok Q) (hf : ∀ a, Q a → (f a).Within ok R) :
    (h >>= f).Within ok R := by
  refine fun pending => (H pending).bind fun r hr => ?_
  obtain ⟨a, pending'⟩ := r
  obtain ⟨rfl, ha⟩ := hr
  exact hf a ha pending'

theorem map {f : α → β} (H : h.Within ok Q) (hf : ∀ a, Q a → R (f a)) : (f <$> h).Within ok R :=
  H.bind fun a ha => pure (hf a ha)

theorem raise (e : Exn) : (throw e : Handler α).Within ok Q := fun _ => trivial

theorem tryCatch {f : Exn → Handler α} (H : h.Within ok Q) (hf : ∀ e, (f e).Within ok Q) :
    (MonadExcept.tryCatch h f).Within ok Q :=
  fun pending => (H pending).tryCatch fun e => hf e pending

theorem single {c : Cmd β} (hc : ok c = true) : (Handler.perform c).Within ok fun _ => True :=
  fun _ => ⟨hc, fun _ => ⟨rfl, trivial⟩⟩

theorem branch {c : Prop} [Decidable c] (H : h.Within ok Q) (H' : h'.Within ok Q) :
    (if c then h else h').Within ok Q := by
  split
  · exact H
  · exact H'

theorem when {c : Prop} [Decidable c] {h : Handler Unit} (H : h.Within ok fun _ => True) :
    (Handler.when c h).Within ok fun _ => True := branch H (pure trivial)

theorem raiseIf {c : Prop} [Decidable c] {status : Nat} {detail : String} :
    (Handler.raiseIf c status detail).Within ok fun _ => True := when (raise _)

theorem ofExcept (r : Except Exn β) : (Handler.ofExcept r).Within ok fun _ => True := by
  cases r with
  | ok b => exact pure trivial
  | error e => exact raise e

end Handler.Within

section
open Handler.Within

variable {E : Env} {user : CurrentUser} {draws : Draws}

theorem assertDeviceMember_within {d u : Uuid} :
    (DeviceAccess.assertDeviceMember d u).Within Cmd.reads fun _ => True := by
  refine (single rfl).bind fun device _ => ?_
  cases device with
  | none => exact raise _
  | some device =>
    have hmember : (DeviceAccess.isMember d u).Within Cmd.reads fun _ => True :=
      (single rfl).bind fun link _ => pure trivial
    exact hmember.bind fun member _ => branch (pure trivial) (raise _)

theorem loadCycleWithAccess_within {cycleId u : Uuid} :
    (loadCycleWithAccess cycleId u).Within Cmd.reads fun _ => True := by
  refine (single rfl).bind fun cycle _ => ?_
  cases cycle with
  | none => exact raise _
  | some cycle => exact assertDeviceMember_within.bind fun _ _ => pure trivial

theorem readingAge_within {latest : Option (Time × SensorReading)} :
    (readingAge latest).Within Cmd.reads fun _ => True := by
  cases latest with
  | none => exact pure trivial
  | some reading => exact (single rfl).bind fun _ _ => pure trivial

theorem historyReadings_within {d : Uuid} {interval : Interval} {start stop : Time} :
    (historyReadings d interval start stop).Within Cmd.reads fun _ => True := by
  cases interval <;> exact (single rfl).map fun _ _ => trivial

theorem downloadUrl_within {available : Bool} :
    (downloadUrl E available).Within Cmd.reads fun _ => True := by
  have hurl (key : String) (expiration : Nat) :
      (generatePresignedUrl E key expiration).Within Cmd.reads fun _ => True := by
    rw [generatePresignedUrl]
    cases E.presignedUrl key expiration with
    | none => exact raise _
    | some url => exact pure trivial
  exact branch ((hurl _ _).bind fun _ _ => pure trivial) (pure trivial)

/-- **GET routes only read.** -/
theorem Route.within_reads {route : Route} (hroute : route.method = .get) :
    (route.handle E user draws).Within Cmd.reads fun response => response.tokens = none := by
  have hmember {d : Uuid} {f : Device → Handler Response}
      (h : ∀ device, (f device).Within Cmd.reads fun response => response.tokens = none) :
      (DeviceAccess.assertDeviceMember d user.id >>= f).Within Cmd.reads fun response =>
        response.tokens = none := assertDeviceMember_within.bind fun device _ => h device
  cases route with
  | listDevices => exact (single rfl).bind fun _ _ => pure rfl
  | listMembers d => exact hmember fun _ => (single rfl).bind fun _ _ => pure rfl
  | getDeviceConfig d => exact hmember fun _ => (single rfl).bind fun _ _ => pure rfl
  | listCycles d status => exact hmember fun _ => (single rfl).bind fun _ _ => pure rfl
  | getCycle cycleId => exact loadCycleWithAccess_within.bind fun _ _ => pure rfl
  | listWasteLogs d limit offset cycleId =>
    exact hmember fun _ => (single rfl).bind fun _ _ => (single rfl).bind fun _ _ => pure rfl
  | getMe => exact pure rfl
  | deviceSnapshot d =>
    exact hmember fun _ => (single rfl).bind fun _ _ => readingAge_within.bind fun _ _ => pure rfl
  | listAlerts d limit offset severity metric =>
    exact hmember fun _ => (single rfl).bind fun _ _ => (single rfl).bind fun _ _ => pure rfl
  | getTelemetryHistory d interval start stop =>
    refine hmember fun _ => (single rfl).bind fun now _ => (ofExcept _).bind fun empty _ => ?_
    refine raiseIf.bind fun _ _ => raiseIf.bind fun _ _ => ?_
    exact historyReadings_within.bind fun _ _ => pure rfl
  | checkOtaUpdate d => exact hmember fun _ => downloadUrl_within.bind fun _ _ => pure rfl
  | _ => cases hroute

end

/-! ## The assertion -/

/-- The response and the end of the transaction are left to `get_db`, and every statement is an
expected one. -/
structure Emits (S : Log → List Write → Write → Prop) (log : Log) (ws : List Write) (c : Cmd β) :
    Prop where
  data : c.isData = true
  statement : ∀ wr, c.statement = some wr → S log ws wr

/-- A route ends with at most one pending statement, and its token pair is an expected one. -/
def EmitsEnd (S : Log → List Write → Write → Prop) (G : Log → List Write → TokenResponse → Prop) :
    Ending (Response × List Write) := fun log ws r =>
  ∀ response pending, r = .ok (response, pending) →
    (∀ log' pair, log.Extends log' → response.tokens = some pair → G log' ws pair) ∧
    (pending = [] ∨ ∃ w, pending = [w] ∧ ∀ log', log.Extends log' → S log' ws w)

section
variable {S : Log → List Write → Write → Prop} {G : Log → List Write → TokenResponse → Prop}
variable {log : Log} {ws pend : List Write} {Q : Ending γ}

theorem Emits.quiet {c : Cmd β} (h : c.asks = true) : Emits S log ws c := by
  cases c with
  | select | utcnow | txnow | redis =>
    refine ⟨rfl, fun wr hwr => ?_⟩
    cases hwr
  | _ => cases h

theorem Emits.execute {wr : Write} (h : S log ws wr) : Emits S log ws (.execute wr) := by
  refine ⟨rfl, fun wr' h' => ?_⟩
  cases h'
  exact h

theorem Emits.reads : Assertion.Reads (Emits S) where
  select _ _ _ := .quiet rfl
  utcnow _ := .quiet rfl

theorem EmitsEnd.error {e : Exn} : EmitsEnd S G log ws (.error e) := by
  intro response pending h
  cases h

/-- A route that has executed its statements. -/
theorem EmitsEnd.done {response : Response}
    (h : ∀ log' pair, log.Extends log' → response.tokens = some pair → G log' ws pair) :
    EmitsEnd S G log ws (.ok (response, [])) := by
  intro response pending hr
  cases hr
  exact ⟨h, .inl rfl⟩

theorem EmitsEnd.silent {response : Response} (h : response.tokens = none) :
    EmitsEnd S G log ws (.ok (response, [])) := by
  refine .done fun log' pair _ hp => ?_
  cases h.symm.trans hp

theorem EmitsEnd.pending {response : Response} {w : Write} (h : response.tokens = none)
    (hw : ∀ log', log.Extends log' → S log' ws w) : EmitsEnd S G log ws (.ok (response, [w])) := by
  intro response pending hr
  cases hr
  refine ⟨fun log' pair _ hp => ?_, .inr ⟨w, rfl, hw⟩⟩
  cases h.symm.trans hp

/-- A statement that is expected; if it fails, the route ends. -/
theorem emits_execute {wr : Write} {k : Except Exn Unit → Prog Cmd Exn γ} (h : S log ws wr)
    (hnoop : ∀ db, wr.noop db = false)
    (herr : ∀ e, Keeps (Emits S) Q (log ++ [⟨_, .execute wr, .error e⟩]) ws (k (.error e)))
    (hok : Keeps (Emits S) Q (log ++ [⟨_, .execute wr, .ok ()⟩]) (ws ++ [wr]) (k (.ok ()))) :
    Keeps (Emits S) Q log ws (.cmd (.execute wr) k) := by
  refine .execute (.execute h) herr (fun db hn => ?_) hok
  rw [hnoop] at hn
  cases hn

/-- A part of a route that only reads. -/
theorem Within.keeps {R : α → Prop} {Q : Ending α} {p : Prog Cmd Exn α} (h : Within Cmd.asks R p)
    (hok : ∀ log' a, R a → Q log' [] (.ok a)) (herr : ∀ log' e, Q log' [] (.error e)) :
    Keeps (Emits S) Q log [] p := by
  induction p generalizing log with
  | pure a => exact .pure (hok log a h)
  | raise e => exact .raise (herr log e)
  | cmd c k ih =>
    obtain ⟨hc, hk⟩ := h
    have hs : c.statement = none := by
      cases c with
      | select | utcnow | txnow | redis => rfl
      | _ => cases hc
    exact .quiet hs (.quiet hc) fun b => ih b (hk b)

theorem addMember_emits {d u : Uuid} {k : Bool × List Write → Prog Cmd Exn γ}
    (hS : ∀ now, S (log ++ [⟨_, .select (.member d u), none⟩, ⟨_, .txnow, now⟩]) ws
      (.insertUserDevice u d ⟨now⟩))
    (hQ : ∀ log' e, Q log' ws (.error e))
    (hsame : ∀ log', log ⊆ log' → Keeps (Emits S) Q log' ws (k (false, [])))
    (hadd : ∀ log' now, log ⊆ log' →
      Keeps (Emits S) Q log' (ws ++ [.insertUserDevice u d ⟨now⟩]) (k (true, []))) :
    Keeps (Emits S) Q log ws ((DeviceAccess.addMember d u []).bind k) := by
  rw [DeviceAccess.addMember, Handler.bind_apply, Prog.bind_assoc]
  refine isMember_keeps (.quiet rfl) fun link => ?_
  cases link with
  | some link => exact hsame _ (List.subset_append_left ..)
  | none =>
    refine .txnow (.quiet rfl) fun now => ?_
    rw [List.append_assoc]
    refine emits_execute (hS now) (fun _ => rfl) (fun e => .raise (hQ _ e)) ?_
    refine hadd _ now ?_
    rw [List.append_assoc]
    exact List.subset_append_left ..

end

/-! ## The routes of a user -/

section
variable {E : Env} {user : CurrentUser} {draws : Draws} {log : Log}

abbrev EmitsRoute (E : Env) (user : CurrentUser) (draws : Draws) (route : Route) : Assertion :=
  Emits (RouteIssues E user draws route)

/-- A route of a user sends no tokens. -/
abbrev EmitsRouteEnd (E : Env) (user : CurrentUser) (draws : Draws) (route : Route) :
    Ending (Response × List Write) :=
  EmitsEnd (RouteIssues E user draws route) fun _ _ _ => False

/-- The route may start with anything in its log. -/
abbrev RouteEmits (E : Env) (user : CurrentUser) (draws : Draws) (route : Route)
    (h : Handler Response) :
    Prop := ∀ log, Keeps (EmitsRoute E user draws route) (EmitsRouteEnd E user draws route) log []
      (h [])

theorem checked_of_mem {d u : Uuid} {device : Device} {link : Uuid} {log' : Log}
    (h : log ++ [⟨_, .select (.deviceById d), some device⟩, ⟨_, .select (.member d u), some link⟩]
      ⊆ log') : Checked log' d u :=
  ⟨⟨device, h (by simp)⟩, ⟨link, h (by simp)⟩⟩

/-- A route that starts with the check of the membership. -/
theorem checked_emits {d : Uuid} {route : Route} {f : Device → Handler Response}
    (h : ∀ log device, Checked log d user.id →
      Keeps (EmitsRoute E user draws route) (EmitsRouteEnd E user draws route) log []
        (f device [])) :
    RouteEmits E user draws route (DeviceAccess.assertDeviceMember d user.id >>= f) := fun _ =>
  assertDeviceMember_keeps Emits.reads (fun _ => .error) fun device _ =>
    h _ device (checked_of_mem (List.Subset.refl _))

theorem Checked.mono {d u : Uuid} {log' : Log} (h : Checked log d u) (hl : log ⊆ log') :
    Checked log' d u :=
  ⟨h.device.imp fun _ hm => hl hm, h.member.imp fun _ hm => hl hm⟩

theorem createDemoDevice_emits :
    RouteEmits E user draws .createDemoDevice (createDemoDevice E user draws) := by
  intro log
  refine .txnow (.quiet rfl) fun createdAt => ?_
  refine emits_execute (.demoDevice (by simp)) (fun _ => rfl) (fun _ => .raise .error) ?_
  refine addMember_emits (fun now => .demoMember (by simp)) (fun _ _ => .error) (fun log' _ => ?_)
    fun log' now _ => ?_
  · refine .utcnow (.quiet rfl) fun _ => .pure (.pending rfl fun _ _ => ?_)
    exact .demoReadings (List.mem_singleton_self _) (List.forall_mem_singleton.mpr (.inl rfl))
  · refine .utcnow (.quiet rfl) fun _ => .pure (.pending rfl fun _ _ => ?_)
    refine .demoReadings (List.mem_cons_self ..) (List.forall_mem_cons.mpr ⟨.inl rfl, ?_⟩)
    exact List.forall_mem_singleton.mpr (.inr ⟨_, rfl⟩)

theorem pairingChallenge_emits {body : PairingChallengeRequest} :
    RouteEmits E user draws (.pairingChallenge body) (pairingChallenge E body user draws) := by
  intro log
  -- the end of the route, after the device was found or created
  have hend {log : Log} {ws pending : List Write} (d : Uuid)
      (hp : pending = [] ∨ ∃ w, pending = [w] ∧
      ∀ log', log ⊆ log' → RouteIssues E user draws (.pairingChallenge body) log' ws w) :
      Keeps (EmitsRoute E user draws (.pairingChallenge body))
        (EmitsRouteEnd E user draws (.pairingChallenge body)) log ws ((do
          let now ← Handler.utcnow
          let expiresAt := now + seconds E.cfg.pairingChallengeTtlSeconds
          Handler.redis (.setex (.challenge d) E.cfg.pairingChallengeTtlSeconds draws.tokenHex)
          pure ⟨201, .challenge ⟨d, draws.tokenHex, expiresAt⟩, []⟩ :
            Handler Response) pending) := by
    refine .utcnow (.quiet rfl) fun now => .redis (.quiet rfl) fun _ => .pure ?_
    rcases hp with rfl | ⟨w, rfl, hw⟩
    · exact .silent rfl
    · refine .pending rfl fun log' hl => hw log' fun e he => hl.subset ?_
      exact List.mem_append_left _ (List.mem_append_left _ he)
  refine .select (.quiet rfl) fun db => ?_
  cases (Query.deviceByHardwareUid body.hardwareUid).eval db with
  | none =>
    refine .txnow (.quiet rfl) fun createdAt => ?_
    refine emits_execute (.newDevice (by simp) (by simp)) (fun _ => rfl) (fun _ => .raise .error) ?_
    simp only [Prog.pure_bind, Handler.bind_apply, Prog.bind_assoc]
    refine addMember_emits (fun now => .firstMember (by simp)) (fun _ _ => .error) ?_ ?_
    · exact fun log' _ => hend draws.id (.inl rfl)
    · exact fun log' now _ => hend draws.id (.inl rfl)
  | some found =>
    obtain ⟨d, device⟩ := found
    simp only [Prog.pure_bind, Handler.bind_apply, Prog.bind_assoc]
    refine isMember_keeps (.quiet rfl) fun link => raiseIf_keeps .error fun hlink => ?_
    have hlink : ∃ u, link = some u := by
      cases link with
      | none => exact absurd rfl hlink
      | some u => exact ⟨u, rfl⟩
    obtain ⟨u, rfl⟩ := hlink
    refine when_keeps (fun hpaired => ?_) fun _ => hend d (.inl rfl)
    refine when_keeps (fun hchanged => hend d (.inr ⟨_, rfl, fun log' hl => ?_⟩)) fun _ =>
      hend d (.inl rfl)
    have hname : changed device.displayName body.displayName = some body.displayName := by
      rw [changed]
      split
      · rename_i he
        exact absurd (by rw [changed, if_pos he]) hchanged
      · rfl
    have hfound : (⟨_, .select (.deviceByHardwareUid body.hardwareUid), some (d, device)⟩ :
        Event Cmd) ∈ log' := hl (by simp)
    have hmember : (⟨_, .select (.member d user.id), some u⟩ : Event Cmd) ∈ log' := hl (by simp)
    rw [hname]
    exact .renameDevice hfound hmember (by simpa using hpaired)

theorem pairingConfirm_emits {body : PairingConfirmRequest} :
    RouteEmits E user draws (.pairingConfirm body) (pairingConfirm E body user) := by
  refine checked_emits fun log device hc => raiseIf_keeps .error fun hpaired => ?_
  refine .redis (.quiet rfl) fun storedNonce => ?_
  cases storedNonce with
  | none => exact .raise .error
  | some storedNonce =>
    refine raiseIf_keeps .error fun _ => ofExcept_keeps (fun _ _ => .error) fun verified _ => ?_
    refine raiseIf_keeps .error fun _ => ?_
    have hend {log : Log} {pending : List Write} (hp : pending = [] ∨ ∃ w, pending = [w] ∧
        ∀ log', log ⊆ log' → RouteIssues E user draws (.pairingConfirm body) log' [] w) :
        Keeps (EmitsRoute E user draws (.pairingConfirm body))
          (EmitsRouteEnd E user draws (.pairingConfirm body)) log [] ((do
            Handler.redis (.delete [.challenge body.deviceId])
            let pairedAt ← Handler.utcnow
            pure ⟨200, .confirm ⟨body.deviceId, device.hardwareUid, device.displayName, pairedAt⟩,
              []⟩ : Handler Response) pending) := by
      refine .redis (.quiet rfl) fun _ => .utcnow (.quiet rfl) fun _ => .pure ?_
      rcases hp with rfl | ⟨w, rfl, hw⟩
      · exact .silent rfl
      · refine .pending rfl fun log' hl => hw log' fun e he => hl.subset ?_
        exact List.mem_append_left _ (List.mem_append_left _ he)
    have hunpaired : device.isPaired = false := by simpa using hpaired
    refine when_keeps (fun _ => hend (.inr ⟨_, rfl, fun log' hl => ?_⟩)) fun _ => hend (.inl rfl)
    rw [hunpaired]
    exact .confirm (hc.mono fun e he => hl (List.mem_append_left _ he))

theorem provisionDeviceSecret_emits {d : Uuid} {secret : String} :
    RouteEmits E user draws (.provisionDeviceSecret d secret)
      (provisionDeviceSecret E d secret user draws) := by
  refine checked_emits fun log device hc => ?_
  refine when_keeps (fun _ => ?_) fun _ => .pure (.silent rfl)
  refine .pure (.pending rfl fun log' hl => .provision (hc.mono hl.subset) ?_)
  rw [changed]
  split
  · exact .inl rfl
  · exact .inr rfl

theorem shareDevice_emits {d : Uuid} {body : DeviceShareRequest} :
    RouteEmits E user draws (.shareDevice d body) (shareDevice d body user) := by
  refine checked_emits fun log device hc => .select (.quiet rfl) fun db => ?_
  cases (Query.userByEmail body.email).eval db with
  | none => exact .raise .error
  | some found =>
    obtain ⟨target, row⟩ := found
    have hend {log : Log} {ws : List Write} : Keeps (EmitsRoute E user draws (.shareDevice d body))
        (EmitsRouteEnd E user draws (.shareDevice d body)) log ws ((do
          let members ← memberList d
          pure ⟨200, .members members, []⟩ : Handler Response) []) :=
      .select (.quiet rfl) fun _ => .pure (.silent rfl)
    refine addMember_emits (fun now => ?_) (fun _ _ => .error) (fun _ _ => hend) fun _ _ _ => hend
    have hfound (log' : Log) : (⟨_, .select (.userByEmail body.email), some (target, row)⟩ :
        Event Cmd) ∈ log ++ [⟨_, .select (.userByEmail body.email), some (target, row)⟩] ++
          log' := by
      simp
    refine .share (hc.mono fun e he => ?_) (hfound _) (by simp)
    exact List.mem_append_left _ (List.mem_append_left _ he)

theorem removeMember_emits {d v : Uuid} :
    RouteEmits E user draws (.removeMember d v) (removeMember d v user) := by
  refine checked_emits fun log device hc => .select (.quiet rfl) fun db => ?_
  refine raiseIf_keeps .error fun _ => .select (.quiet rfl) fun db => ?_
  cases (Query.userDevice d v).eval db with
  | none => exact .pure (.silent rfl)
  | some row =>
    refine .pure (.pending rfl fun log' hl => .removeMember (hc.mono fun e he => hl.subset ?_))
    exact List.mem_append_left _ (List.mem_append_left _ he)

theorem putDeviceConfig_emits {d : Uuid} {body : DeviceConfigIn} :
    RouteEmits E user draws (.putDeviceConfig d body) (putDeviceConfig d body user) := by
  refine checked_emits fun log device hc => .select (.quiet rfl) fun db => ?_
  have hend {log : Log} {ws : List Write} :
      Keeps (EmitsRoute E user draws (.putDeviceConfig d body))
      (EmitsRouteEnd E user draws (.putDeviceConfig d body)) log ws ((do
        Handler.redis (.delete [.alertConfig d])
        pure ⟨200, .config ⟨d, effectiveThresholds (some body), true⟩, []⟩ :
          Handler Response) []) :=
    .redis (.quiet rfl) fun _ => .pure (.silent rfl)
  cases (Query.deviceConfig d).eval db with
  | none =>
    exact emits_execute (.insertConfig (hc.mono (List.subset_append_left ..))) (fun _ => rfl)
      (fun _ => .raise .error) hend
  | some cfg =>
    refine when_keeps (fun _ => ?_) fun _ => hend
    exact emits_execute (.updateConfig (hc.mono (List.subset_append_left ..)) (by simp))
      (fun _ => rfl) (fun _ => .raise .error) hend

theorem createCycle_emits {d : Uuid} {body : CompostCycleCreate} :
    RouteEmits E user draws (.createCycle d body) (createCycle d body user draws) := by
  refine checked_emits fun log device hc => .select (.quiet rfl) fun db => ?_
  refine scalarOneOrNone_keeps .error fun _ => raiseIf_keeps .error fun _ => ?_
  refine orNow_keeps (.quiet rfl) fun log' startedAt hl => .txnow (.quiet rfl) fun now => ?_
  refine emits_execute (.createCycle (hc.mono fun e he => ?_) rfl rfl (by simp) rfl) (fun _ => rfl)
    (fun _ => .raise .error) (.pure (.silent rfl))
  exact List.mem_append_left _ (hl.subset (List.mem_append_left _ he))

theorem loadCycleWithAccess_emits {cycleId : Uuid} {route : Route}
    {f : CompostCycle → Handler Response}
    (h : ∀ log cycle, Checked log cycle.deviceId user.id →
      (⟨_, .select (.cycleById cycleId), some cycle⟩ : Event Cmd) ∈ log →
      Keeps (EmitsRoute E user draws route) (EmitsRouteEnd E user draws route) log []
        (f cycle [])) : RouteEmits E user draws route
          (loadCycleWithAccess cycleId user.id >>= f) := by
  refine fun log => .select (.quiet rfl) fun db => ?_
  cases (Query.cycleById cycleId).eval db with
  | none => exact .raise .error
  | some cycle =>
    simp only [Prog.pure_bind, Handler.bind_apply, Prog.bind_assoc]
    exact assertDeviceMember_keeps Emits.reads (fun _ => .error) fun device _ =>
      h _ cycle (checked_of_mem (List.Subset.refl _)) (by simp)

theorem updateCycle_emits {cycleId : Uuid} {body : CompostCycleUpdate} :
    RouteEmits E user draws (.updateCycle cycleId body) (updateCycle cycleId body user) := by
  refine loadCycleWithAccess_emits fun log cycle hc hcycle => ?_
  -- the end of the route, with the patch that the body comes to
  have hend {log' : Log} (hl : log ⊆ log') (patch : CompostCyclePatch) :
      Keeps (EmitsRoute E user draws (.updateCycle cycleId body))
        (EmitsRouteEnd E user draws (.updateCycle cycleId body)) log' [] ((do
          if patch = {} then
            pure ⟨200, .cycle cycleId cycle, []⟩
          else
            let updatedAt ← Handler.txnow
            Handler.add (.updateCompostCycle cycleId cycle.deviceId patch updatedAt)
            Handler.flush
            throw .responseValidationError : Handler Response) []) := by
    by_cases hp : patch = {}
    · rw [if_pos hp]
      exact .pure (.silent rfl)
    · rw [if_neg hp]
      refine .txnow (.quiet rfl) fun now => ?_
      have hl' : log ⊆ log' ++ [⟨_, .txnow, now⟩] := fun e he => List.mem_append_left _ (hl he)
      exact emits_execute (.updateCycle (hc.mono hl') (hl' hcycle) (by simp)) (fun _ => rfl)
        (fun _ => .raise .error) (.raise .error)
  rw [Handler.bind_apply, stampedPatch]
  refine ite_keeps (fun _ => .utcnow (.quiet rfl) fun now => ?_) fun _ => ?_
  · exact hend (List.subset_append_left ..) _
  · exact hend (List.Subset.refl _) _

theorem createWasteLog_emits {d : Uuid} {body : WasteLogCreate} :
    RouteEmits E user draws (.createWasteLog d body) (createWasteLog d body user draws) := by
  refine checked_emits fun log device hc => ?_
  have hend {log' : Log} (hl : log ⊆ log') (cycleId : Option Uuid) :
      Keeps (EmitsRoute E user draws (.createWasteLog d body))
        (EmitsRouteEnd E user draws (.createWasteLog d body)) log' [] ((do
          let loggedAt ← orNow body.loggedAt
          let createdAt ← Handler.txnow
          let entry : WasteLog := {
            deviceId := d
            compostCycleId := cycleId
            userId := some user.id
            loggedAt := loggedAt
            wasteType := body.wasteType
            weightKg := body.weightKg
            notes := body.notes
            createdAt := createdAt }
          Handler.add (.insertWasteLog draws.id entry)
          Handler.flush
          pure ⟨201, .wasteLog draws.id entry, []⟩ : Handler Response) []) := by
    refine orNow_keeps (.quiet rfl) fun log'' loggedAt hl' => .txnow (.quiet rfl) fun now => ?_
    refine emits_execute (.createWasteLog (hc.mono fun e he => ?_) rfl rfl (by simp)) (fun _ => rfl)
      (fun _ => .raise .error) (.pure (.silent rfl))
    exact List.mem_append_left _ (hl'.subset (hl he))
  cases hcycle : body.compostCycleId with
  | some cycleId =>
    simp only [attributedCycle]
    refine .select (.quiet rfl) fun db => ?_
    cases (Query.cycleOfDevice cycleId d).eval db with
    | none => exact .raise .error
    | some cycle => exact hend (List.subset_append_left ..) (some cycleId)
  | none =>
    simp only [attributedCycle]
    refine .select (.quiet rfl) fun db => ?_
    simp only [Prog.pure_bind, Handler.bind_apply, Prog.bind_assoc]
    refine scalarOneOrNone_keeps .error fun _ => ?_
    exact hend (List.subset_append_left ..) _

/-- The pending UPDATE of a user, flushed. -/
theorem updateUser_emits {route : Route} {patch : UserPatch} {response : Response} {log : Log}
    (hS : patch ≠ {} → ∀ log', RouteIssues E user draws route log' [] (.updateUser user.id patch))
    (hr : response.tokens = none) :
    Keeps (EmitsRoute E user draws route) (EmitsRouteEnd E user draws route) log [] ((do
      updateUser user.id patch
      Handler.flush
      pure response : Handler Response) []) := by
  refine when_keeps (fun hne => ?_) fun _ => .pure (.silent hr)
  exact emits_execute (hS hne _) (fun _ => rfl) (fun _ => .raise .error) (.pure (.silent hr))

theorem patchMe_emits {body : UserPatchIn} :
    RouteEmits E user draws (.patchMe body) (patchMe body user) := by
  intro log
  have hend {log : Log} (phone : Option String) : Keeps (EmitsRoute E user draws (.patchMe body))
      (EmitsRouteEnd E user draws (.patchMe body)) log [] ((do
        let patch : UserPatch := {
          displayName := body.displayName.bind (changed user.user.displayName)
          phone := phone }
        updateUser user.id patch
        Handler.flush
        pure ⟨200, .user (.fromOrmUser user.id (patch.apply user.user)), []⟩ :
          Handler Response) []) :=
    updateUser_emits (fun _ _ => .patchMe rfl) rfl
  show Keeps _ _ log [] ((newPhone body user []).bind _)
  rw [newPhone]
  cases body.phone with
  | none => exact hend none
  | some phone =>
    refine ite_keeps (fun _ => hend none) fun _ => .select (.quiet rfl) fun db => ?_
    simp only [Prog.pure_bind, Handler.bind_apply, Prog.bind_assoc]
    exact raiseIf_keeps .error fun _ => hend (some phone)

theorem updatePushToken_emits {body : PushTokenIn} :
    RouteEmits E user draws (.updatePushToken body) (updatePushToken body user) := by
  refine fun log => updateUser_emits (fun hne log' => ?_) rfl
  by_cases ht : user.user.firebasePushToken = some body.token
  · rw [if_pos ht] at hne
    exact absurd rfl hne
  · rw [if_neg ht]
    exact .pushToken

/-- **The statements of a route** of a user. -/
theorem Route.emits (route : Route) :
    RouteEmits E user draws route (route.handle E user draws) := by
  by_cases hm : route.method = .get
  · refine fun log => ((Route.within_reads hm []).mono fun c hc => ?_).keeps (fun log' r hr => ?_)
      fun _ _ => .error
    · cases c with
      | select | utcnow => rfl
      | _ => cases hc
    obtain ⟨response, pending⟩ := r
    obtain ⟨rfl, hr⟩ := hr
    exact .silent hr
  · cases route with
    | createDemoDevice => exact createDemoDevice_emits
    | pairingChallenge => exact pairingChallenge_emits
    | pairingConfirm => exact pairingConfirm_emits
    | provisionDeviceSecret => exact provisionDeviceSecret_emits
    | shareDevice => exact shareDevice_emits
    | removeMember => exact removeMember_emits
    | putDeviceConfig => exact putDeviceConfig_emits
    | createCycle => exact createCycle_emits
    | updateCycle => exact updateCycle_emits
    | createWasteLog => exact createWasteLog_emits
    | patchMe => exact patchMe_emits
    | updatePushToken => exact updatePushToken_emits
    | _ => exact absurd rfl hm

end

/-! ## The authentication routes -/

section
variable {E : Env} {draws : Draws} {route : AuthRoute} {log log' : Log} {ws : List Write} {u : Uuid}
variable {row : RefreshToken} {pair : TokenResponse}

theorem Authenticates.mono (h : Authenticates E draws route log ws u) (hl : log ⊆ log') :
    Authenticates E draws route log' ws u := by
  cases h with
  | register hrow => exact .register hrow
  | login h =>
    obtain ⟨user, hm, h⟩ := h.ofRow
    exact .login ⟨user, hl hm, h⟩
  | verifyOtp h =>
    obtain ⟨user, hm, h'⟩ := h.user
    exact .verifyOtp ⟨hl h.code, user, hl hm, h'⟩
  | refresh h => exact .refresh ⟨hl h.1, h.2⟩

theorem TokenRow.mono (h : TokenRow E draws log u row) (hl : log ⊆ log') :
    TokenRow E draws log' u row := by
  obtain ⟨now, iat, now', hm, h⟩ := h
  exact ⟨now, iat, now', hl hm, h⟩

theorem PairOf.mono (h : PairOf E draws log u row pair) (hl : log ⊆ log') :
    PairOf E draws log' u row pair := by
  obtain ⟨now, iat, hm, ha⟩ := h.access
  obtain ⟨now', iat', hm', hr⟩ := h.refresh
  exact ⟨⟨now, iat, hl hm, ha⟩, ⟨now', iat', hl hm', hr⟩, h.userId, h.hash⟩

abbrev EmitsAuth (E : Env) (draws : Draws) (route : AuthRoute) : Assertion :=
  Emits (AuthIssues E draws route)

abbrev EmitsAuthEnd (E : Env) (draws : Draws) (route : AuthRoute) :
    Ending (Response × List Write) :=
  EmitsEnd (AuthIssues E draws route) (AuthGrants E draws route)

/-- The clock reads of a pair; what is left is to insert its row. -/
theorem issueTokenPair_reads {S : Log → List Write → Write → Prop} {Q : Ending γ}
    {pend : List Write}
    {k : TokenResponse × List Write → Prog Cmd Exn γ}
    (h : ∀ log' row pair, log ⊆ log' → TokenRow E draws log' u row →
      PairOf E draws log' u row pair →
      Keeps (Emits S) Q log' ws
        ((Handler.flushAll (pend ++ [.insertRefreshToken draws.tokenId row])).bind fun _ =>
          k (pair, []))) :
    Keeps (Emits S) Q log ws ((issueTokenPair E u draws pend).bind k) := by
  refine .utcnow (.quiet rfl) fun t₁ => .utcnow (.quiet rfl) fun t₂ => ?_
  refine .utcnow (.quiet rfl) fun t₃ => .utcnow (.quiet rfl) fun t₄ => ?_
  refine .utcnow (.quiet rfl) fun t₅ => ?_
  simp only [Prog.pure_bind, Handler.bind_apply, Prog.bind_assoc, Handler.add_apply,
    Handler.flush_apply]
  refine h _ _ _ ?_ ⟨t₃, t₄, t₅, by simp, rfl⟩ ⟨⟨t₁, t₂, by simp, rfl⟩,
    ⟨t₃, t₄, by simp, rfl⟩, rfl, rfl⟩
  simp only [List.append_assoc]
  exact List.subset_append_left ..

/-- The INSERT of the row, and the response with the pair. -/
theorem insertToken_emits {f : TokenResponse → Response} (hf : ∀ pair, (f pair).tokens = some pair)
    (hs : Authenticates E draws route log ws u) (hrow : TokenRow E draws log u row)
    (hpair : PairOf E draws log u row pair) :
    Keeps (EmitsAuth E draws route) (EmitsAuthEnd E draws route) log ws
      ((Handler.flushAll [.insertRefreshToken draws.tokenId row]).bind fun _ =>
        .pure (f pair, [])) := by
  refine emits_execute (.insertToken hs hrow) (fun _ => rfl) (fun _ => .raise .error) ?_
  refine .pure (.done fun log' pair' hl hp => ?_)
  cases (hf pair).symm.trans hp
  have hl' : log ⊆ log' := fun e he => hl.subset (List.mem_append_left _ he)
  exact ⟨ws, u, row, rfl, hs.mono hl', hpair.mono hl'⟩

theorem signIn_emits {f : TokenResponse → Response} (hf : ∀ pair, (f pair).tokens = some pair)
    (hs : Authenticates E draws route log ws u) :
    Keeps (EmitsAuth E draws route) (EmitsAuthEnd E draws route) log ws
      ((issueTokenPair E u draws []).bind fun r => .pure (f r.1, r.2)) :=
  issueTokenPair_reads fun _ _ _ hl hrow hpair => insertToken_emits hf (hs.mono hl) hrow hpair

theorem register_emits {body : UserRegisterRequest} :
    Keeps (EmitsAuth E draws (.register body)) (EmitsAuthEnd E draws (.register body)) [] []
      (register E body draws []) := by
  refine .select (.quiet rfl) fun db => raiseIf_keeps .error fun _ => ?_
  refine ofExcept_keeps (fun _ _ => .error) fun hash hhash => .txnow (.quiet rfl) fun now => ?_
  have hrow : RegisteredRow E body draws ⟨body.email, body.phone, hash, body.displayName,
      none, true,
      now⟩ := ⟨rfl, rfl, hhash, rfl⟩
  refine emits_execute (.insertUser hrow (by simp)) (fun _ => rfl) (fun _ => .raise .error) ?_
  exact signIn_emits (f := fun pair => ⟨201, .register _ pair, []⟩) (fun _ => rfl) (.register hrow)

theorem login_emits {body : UserLoginRequest} :
    Keeps (EmitsAuth E draws (.login body)) (EmitsAuthEnd E draws (.login body)) [] []
      (login E body draws []) := by
  refine .select (.quiet rfl) fun db => ?_
  cases (Query.userByEmail body.email).eval db with
  | none => exact .raise .error
  | some found =>
    obtain ⟨id, user⟩ := found
    refine ofExcept_keeps (fun _ _ => .error) fun verified hv =>
      raiseIf_keeps .error fun hverified => ?_
    refine raiseIf_keeps .error fun hactive => ?_
    refine signIn_emits (f := fun pair => ⟨200, .tokens pair, []⟩) (fun _ => rfl) ?_
    obtain rfl : verified = true := by simpa using hverified
    exact .login ⟨user, by simp, hv, by simpa using hactive⟩

theorem verifyCode_emits {S : Log → List Write → Write → Prop} {Q : Ending γ} {phone code : String}
    {k : Bool × List Write → Prog Cmd Exn γ}
    (hfalse : ∀ log', Keeps (Emits S) Q log' [] (k (false, [])))
    (htrue : ∀ log', (⟨Option String, .redis (.get (.otpCode phone)), some (hashCode E code)⟩ :
      Event Cmd) ∈ log' → Keeps (Emits S) Q log' [] (k (true, []))) :
    Keeps (Emits S) Q log [] ((verifyCode E phone code []).bind k) := by
  refine .redis (.quiet rfl) fun storedHash => ?_
  cases storedHash with
  | none => exact hfalse _
  | some storedHash =>
    refine .redis (.quiet rfl) fun counter => ?_
    simp only [Prog.pure_bind]
    refine ite_keeps (fun _ => .redis (.quiet rfl) fun _ => hfalse _) fun _ => ?_
    refine ite_keeps (fun hcode => .redis (.quiet rfl) fun _ => htrue _ ?_) fun _ => ?_
    · obtain rfl : storedHash = hashCode E code := hcode
      simp
    · refine .redis (.quiet rfl) fun attempts => ?_
      simp only [Prog.pure_bind, Handler.bind_apply, Prog.bind_assoc]
      exact when_keeps (fun _ => .redis (.quiet rfl) fun _ => hfalse _) fun _ => hfalse _

theorem verifyOtp_emits {body : OTPVerifyIn} :
    Keeps (EmitsAuth E draws (.verifyOtp body)) (EmitsAuthEnd E draws (.verifyOtp body)) [] []
      (verifyOtp E body draws []) := by
  refine verifyCode_emits (fun log => .raise .error) fun log hcode => ?_
  refine raiseIf_keeps .error fun _ => .select (.quiet rfl) fun db => ?_
  cases (Query.userByPhone body.phone).eval db with
  | none => exact .raise .error
  | some found =>
    obtain ⟨id, user⟩ := found
    refine raiseIf_keeps .error fun hactive => ?_
    refine signIn_emits (f := fun pair => ⟨200, .tokens pair, []⟩) (fun _ => rfl) ?_
    exact .verifyOtp ⟨List.mem_append_left _ hcode, user, by simp, by simpa using hactive⟩

theorem refresh_emits {body : RefreshRequest} :
    Keeps (EmitsAuth E draws (.refresh body)) (EmitsAuthEnd E draws (.refresh body)) [] []
      (refresh E body draws []) := by
  refine .select (.quiet rfl) fun db => ?_
  cases (Query.refreshTokenByHash (hashToken E body.refreshToken)).eval db with
  | none => exact .raise .error
  | some found =>
    obtain ⟨id, rt⟩ := found
    refine raiseIf_keeps .error fun hrevoked => .utcnow (.quiet rfl) fun now => ?_
    have hrt : rt.revoked = false := by simpa using hrevoked
    refine raiseIf_keeps .error fun _ => issueTokenPair_reads fun log row pair hl hrow hpair => ?_
    have hfound : TokenFound E body log id rt := ⟨hl (by simp), hrt⟩
    have hl' : log ⊆ log ++ [⟨_, .execute (.updateRefreshToken id true), .ok ()⟩] :=
      List.subset_append_left ..
    refine emits_execute (.revoke hfound (.inl rfl)) (fun _ => rfl) (fun _ => .raise .error) ?_
    exact insertToken_emits (f := fun pair => ⟨200, .tokens pair, []⟩) (fun _ => rfl)
      (.refresh ⟨hl' hfound.1, hrt⟩) (hrow.mono hl') (hpair.mono hl')

theorem logout_emits {body : RefreshRequest} :
    Keeps (EmitsAuth E draws (.logout body)) (EmitsAuthEnd E draws (.logout body)) [] []
      (logout E body []) := by
  refine .select (.quiet rfl) fun db => ?_
  cases (Query.refreshTokenByHash (hashToken E body.refreshToken)).eval db with
  | none => exact .pure (.silent rfl)
  | some found =>
    obtain ⟨id, rt⟩ := found
    refine when_keeps (fun hrevoked => .pure (.pending rfl fun log' hl => ?_)) fun _ =>
      .pure (.silent rfl)
    have hfound : TokenFound E body log' id rt := ⟨hl.subset (by simp), by simpa using hrevoked⟩
    exact .revoke hfound (.inr rfl)

theorem requestOtp_within {body : OTPRequestIn} :
    (requestOtp E body draws).Within Cmd.asks fun response => response.tokens = none := by
  have hissue {n : Nat} : (issueCode E body.phone n).Within Cmd.asks fun _ => True := by
    refine (Handler.Within.single rfl).bind fun cooldown _ => ?_
    refine (Handler.Within.when (.raise _)).bind fun _ _ => ?_
    exact (Handler.Within.single rfl).bind fun _ _ => (Handler.Within.single rfl).bind fun _ _ =>
      (Handler.Within.single rfl).bind fun _ _ => .pure trivial
  have hsend {text : String} : (sendSms E body.phone text).Within Cmd.asks fun _ => True := by
    rw [sendSms, sendTwilio]
    cases E.cfg.smsProvider with
    | stub => exact .pure trivial
    | twilio =>
      cases E.twilio body.phone text with
      | incompleteSettings | unreachable => exact .raise _
      | status code => exact .branch (.raise _) (.pure trivial)
  refine (Handler.Within.single rfl).bind fun found _ => ?_
  cases found with
  | none => exact .pure rfl
  | some found =>
    have hcode {n : Nat} : (some <$> issueCode E body.phone n).Within Cmd.asks fun _ => True :=
      hissue.map fun _ _ => trivial
    refine .branch (.pure rfl) (.bind (.tryCatch hcode fun e => ?_) fun code _ => ?_)
    · cases e with
      | otpCooldownError => exact .pure trivial
      | _ => exact .raise _
    · cases code with
      | none => exact .pure rfl
      | some code =>
        refine .bind (.tryCatch hsend fun e => ?_) fun _ _ => .pure rfl
        cases e <;> exact .raise _

/-- **The statements of an authentication route.** -/
theorem AuthRoute.emits (route : AuthRoute) :
    Keeps (EmitsAuth E draws route) (EmitsAuthEnd E draws route) [] []
      (route.handle E draws []) := by
  cases route with
  | register => exact register_emits
  | login => exact login_emits
  | requestOtp =>
    refine (requestOtp_within []).keeps (fun log' r hr => ?_) fun _ _ => .error
    obtain ⟨response, pending⟩ := r
    obtain ⟨rfl, hr⟩ := hr
    exact .silent hr
  | verifyOtp => exact verifyOtp_emits
  | refresh => exact refresh_emits
  | logout => exact logout_emits

end

/-! ## Jobs -/

/-- The responses that a job has sent. -/
def responses (log : Log) : List Response := log.filterMap (·.cmd.response)

/-- The commits and rollbacks of a job. -/
def endings (log : Log) : Log := log.filter (·.cmd.ends)

/-- A request executes its statements before the transaction ends, which it does once, as it
answers once. -/
structure Performs (S : Log → List Write → Write → Prop)
    (G : Log → List Write → TokenResponse → Prop)
    (log : Log) (ws : List Write) (c : Cmd β) : Prop where
  statement : ∀ wr, c.statement = some wr → S log ws wr ∧ endings log = []
  response : ∀ r, c.response = some r →
    responses log = [] ∧ ∀ pair, r.tokens = some pair → G log ws pair
  ending : c.ends = true → endings log = []

/-- The end of a request: it has answered, and its transaction is over. -/
def PerformsEnd : Ending Response := fun log ws r =>
  ∃ response, r = .ok response ∧ responses log = [response] ∧ (endings log).length = 1 ∧ ws = []

theorem Keeps.imp_of_grows {I I' : Assertion} {Q Q' : Ending α} {log : Log} {ws : List Write}
    {p : Prog Cmd Exn α} (h : Keeps I Q log ws p)
    (hI : ∀ log' ws {β : Type} (c : Cmd β), log <+: log' → I log' ws c → I' log' ws c)
    (hQ : ∀ log' ws r, log <+: log' → Q log' ws r → Q' log' ws r) : Keeps I' Q' log ws p :=
  fun t ht => ((h t ht).and_grows List.prefix_rfl).imp (fun _ _ _ c H => hI _ _ c H.1 H.2)
    fun _ _ _ H => hQ _ _ _ H.1 H.2

section
variable {E : Env} {S : Log → List Write → Write → Prop}
  {G : Log → List Write → TokenResponse → Prop}
variable {log : Log} {ws : List Write}

theorem responses_snoc (log : Log) (e : Event Cmd) :
    responses (log ++ [e]) = responses log ++ e.cmd.response.toList := by
  rw [responses, List.filterMap_append]
  cases he : e.cmd.response <;> simp [responses, he]

theorem endings_snoc (log : Log) (e : Event Cmd) :
    endings (log ++ [e]) = endings log ++ if e.cmd.ends then [e] else [] := by
  rw [endings, List.filter_append]
  cases he : e.cmd.ends <;> simp [endings, he]

/-- A part of the program that issues the commands of a route. -/
theorem Keeps.data {Q : Ending α} {p : Prog Cmd Exn α} (h : Keeps (Emits S) Q [] [] p) :
    Keeps (Performs S G) (fun log ws r => responses log = [] ∧ endings log = [] ∧ Q log ws r) [] []
      p := by
  have hdata {log : Log} (hl : ∀ e ∈ log, e.cmd.isData = true) :
      responses log = [] ∧ endings log = [] := by
    refine ⟨List.filterMap_eq_nil_iff.mpr fun e he => ?_, List.filter_eq_nil_iff.mpr fun e he => ?_⟩
    · obtain ⟨β, c, b⟩ := e
      have hc : c.isData = true := hl _ he
      cases c <;> first | rfl | cases hc
    · rw [(Cmd.isData_ends (hl e he)).1]
      exact Bool.false_ne_true
  intro t ht
  refine ((h t ht).and_events (F := fun c => c.isData = true) (fun _ _ _ c hc => hc.data)
    fun e he => nomatch he).imp (fun log t β c hc => ?_) fun log t r hr => ?_
  · obtain ⟨hl, hc⟩ := hc
    refine ⟨fun wr hwr => ⟨hc.statement wr hwr, (hdata hl).2⟩, fun r hr => ?_, fun hends => ?_⟩
    · have hnone : c.response = none := by
        have hdata := hc.data
        cases c <;> first | rfl | cases hdata
      cases hnone.symm.trans hr
    · rw [(Cmd.isData_ends hc.data).1] at hends
      cases hends
  · exact ⟨(hdata hr.1).1, (hdata hr.1).2, hr.2⟩

theorem Exn.response_tokens (e : Exn) : e.response.tokens = none := by
  cases e <;> rfl

theorem Performs.respond {r : Response} (hr : responses log = [])
    (hG : ∀ pair, r.tokens = some pair → G log ws pair) : Performs S G log ws (.respond r) where
  statement wr h := by
    cases h
  response r' h := by
    cases h
    exact ⟨hr, hG⟩
  ending h := by
    cases h

theorem Performs.end {c : Cmd β} (hs : c.statement = none) (hr : c.response = none)
    (he : endings log = []) : Performs S G log ws c where
  statement wr h := by
    cases hs.symm.trans h
  response r h := by
    cases hr.symm.trans h
  ending _ := he

/-- What the rest of the request does with the outcome of its route. -/
theorem getDb_performs {route : Handler Response}
    (h : Keeps (Emits S) (EmitsEnd S G) [] [] (route [])) :
    Keeps (Performs S G) PerformsEnd [] [] (getDb route) := by
  refine getDb_keeps h.data (fun log ws e hQ => ?_) fun log ws response pending hQ => ?_
  · obtain ⟨hr, he, _⟩ := hQ
    refine .rollback (.end rfl rfl he) (.respond (.respond ?_ fun pair hp => ?_) (.pure ?_))
    · rw [responses_snoc, hr]
      rfl
    · cases e.response_tokens.symm.trans hp
    · refine ⟨_, rfl, ?_, ?_, rfl⟩
      · rw [responses_snoc, responses_snoc, hr]
        rfl
      · rw [endings_snoc, endings_snoc, he]
        rfl
  · obtain ⟨hr, he, hend⟩ := hQ
    obtain ⟨hG, hp⟩ := hend response pending rfl
    refine .respond (.respond hr fun pair => hG log pair (.refl log)) ?_
    have he' : endings (log ++ [⟨_, .respond response, ()⟩]) = [] := by
      rw [endings_snoc, he]
      rfl
    have hr' : responses (log ++ [⟨_, .respond response, ()⟩]) = [response] := by
      rw [responses_snoc, hr]
      rfl
    generalize hlog : log ++ [⟨_, .respond response, ()⟩] = log₁ at he' hr'
    -- the end of the transaction, whether or not a statement was executed before it
    have hcommit {log₂ : Log} {ws : List Write} (he : endings log₂ = [])
        (hr : responses log₂ = [response]) :
        Keeps (Performs S G) PerformsEnd log₂ ws (.cmd .commit fun _ => .pure response) := by
      refine .commit (.end rfl rfl he) (.pure ⟨_, rfl, ?_, ?_, rfl⟩)
      · rw [responses_snoc, hr]
        rfl
      · rw [endings_snoc, he]
        rfl
    rcases hp with rfl | ⟨w, rfl, hw⟩
    · exact hcommit he' hr'
    · have hexecuted (r : Except Exn Unit) : endings (log₁ ++ [⟨_, .execute w, r⟩]) = [] ∧
          responses (log₁ ++ [⟨_, .execute w, r⟩]) = [response] := by
        rw [endings_snoc, he', responses_snoc, hr']
        exact ⟨rfl, rfl⟩
      refine .execute ⟨fun wr hwr => ?_, fun r hr => ?_, fun _ => he'⟩ (fun e => ?_)
        (fun db _ => ?_) ?_
      · cases hwr
        exact ⟨hw _ (hlog ▸ (Log.Extends.refl log).snoc rfl), he'⟩
      · cases hr
      · obtain ⟨he, hr⟩ := hexecuted (.error e)
        refine .rollback (.end rfl rfl he) (.pure ⟨_, rfl, ?_, ?_, rfl⟩)
        · rw [responses_snoc, hr]
          rfl
        · rw [endings_snoc, he]
          rfl
      · exact hcommit (hexecuted _).1 (hexecuted _).2
      · exact hcommit (hexecuted _).1 (hexecuted _).2

/-- **The statements and the token pairs of a request.** -/
theorem Request.performs (r : Request) :
    Keeps (Performs (r.Issues E) (r.Grants E)) PerformsEnd [] [] (r.prog E) := by
  refine getDb_performs ?_
  cases r with
  | auth route draws => exact route.emits
  | user credentials route draws =>
    refine getCurrentUser_keeps Emits.reads (fun _ => .error) fun now payload user hd ht ha => ?_
    have hacts {log : Log}
        (hl : [⟨_, .utcnow, now⟩, ⟨_, .select (.userById payload.sub), some user⟩]
        <+: log) : Acts E credentials log ⟨payload.sub, user⟩ :=
      ⟨⟨now, payload, hl.subset (by simp), hd, ht, rfl⟩, hl.subset (by simp), ha⟩
    refine (route.emits _).imp_of_grows (fun log ws _ c hl h => ⟨h.data, fun wr hwr => ?_⟩) ?_
    · exact ⟨_, hacts hl, h.statement wr hwr⟩
    · intro log ws r hl h response pending hr
      obtain ⟨htokens, hp⟩ := h response pending hr
      refine ⟨htokens, hp.imp_right fun ⟨w, hw, hS⟩ => ⟨w, hw, fun log' hl' => ?_⟩⟩
      exact ⟨_, hacts (hl.trans hl'.isPrefix), hS log' hl'⟩

/-- A job that is no request neither executes statements nor answers. -/
def Job.Performs (E : Env) (log : Log) (ws : List Write) (c : Cmd β) : Job → Prop
  | .http r => Rawbin.Performs (r.Issues E) (r.Grants E) log ws c
  | _ => c.statement = none ∧ c.response = none

/-- A request has answered once; every job holds no locks when it has ended. -/
def Job.PerformsEnd (log : Log) (ws : List Write) (r : Except Exn Outcome) : Job → Prop
  | .http _ => ∃ response, r = .ok (.response response) ∧ responses log = [response] ∧
    (endings log).length = 1 ∧ ws = []
  | _ => (∃ outcome, r = .ok outcome) ∧ ws = []

theorem loadThresholds_quiet {d : Uuid} :
    Keeps (fun _ _ c => c.statement = none ∧ c.response = none)
    (fun _ ws r => (∃ t, r = .ok t) ∧ ws = []) [] [] (loadThresholds d) := by
  have hstore {thresholds : Thresholds} {log : Log} :
      Keeps (fun _ _ c => c.statement = none ∧ c.response = none)
        (fun _ ws r => (∃ t, r = .ok t) ∧ ws = []) log [] (.cmd (.attempt (.redis
          (.setex (.alertConfig d) configCacheTtl thresholds))) fun _ => .pure thresholds) :=
    .quiet rfl ⟨rfl, rfl⟩ fun _ => .pure ⟨⟨_, rfl⟩, rfl⟩
  have hload {log : Log} : Keeps (fun _ _ c => c.statement = none ∧ c.response = none)
      (fun _ ws r => (∃ t, r = .ok t) ∧ ws = []) log [] ((thresholdsFromDb d).bind fun thresholds =>
        .cmd (.attempt (.redis (.setex (.alertConfig d) configCacheTtl thresholds))) fun _ =>
          .pure thresholds) := by
    refine .quiet rfl ⟨rfl, rfl⟩ fun row => ?_
    cases row with
    | error => exact .quiet rfl ⟨rfl, rfl⟩ fun _ => hstore
    | ok row =>
      refine .quiet rfl ⟨rfl, rfl⟩ fun committed => ?_
      cases committed with
      | ok => exact hstore
      | error => exact .quiet rfl ⟨rfl, rfl⟩ fun _ => hstore
  refine .quiet rfl ⟨rfl, rfl⟩ fun cached => ?_
  cases cached with
  | error => exact hload
  | ok cached =>
    cases cached with
    | none => exact hload
    | some thresholds => exact .pure ⟨⟨_, rfl⟩, rfl⟩

theorem verifyCode_quiet {phone code : String} :
    Keeps (fun _ _ c => c.statement = none ∧ c.response = none)
      (fun _ ws r => (∃ b, r = .ok b) ∧ ws = []) [] [] (verifyCode E phone code []) := by
  have h : Keeps (Emits fun _ _ _ => False) (fun _ ws r => (∃ b, r = .ok b) ∧ ws = []) [] []
      ((verifyCode E phone code []).bind .pure) :=
    verifyCode_emits (fun log => .pure ⟨⟨_, rfl⟩, rfl⟩) fun log _ => .pure ⟨⟨_, rfl⟩, rfl⟩
  rw [Prog.bind_pure] at h
  refine h.imp_of_grows (fun log ws _ c _ hc => ?_) fun _ _ _ _ h => h
  have hdata := hc.data
  cases c with
  | execute wr => exact (hc.statement wr rfl).elim
  | select | redis | utcnow | txnow => exact ⟨rfl, rfl⟩
  | _ => cases hdata

/-- **What a job does** at each of its commands, and how it ends. -/
theorem Job.performs (j : Job) : Keeps (fun log ws c => j.Performs E log ws c)
    (fun log ws r => j.PerformsEnd log ws r) [] [] (j.prog E) := by
  cases j with
  | http r =>
    refine r.performs.bind (fun log ws b h => .pure ?_) fun log ws e h => ?_
    · obtain ⟨response, hr, h⟩ := h
      cases hr
      exact ⟨_, rfl, h⟩
    · obtain ⟨response, hr, _⟩ := h
      cases hr
  | loadThresholds d =>
    refine loadThresholds_quiet.bind (fun log ws b h => .pure ⟨⟨_, rfl⟩, h.2⟩) fun log ws e h => ?_
    obtain ⟨⟨t, ht⟩, _⟩ := h
    cases ht
  | verifyCode phone code =>
    refine verifyCode_quiet.bind (fun log ws b h => .pure ⟨⟨_, rfl⟩, h.2⟩) fun log ws e h => ?_
    obtain ⟨⟨b, hb⟩, _⟩ := h
    cases hb

end

/-! ## Runs -/

abbrev JobThread := Thread Cmd Session Exn Job Outcome

section
variable {E : Env} {ok : Pool → Label Choice Job ℕ → Prop} {w₀ : World} {c : Pool} {t : JobThread}

theorem run_performs (H : (backend E).Run ok ⟨w₀, []⟩ c) (ht : t ∈ c.threads) {β : Type}
    {cm : Cmd β}
    {k : β → Prog Cmd Exn Outcome} (hp : t.prog = .cmd cm k) :
    t.req.Performs E t.log t.sess.written cm :=
  run_keeps H (I := fun j _ log ws c => j.Performs E log ws c)
    (fun _ j _ => j.performs.mono fun _ _ _ _ => trivial) ht hp

/-- The statement that a job is about to execute. -/
theorem run_issues {w : Write} (H : (backend E).Run ok ⟨w₀, []⟩ c) (ht : t ∈ c.threads) {β : Type}
    {cm : Cmd β} {k : β → Prog Cmd Exn Outcome} (hp : t.prog = .cmd cm k)
    (hw : cm.statement = some w) : t.req.Issues E t.log t.sess.written w := by
  have h := run_performs H ht hp
  cases hreq : t.req with
  | http r =>
    rw [hreq] at h
    exact (h.statement w hw).1
  | _ =>
    rw [hreq] at h
    cases h.1.symm.trans hw

/-- **The statements of a transaction**: each is an expected one, after the ones before it. -/
theorem run_written {before after : List Write} {w : Write} (H : (backend E).Run ok ⟨w₀, []⟩ c)
    (ht : t ∈ c.threads) (hw : t.sess.written = before ++ w :: after) :
    ∃ log, log <+: t.log ∧ t.req.Issues E log before w := by
  have hne {ws : List Write} {after : List Write} : ws ++ w :: after ≠ [] := by simp
  induction H generalizing t after with
  | refl => cases ht
  | @step c l c' H hok hs ih =>
    obtain ⟨i, hi⟩ := List.getElem?_of_mem ht
    rcases hs.getElem?_cases hi with ⟨hold, _⟩ | ⟨r, _, _, rfl⟩ |
      ⟨x, t, β, cm, k, rfl, hold, hp, hb, rfl, hst⟩
    · exact ih (List.mem_of_getElem? hold) hw
    · exact absurd hw.symm hne
    · have ht := List.mem_of_getElem? hold
      rcases cm.exec_written x t.sess c.state with h | h | ⟨wr, hwr, _, h⟩
      · obtain ⟨log, hl, hI⟩ := ih ht (h.symm.trans hw)
        exact ⟨log, hl.trans (List.prefix_append ..), hI⟩
      · exact absurd (hw.symm.trans h) hne
      · have hws : t.sess.written ++ [wr] = before ++ w :: after := h.symm.trans hw
        rcases List.eq_nil_or_concat after with rfl | ⟨after, w', rfl⟩
        · obtain ⟨rfl, hwr'⟩ := List.append_inj' hws rfl
          obtain rfl := List.singleton_inj.mp hwr'
          exact ⟨t.log, List.prefix_append .., run_issues H ht hp hwr⟩
        · rw [List.concat_eq_append, ← List.cons_append, ← List.append_assoc] at hws
          obtain ⟨log, hl, hI⟩ := ih ht (List.append_inj' hws rfl).1
          exact ⟨log, hl.trans (List.prefix_append ..), hI⟩

end

end Rawbin
