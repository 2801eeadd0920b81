import Rawbin.Backend

/-!
# What a route does by itself

A route reads, executes statements, asks Redis and the clock. It leaves the response and the end
of the transaction to `get_db`, and no exception that it raises is answered as a success.
-/

namespace Rawbin

def Response.isSuccess (r : Response) : Bool := 200 ≤ r.status && r.status < 300

/-- The client is not told that the request succeeded. -/
def Exn.Refuses (e : Exn) : Prop := e.response.isSuccess = false

/-- The exceptions of bcrypt are no successes. -/
structure Crypto.Refuses (C : Crypto) : Prop where
  hash : ∀ salt plain e, C.bcryptHash salt plain = .error e → e.Refuses
  verify : ∀ plain hashed e, C.bcryptVerify plain hashed = .error e → e.Refuses

namespace Cmd

/-- The command neither answers nor ends the transaction. -/
def isData : {β : Type} → Cmd β → Bool
  | _, .select _ => true
  | _, .execute _ => true
  | _, .utcnow => true
  | _, .txnow => true
  | _, .redis _ => true
  | _, _ => false

/-- The command can be answered so. -/
def Answers (c : Cmd β) (b : β) : Prop := ∃ x t w, (c.exec x t w).1 = b

end Cmd

theorem Write.refuses {w : Write} {db : Db} {e : Exn} (h : w.violates db = some e) : e.Refuses := by
  have hcases : e = .integrityError ∨ e = .staleDataError := by
    cases w <;> simp only [Write.violates] at h <;> grind
  rcases hcases with rfl | rfl <;> rfl

theorem Cmd.answers_execute {w : Write} {r : Except Exn Unit} (h : (Cmd.execute w).Answers r) :
    r = .ok () ∨ ∃ e, r = .error e ∧ e.Refuses := by
  obtain ⟨x, t, s, rfl⟩ := h
  simp only [Cmd.exec]
  split
  · exact .inr ⟨_, rfl, w.refuses ‹_›⟩
  · split <;> exact .inl rfl

/-- What the program does by itself. -/
def Plain : Prog Cmd Exn α → Prop
  | .pure _ => True
  | .raise e => e.Refuses
  | .cmd c k => c.isData = true ∧ ∀ b, c.Answers b → Plain (k b)

/-- What the handler does by itself, whatever is pending. -/
def Handler.Plain (h : Handler α) : Prop := ∀ pending, Rawbin.Plain (h pending)

/-! ## Commands and exceptions of a handler -/

/-- The command is one of a route, and Redis is asked for keys with `K` only. -/
def Cmd.GoesTo (K : RedisKey → Prop) : {β : Type} → Cmd β → Prop
  | _, .redis c => ∀ k ∈ c.keys, K k
  | _, c => c.isData = true

theorem Cmd.GoesTo.isData {K : RedisKey → Prop} {c : Cmd β} (h : c.GoesTo K) : c.isData = true := by
  cases c with
  | redis => rfl
  | _ => exact h

/-- Whatever is pending: while the answers are allowed ones, the commands go to keys with `K`, the
exception has `P` and the result has `Q`. -/
def Handler.Meets (A : {β : Type} → Cmd β → β → Prop) (K : RedisKey → Prop) (P : Exn → Prop)
    (Q : α → Prop) (h : Handler α) : Prop :=
  ∀ pending, (h pending).Meets A (Cmd.GoesTo K) P fun r => Q r.1

/-- What may be raised on any route: an answer that is an error, but no 500; what a refused
statement raises, and what a second active cycle does. -/
structure Common (A : {β : Type} → Cmd β → β → Prop) (P : Exn → Prop) : Prop where
  http {status : Nat} {detail : String} {headers : List (String × String)}
    (h : 400 ≤ status ∧ status < 600 ∧ status ≠ 500) : P (.http status detail headers)
  refused {w : Write} {e : Exn} (h : A (.execute w) (.error e)) : P e
  many {d : Uuid} {rows : List (Uuid × CompostCycle)} (h : A (.select (.activeCycles d)) rows)
    (hrows : 1 < rows.length) : P .multipleResultsFound

namespace Handler.Meets

variable {A : {β : Type} → Cmd β → β → Prop} {K : RedisKey → Prop} {P P' : Exn → Prop}
variable {Q : α → Prop} {R : β → Prop} {h h' : Handler α}

theorem pure {a : α} : Meets A K P (fun _ => True) (Pure.pure a) := fun _ => trivial

theorem answer {a : α} (ha : Q a) : Meets A K P Q (Pure.pure a) := fun _ => ha

/-- The rest knows what holds of the result. -/
theorem bind_of {f : α → Handler β} (H : h.Meets A K P Q) (hf : ∀ a, Q a → (f a).Meets A K P R) :
    (h >>= f).Meets A K P R := fun pending => (H pending).bind fun r hr => hf r.1 hr r.2

theorem bind {f : α → Handler β} (H : h.Meets A K P Q) (hf : ∀ a, (f a).Meets A K P R) :
    (h >>= f).Meets A K P R := H.bind_of fun a _ => hf a

theorem map {f : α → β} (H : h.Meets A K P Q) : (f <$> h).Meets A K P fun _ => True :=
  H.bind fun _ => pure

theorem raise {e : Exn} (he : P e) : (throw e : Handler α).Meets A K P Q := fun _ => he

theorem tryCatch {f : Exn → Handler α} (H : h.Meets A K P Q)
    (hf : ∀ e, P e → (f e).Meets A K P' Q) : (MonadExcept.tryCatch h f).Meets A K P' Q :=
  fun pending => (H pending).tryCatch fun e he => hf e he pending

theorem select {q : Query β} : (Handler.select q).Meets A K P fun _ => True :=
  fun _ => ⟨rfl, fun _ _ => trivial⟩

/-- The rest knows that the answer is an allowed one. -/
theorem query {q : Query β} {f : β → Handler α} (hf : ∀ b, A (.select q) b → (f b).Meets A K P Q) :
    (Handler.select q >>= f).Meets A K P Q := fun pending => ⟨rfl, fun b hb => hf b hb pending⟩

theorem redis {c : RedisCmd β} (hc : ∀ k ∈ c.keys, K k) :
    (Handler.redis c).Meets A K P fun _ => True := fun _ => ⟨hc, fun _ _ => trivial⟩

theorem utcnow : Handler.utcnow.Meets A K P fun _ => True := fun _ => ⟨rfl, fun _ _ => trivial⟩

theorem txnow : Handler.txnow.Meets A K P fun _ => True := fun _ => ⟨rfl, fun _ _ => trivial⟩

theorem add {w : Write} : (Handler.add w).Meets A K P fun _ => True := fun _ => trivial

theorem flushAll (hP : Common A P) (ws : List Write) :
    (Handler.flushAll ws).Meets A (Cmd.GoesTo K) P fun _ => True := by
  induction ws with
  | nil => trivial
  | cons w ws ih =>
    refine ⟨rfl, fun r hr => ?_⟩
    cases r with
    | ok => exact ih
    | error e => exact hP.refused hr

theorem flush (hP : Common A P) : Handler.flush.Meets A K P fun _ => True :=
  fun pending => (flushAll hP pending).bind fun _ _ => trivial

theorem branch {c : Prop} [Decidable c] (H : h.Meets A K P Q) (H' : h'.Meets A K P Q) :
    (if c then h else h').Meets A K P Q := by
  split
  · exact H
  · exact H'

theorem when {c : Prop} [Decidable c] {h : Handler Unit} (H : h.Meets A K P fun _ => True) :
    (Handler.when c h).Meets A K P fun _ => True := branch H pure

theorem raiseIf {c : Prop} [Decidable c] {status : Nat} {detail : String}
    (hs : P (.httpException status detail)) :
    (Handler.raiseIf c status detail).Meets A K P fun _ => True :=
  when (raise hs)

theorem ofExcept {r : Except Exn α} (h : ∀ e, r = .error e → P e) :
    (Handler.ofExcept r).Meets A K P fun _ => True := by
  cases r with
  | ok => exact pure
  | error e => exact raise (h e rfl)

/-- `scalar_one_or_none()` on the active cycles of a device. -/
theorem selectActive (hP : Common A P) {d : Uuid} {f : Option (Uuid × CompostCycle) → Handler β}
    (hf : ∀ cycle, (f cycle).Meets A K P R) : (Handler.select (.activeCycles d) >>= fun rows =>
      Handler.scalarOneOrNone rows >>= f).Meets A K P R := by
  refine query fun rows hrows pending => ?_
  match rows with
  | [] => exact hf none pending
  | [cycle] => exact hf (some cycle) pending
  | _ :: _ :: _ => exact hP.many hrows (Nat.one_lt_succ_succ _)

end Handler.Meets

/-! ## Parts of routes -/

section
open Handler.Meets

variable {A : {β : Type} → Cmd β → β → Prop} {K : RedisKey → Prop} {P : Exn → Prop} {E : Env}
variable {user : CurrentUser} {draws : Draws}

theorem isMember_meets {d u : Uuid} : (DeviceAccess.isMember d u).Meets A K P fun _ => True :=
  select.bind fun _ => pure

theorem removeMember_meets {d u : Uuid} :
    (DeviceAccess.removeMember d u).Meets A K P fun _ => True := by
  refine select.bind fun link => ?_
  cases link with
  | none => exact pure
  | some _ => exact add

theorem verifyCode_meets {phone code : String} (hcode : K (.otpCode phone))
    (hattempts : K (.otpAttempts phone)) : (verifyCode E phone code).Meets A K P fun _ => True := by
  have hburn : (burnCode phone).Meets A K P fun _ => True :=
    redis (List.forall_mem_cons.mpr ⟨hcode, List.forall_mem_singleton.mpr hattempts⟩)
  refine bind (redis (List.forall_mem_singleton.mpr hcode)) fun stored => ?_
  cases stored with
  | none => exact pure
  | some stored =>
    have hcounter := List.forall_mem_singleton.mpr hattempts
    refine bind (redis hcounter) fun _ => branch (hburn.bind fun _ => pure) (branch ?_ ?_)
    · exact hburn.bind fun _ => pure
    · exact bind (redis hcounter) fun _ => (when hburn).bind fun _ => pure

theorem updateUser_meets {id : Uuid} {patch : UserPatch} :
    (updateUser id patch).Meets A K P fun _ => True := when add

theorem updateDevice_meets {id : Uuid} {patch : DevicePatch} :
    (updateDevice id patch).Meets A K P fun _ => True := when add

theorem orNow_meets {t : Option Time} : (orNow t).Meets A K P fun _ => True := by
  cases t with
  | none => exact utcnow
  | some => exact pure

theorem readingAge_meets {latest : Option (Time × SensorReading)} :
    (readingAge latest).Meets A K P fun _ => True := by
  cases latest with
  | none => exact pure
  | some => exact utcnow.bind fun _ => pure

theorem historyReadings_meets {d : Uuid} {interval : Interval} {start stop : Time} :
    (historyReadings d interval start stop).Meets A K P fun _ => True := by
  cases interval <;> exact map select

theorem downloadUrl_meets {available : Bool}
    (hurl : E.presignedUrl firmwareObjectKey E.cfg.otaPresignedUrlExpirySeconds = none →
      P (.httpException 500 "Failed to generate secure download link.")) :
    (downloadUrl E available).Meets A K P fun _ => True := by
  refine branch (bind (Q := fun _ => True) ?_ fun _ => pure) pure
  rw [generatePresignedUrl]
  cases hnone : E.presignedUrl firmwareObjectKey E.cfg.otaPresignedUrlExpirySeconds with
  | none => exact raise (hurl hnone)
  | some => exact pure

theorem issueCode_meets {phone : String} {n : Nat} (hcode : K (.otpCode phone))
    (hattempts : K (.otpAttempts phone)) (hcooldown : K (.otpCooldown phone))
    (hraise : P .otpCooldownError) : (issueCode E phone n).Meets A K P fun _ => True :=
  bind (redis (List.forall_mem_singleton.mpr hcooldown)) fun _ =>
    (when (raise hraise)).bind fun _ => bind (redis (List.forall_mem_singleton.mpr hcode)) fun _ =>
      bind (redis (List.forall_mem_singleton.mpr hattempts)) fun _ =>
        bind (redis (List.forall_mem_singleton.mpr hcooldown)) fun _ => pure

theorem sendSms_meets {recipient body : String} (hrejected : P .smsDeliveryError)
    (hunreachable : E.twilio recipient body = .unreachable → P .httpxError) :
    (sendSms E recipient body).Meets A K P fun _ => True := by
  rw [sendSms]
  cases E.cfg.smsProvider with
  | stub => exact pure
  | twilio =>
    show (sendTwilio E recipient body).Meets A K P fun _ => True
    rw [sendTwilio]
    cases hanswer : E.twilio recipient body with
    | incompleteSettings => exact raise hrejected
    | unreachable => exact raise (hunreachable hanswer)
    | status code => exact branch (raise hrejected) pure

/-- An end time is stamped only where the status changes too. -/
theorem annotated_ne_of_needsEndTime {body : CompostCycleUpdate} {cycle : CompostCycle}
    (h : needsEndTime body cycle = true) : annotated body cycle ≠ {} := by
  simp only [needsEndTime, Bool.and_eq_true, decide_eq_true_eq] at h
  obtain ⟨⟨⟨hs, hne⟩, _⟩, _⟩ := h
  refine fun hempty => hne ?_
  have hstatus : (annotated body cycle).status = none := congrArg (·.status) hempty
  simp only [annotated, hs, Option.bind_some, changed] at hstatus
  by_contra hne
  rw [if_neg (Ne.symm hne)] at hstatus
  cases hstatus

theorem stampedPatch_meets {body : CompostCycleUpdate} {cycle : CompostCycle} :
    (stampedPatch body cycle).Meets A K P fun patch => patch ≠ {} → annotated body cycle ≠ {} := by
  rw [stampedPatch]
  split
  · rename_i hneeds
    exact utcnow.bind fun _ => answer fun _ => annotated_ne_of_needsEndTime hneeds
  · exact answer id

theorem verifyDeviceHmac_refuses {secretEnc nonce response : String} {e : Exn}
    (h : verifyDeviceHmac E.crypto secretEnc nonce response = .error e) : e.Refuses := by
  rw [verifyDeviceHmac] at h
  split at h
  · cases h
  · rw [compareDigest] at h
    split at h <;> cases h
    rfl

variable (hP : Common A P)
include hP

theorem getCurrentUser_meets {credentials : String} :
    (getCurrentUser E credentials).Meets A K P fun _ => True := by
  have hraise : P credentialsException := hP.http (by decide)
  refine utcnow.bind fun now => ?_
  cases decodeToken E.crypto now credentials with
  | none => exact raise hraise
  | some payload =>
    refine branch (raise hraise) (select.bind fun user => ?_)
    cases user with
    | none => exact raise hraise
    | some user => exact branch pure (raise hraise)

theorem assertDeviceMember_meets {d u : Uuid} :
    (DeviceAccess.assertDeviceMember d u).Meets A K P fun _ => True := by
  refine select.bind fun device => ?_
  cases device with
  | none => exact raise (hP.http (by decide))
  | some device => exact isMember_meets.bind fun _ => branch pure (raise (hP.http (by decide)))

theorem addMember_meets {d u : Uuid} : (DeviceAccess.addMember d u).Meets A K P fun _ => True :=
  isMember_meets.bind fun _ => branch pure
    (txnow.bind fun _ => add.bind fun _ => (flush hP).bind fun _ => pure)

theorem issueTokenPair_meets {u : Uuid} : (issueTokenPair E u draws).Meets A K P fun _ => True := by
  have htoken {p : Time → Time → String} : (do
      let now ← .utcnow
      let iat ← .utcnow
      Pure.pure (p now iat) : Handler String).Meets A K P fun _ => True :=
    utcnow.bind fun _ => utcnow.bind fun _ => pure
  refine htoken.bind fun _ => htoken.bind fun _ => bind (Q := fun _ => True) ?_ fun _ => pure
  exact utcnow.bind fun _ => add.bind fun _ => flush hP

theorem newPhone_meets {body : UserPatchIn} : (newPhone body user).Meets A K P fun _ => True := by
  rw [newPhone]
  cases body.phone with
  | none => exact pure
  | some phone =>
    exact branch pure
      (select.bind fun _ => (raiseIf (hP.http (by decide))).bind fun _ => pure)

theorem challengedDevice_meets {body : PairingChallengeRequest} :
    (challengedDevice E body user draws).Meets A K P fun _ => True := by
  refine select.bind fun found => ?_
  cases found with
  | none =>
    exact txnow.bind fun _ => add.bind fun _ => (flush hP).bind fun _ =>
      (addMember_meets hP).bind fun _ => pure
  | some found =>
    exact isMember_meets.bind fun _ => (raiseIf (hP.http (by decide))).bind fun _ =>
      (when updateDevice_meets).bind fun _ => pure

theorem loadCycleWithAccess_meets {id u : Uuid} : (loadCycleWithAccess id u).Meets A K P
    fun cycle => A (.select (.cycleById id)) (some cycle) := by
  refine query fun cycle hcycle => ?_
  cases cycle with
  | none => exact raise (hP.http (by decide))
  | some cycle => exact (assertDeviceMember_meets hP).bind fun _ => answer hcycle

theorem attributedCycle_meets {d : Uuid} {cycleId : Option Uuid} :
    (attributedCycle d cycleId).Meets A K P fun _ => True := by
  cases cycleId with
  | none => exact selectActive hP fun _ => pure
  | some cycleId =>
    refine select.bind fun cycle => ?_
    cases cycle with
    | none => exact raise (hP.http (by decide))
    | some => exact pure

/-! ## Routes -/

/-- The exceptions that only the input of a request explains, or a library, while the answers are
allowed ones. -/
def Request.Raises (E : Env) (A : {β : Type} → Cmd β → β → Prop) : Request → Exn → Prop
  | .auth (.register body) draws, e =>
    hashPassword E.crypto draws.bcryptSalt body.password = .error e
  | .auth (.login body) _, e => ∃ found, A (.select (.userByEmail body.email)) (some found) ∧
    verifyPassword E.crypto body.password found.2.passwordHash = .error e
  | .auth (.requestOtp body) _, e => e = .httpxError ∧
    ∃ text, E.twilio body.phone text = .unreachable
  | .user _ (.pairingConfirm body) _, e => ∃ secretEnc nonce,
    verifyDeviceHmac E.crypto secretEnc nonce body.hmacResponse = .error e
  | .user _ (.updateCycle id body) _, e => e = .responseValidationError ∧
    ∃ cycle, A (.select (.cycleById id)) (some cycle) ∧ annotated body cycle ≠ {}
  | .user _ (.getTelemetryHistory _ _ start stop) _, e => e = .typeError ∧
    (start.elim true (·.aware)) ≠ stop.elim true (·.aware)
  | .user _ (.checkOtaUpdate _) _, e =>
    e = .httpException 500 "Failed to generate secure download link." ∧
      E.presignedUrl firmwareObjectKey E.cfg.otaPresignedUrlExpirySeconds = none
  | _, _ => False

/-- The phone whose code a request is about. -/
def AuthRoute.codePhone? : AuthRoute → Option String
  | .requestOtp body => some body.phone
  | .verifyOtp body => some body.phone
  | _ => none

/-- The keys of Redis that a request may go to: those of devices, or the three of the phone that it
names. -/
def Request.GoesTo : Request → RedisKey → Prop
  | .user .., key => (∃ d, key = .challenge d) ∨ ∃ d, key = .alertConfig d
  | .auth route _, key => ∃ phone ∈ route.codePhone?,
    key = .otpCode phone ∨ key = .otpAttempts phone ∨ key = .otpCooldown phone

theorem pairingConfirm_meets {body : PairingConfirmRequest}
    (hnonce : K (.challenge body.deviceId)) (hhmac : ∀ secretEnc nonce e,
      verifyDeviceHmac E.crypto secretEnc nonce body.hmacResponse = .error e → P e) :
    (pairingConfirm E body user).Meets A K P (·.isSuccess = true) := by
  refine (assertDeviceMember_meets hP).bind fun _ => (raiseIf (hP.http (by decide))).bind fun _ =>
    bind (redis (List.forall_mem_singleton.mpr hnonce)) fun nonce => ?_
  cases nonce with
  | none => exact raise (hP.http (by decide))
  | some nonce =>
    refine (raiseIf (hP.http (by decide))).bind fun _ => (ofExcept (hhmac _ _)).bind fun _ =>
      (raiseIf (hP.http (by decide))).bind fun _ => updateDevice_meets.bind fun _ => ?_
    exact bind (redis (List.forall_mem_singleton.mpr hnonce)) fun _ => utcnow.bind fun _ =>
      answer rfl

theorem shareDevice_meets {d : Uuid} {body : DeviceShareRequest} :
    (shareDevice d body user).Meets A K P (·.isSuccess = true) := by
  refine (assertDeviceMember_meets hP).bind fun _ => select.bind fun target => ?_
  cases target with
  | none => exact raise (hP.http (by decide))
  | some target => exact (addMember_meets hP).bind fun _ => select.bind fun _ => answer rfl

theorem putDeviceConfig_meets {d : Uuid} {body : DeviceConfigIn} (hcache : K (.alertConfig d)) :
    (putDeviceConfig d body user).Meets A K P (·.isSuccess = true) := by
  have hassign {cfg : Option DeviceConfig} :
      (assignConfig d body cfg).Meets A K P fun _ => True := by
    cases cfg with
    | none => exact add
    | some cfg => exact when add
  exact (assertDeviceMember_meets hP).bind fun _ => select.bind fun _ => hassign.bind fun _ =>
    (flush hP).bind fun _ => bind (redis (List.forall_mem_singleton.mpr hcache)) fun _ => answer rfl

theorem createCycle_meets {d : Uuid} {body : CompostCycleCreate} :
    (createCycle d body user draws).Meets A K P (·.isSuccess = true) :=
  (assertDeviceMember_meets hP).bind fun _ => selectActive hP fun _ =>
    (raiseIf (hP.http (by decide))).bind fun _ => orNow_meets.bind fun _ => txnow.bind fun _ =>
      add.bind fun _ => (flush hP).bind fun _ => answer rfl

theorem updateCycle_meets {id : Uuid} {body : CompostCycleUpdate}
    (hexpired : ∀ cycle, A (.select (.cycleById id)) (some cycle) → annotated body cycle ≠ {} →
      P .responseValidationError) :
        (updateCycle id body user).Meets A K P (·.isSuccess = true) := by
  refine (loadCycleWithAccess_meets hP).bind_of fun cycle hcycle =>
    stampedPatch_meets.bind_of fun patch hpatch => ?_
  split
  · exact answer rfl
  · rename_i hne
    exact txnow.bind fun _ => add.bind fun _ => (flush hP).bind fun _ =>
      raise (hexpired cycle hcycle (hpatch hne))

theorem createWasteLog_meets {d : Uuid} {body : WasteLogCreate} :
    (createWasteLog d body user draws).Meets A K P (·.isSuccess = true) :=
  (assertDeviceMember_meets hP).bind fun _ => (attributedCycle_meets hP).bind fun _ =>
    orNow_meets.bind fun _ => txnow.bind fun _ => add.bind fun _ => (flush hP).bind fun _ =>
      answer rfl

theorem getTelemetryHistory_meets {d : Uuid} {interval : Interval} {start stop : Option PyDatetime}
    (hle : start.elim true (·.aware) ≠ stop.elim true (·.aware) → P .typeError) :
    (getTelemetryHistory d interval start stop user).Meets A K P (·.isSuccess = true) := by
  refine (assertDeviceMember_meets hP).bind fun _ => utcnow.bind fun now =>
    (ofExcept fun e he => ?_).bind fun _ => (raiseIf (hP.http (by decide))).bind fun _ =>
      (raiseIf (hP.http (by decide))).bind fun _ => historyReadings_meets.bind fun _ => answer rfl
  rw [PyDatetime.le] at he
  split at he
  · cases he
  · rename_i hne
    cases he
    refine hle fun heq => hne ?_
    cases start <;> cases stop <;> exact heq.symm

/-- What a route of a user does. -/
theorem Route.meets (route : Route) {credentials : String}
    (hK : ∀ key, (Request.user credentials route draws).GoesTo key → K key)
    (hr : ∀ e, (Request.user credentials route draws).Raises E A e → P e) :
    (route.handle E user draws).Meets A K P (·.isSuccess = true) := by
  have hmember {d : Uuid} {f : Device → Handler Response}
      (h : ∀ device, (f device).Meets A K P (·.isSuccess = true)) :
      (DeviceAccess.assertDeviceMember d user.id >>= f).Meets A K P (·.isSuccess = true) :=
    (assertDeviceMember_meets hP).bind h
  have hchallenge (d : Uuid) : K (.challenge d) := hK _ (.inl ⟨d, rfl⟩)
  cases route with
  | createDemoDevice =>
    exact txnow.bind fun _ => add.bind fun _ => (flush hP).bind fun _ => (addMember_meets hP).bind
      fun _ => utcnow.bind fun _ => add.bind fun _ => answer rfl
  | pairingChallenge =>
    exact (challengedDevice_meets hP).bind fun d => utcnow.bind fun _ =>
      bind (redis (List.forall_mem_singleton.mpr (hchallenge d))) fun _ => answer rfl
  | pairingConfirm =>
    exact pairingConfirm_meets hP (hchallenge _) fun secretEnc nonce e he =>
      hr e ⟨secretEnc, nonce, he⟩
  | provisionDeviceSecret => exact hmember fun _ => updateDevice_meets.bind fun _ => answer rfl
  | listDevices => exact select.bind fun _ => answer rfl
  | shareDevice => exact shareDevice_meets hP
  | listMembers => exact hmember fun _ => select.bind fun _ => answer rfl
  | removeMember =>
    exact hmember fun _ => select.bind fun _ => (raiseIf (hP.http (by decide))).bind fun _ =>
      removeMember_meets.bind fun _ => answer rfl
  | getDeviceConfig => exact hmember fun _ => select.bind fun _ => answer rfl
  | putDeviceConfig d => exact putDeviceConfig_meets hP (hK _ (.inr ⟨d, rfl⟩))
  | createCycle => exact createCycle_meets hP
  | listCycles => exact hmember fun _ => select.bind fun _ => answer rfl
  | getCycle => exact (loadCycleWithAccess_meets hP).bind fun _ => answer rfl
  | updateCycle => exact updateCycle_meets hP fun cycle hcycle hne => hr _ ⟨rfl, cycle, hcycle, hne⟩
  | createWasteLog => exact createWasteLog_meets hP
  | listWasteLogs => exact hmember fun _ => select.bind fun _ => select.bind fun _ => answer rfl
  | getMe => exact answer rfl
  | patchMe =>
    exact (newPhone_meets hP).bind fun _ => updateUser_meets.bind fun _ => (flush hP).bind fun _ =>
      answer rfl
  | updatePushToken => exact updateUser_meets.bind fun _ => (flush hP).bind fun _ => answer rfl
  | deviceSnapshot =>
    exact hmember fun _ => select.bind fun _ => readingAge_meets.bind fun _ => answer rfl
  | listAlerts => exact hmember fun _ => select.bind fun _ => select.bind fun _ => answer rfl
  | getTelemetryHistory => exact getTelemetryHistory_meets hP fun h => hr _ ⟨rfl, h⟩
  | checkOtaUpdate =>
    exact hmember fun _ => (downloadUrl_meets fun h => hr _ ⟨rfl, h⟩).bind fun _ => answer rfl

theorem requestOtp_meets {body : OTPRequestIn} (hcode : K (.otpCode body.phone))
    (hattempts : K (.otpAttempts body.phone)) (hcooldown : K (.otpCooldown body.phone))
    (hunreachable : ∀ text, E.twilio body.phone text = .unreachable → P .httpxError) :
    (requestOtp E body draws).Meets A K P (·.isSuccess = true) := by
  refine select.bind fun found => ?_
  cases found with
  | none => exact answer rfl
  | some found =>
    refine branch (answer rfl) (bind (Q := fun _ => True) ?_ fun code => ?_)
    · have hissue : (some <$> issueCode E body.phone draws.randbelow).Meets A K
          (fun e => e = .otpCooldownError) fun _ => True :=
        map (issueCode_meets hcode hattempts hcooldown rfl)
      refine tryCatch hissue fun e he => ?_
      subst he
      exact pure
    · cases code with
      | none => exact answer rfl
      | some code =>
        have hsms {text : String} : (sendSms E body.phone text).Meets A K
            (fun e => e = .smsDeliveryError ∨ e = .httpxError ∧ P e) fun _ => True :=
          sendSms_meets (.inl rfl) fun h => .inr ⟨rfl, hunreachable _ h⟩
        refine bind (tryCatch hsms fun e he => ?_) fun _ => answer rfl
        rcases he with rfl | ⟨rfl, he⟩
        · exact raise (hP.http (by decide))
        · exact raise he

theorem AuthRoute.meets (route : AuthRoute)
    (hK : ∀ key, (Request.auth route draws).GoesTo key → K key)
    (hr : ∀ e, (Request.auth route draws).Raises E A e → P e) :
    (route.handle E draws).Meets A K P (·.isSuccess = true) := by
  have hpair {u : Uuid} {f : TokenResponse → Response} (hf : ∀ pair, (f pair).isSuccess = true) :
      (issueTokenPair E u draws >>= fun pair => Pure.pure (f pair)).Meets A K P
        (·.isSuccess = true) := (issueTokenPair_meets hP).bind fun pair => answer (hf pair)
  cases route with
  | register body =>
    exact select.bind fun _ => (raiseIf (hP.http (by decide))).bind fun _ =>
      (ofExcept hr).bind fun _ => txnow.bind fun _ => add.bind fun _ => (flush hP).bind fun _ =>
        hpair fun _ => rfl
  | login body =>
    refine query fun found hfound => ?_
    cases found with
    | none => exact raise (hP.http (by decide))
    | some found =>
      exact (ofExcept fun e he => hr e ⟨_, hfound, he⟩).bind fun _ =>
        (raiseIf (hP.http (by decide))).bind fun _ => (raiseIf (hP.http (by decide))).bind fun _ =>
          hpair fun _ => rfl
  | requestOtp body =>
    exact requestOtp_meets hP (hK _ ⟨_, rfl, .inl rfl⟩) (hK _ ⟨_, rfl, .inr (.inl rfl)⟩)
      (hK _ ⟨_, rfl, .inr (.inr rfl)⟩) fun text h => hr _ ⟨rfl, text, h⟩
  | verifyOtp body =>
    have hcode : K (.otpCode body.phone) := hK _ ⟨_, rfl, .inl rfl⟩
    have hattempts : K (.otpAttempts body.phone) := hK _ ⟨_, rfl, .inr (.inl rfl)⟩
    refine (verifyCode_meets hcode hattempts).bind fun _ =>
      (raiseIf (hP.http (by decide))).bind fun _ => select.bind fun found => ?_
    cases found with
    | none => exact raise (hP.http (by decide))
    | some found => exact (raiseIf (hP.http (by decide))).bind fun _ => hpair fun _ => rfl
  | refresh =>
    refine select.bind fun found => ?_
    cases found with
    | none => exact raise (hP.http (by decide))
    | some found =>
      exact (raiseIf (hP.http (by decide))).bind fun _ => utcnow.bind fun _ =>
        (raiseIf (hP.http (by decide))).bind fun _ => add.bind fun _ => hpair fun _ => rfl
  | logout =>
    refine select.bind fun found => ?_
    cases found with
    | none => exact answer rfl
    | some found => exact (when add).bind fun _ => answer rfl

/-- **What a request does by itself**: the commands of its route, on its keys, and exceptions that
any route may raise, or that its input explains. -/
theorem Request.meets {r : Request} (hK : ∀ key, r.GoesTo key → K key)
    (hr : ∀ e, r.Raises E A e → P e) : (r.handle E).Meets A K P (·.isSuccess = true) := by
  cases r with
  | user credentials route draws =>
    exact (getCurrentUser_meets hP).bind fun _ => route.meets hP hK hr
  | auth route draws => exact route.meets hP hK hr

end

/-! ## What follows -/

section
variable {A : {β : Type} → Cmd β → β → Prop} {K : RedisKey → Prop} {P : Exn → Prop} {E : Env}

/-- The whole of a request: what its route does, a response, and the end of the transaction. -/
theorem Request.prog_meets {r : Request} {I : {β : Type} → Cmd β → Prop} (hP : Common A P)
    (hK : ∀ key, r.GoesTo key → K key) (hr : ∀ e, r.Raises E A e → P e)
    (hI : ∀ {β : Type} (c : Cmd β), c.GoesTo K → I c) (hcommit : I .commit)
    (hrollback : I .rollback)
    (hanswer : ∀ response, response.isSuccess = true → I (.respond response))
    (herror : ∀ e, P e → I (.respond e.response)) :
    (r.prog E).Meets A I (fun _ => True) fun _ => True := by
  have hhandle := (r.meets hP hK hr []).mono hI (fun _ h => h) fun _ h => h
  rw [Request.prog, getDb, getDbWith]
  refine Prog.Meets.bind_outcome hhandle (fun a ha => ?_) fun e he => ?_
  · have hflush : (Handler.flushAll a.2).Meets A I (fun _ => True) fun _ => True :=
      (Handler.Meets.flushAll (K := K) ⟨fun _ => trivial, fun _ => trivial, fun _ _ => trivial⟩
        a.2).mono hI (fun _ h => h) fun _ h => h
    have hfinish : (finish a.2).Meets A I (fun _ => True) fun _ => True := by
      refine Prog.Meets.tryCatch (hflush.bind (R := fun _ => True) fun _ _ => ?_) fun _ _ => ?_
      · exact ⟨hcommit, fun _ _ => trivial⟩
      · exact ⟨hrollback, fun _ _ => trivial⟩
    exact ⟨hanswer _ ha, fun _ _ => hfinish.bind fun _ _ => trivial⟩
  · exact ⟨hrollback, fun _ _ => ⟨herror e he, fun _ _ => trivial⟩⟩

theorem Plain.of_meets {p : Prog Cmd Exn α} {Q : α → Prop}
    (h : p.Meets Cmd.Answers (Cmd.GoesTo K) Exn.Refuses Q) : Plain p := by
  induction p with
  | pure a => trivial
  | raise e => exact h
  | cmd c k ih => exact ⟨h.1.isData, fun b hb => ih b (h.2 b hb)⟩

theorem common_refuses : Common Cmd.Answers Exn.Refuses where
  http {status _ _} h := by
    show (200 ≤ status && status < 300) = false
    simp only [Bool.and_eq_false_iff, decide_eq_false_iff_not]
    omega
  refused h := by
    rcases Cmd.answers_execute h with h | ⟨e, he, hrefuses⟩
    · cases h
    · cases he
      exact hrefuses
  many _ _ := rfl

/-- **Routes are plain** if the exceptions that their input explains are no successes. -/
theorem Request.plain_of_refuses {r : Request} (hr : ∀ e, r.Raises E Cmd.Answers e → e.Refuses) :
    (r.handle E).Plain := fun pending =>
  .of_meets (r.meets common_refuses (fun _ _ => trivial : ∀ key, r.GoesTo key → True) hr pending)

theorem Request.plain (hE : E.crypto.Refuses) (r : Request) : (r.handle E).Plain := by
  refine plain_of_refuses fun e he => ?_
  cases r with
  | user credentials route draws =>
    cases route with
    | pairingConfirm =>
      obtain ⟨_, _, he⟩ := he
      exact verifyDeviceHmac_refuses he
    | updateCycle | getTelemetryHistory | checkOtaUpdate =>
      obtain ⟨rfl, _⟩ := he
      rfl
    | _ => cases he
  | auth route draws =>
    cases route with
    | register => exact hE.hash _ _ _ he
    | login =>
      obtain ⟨_, _, he⟩ := he
      exact hE.verify _ _ _ he
    | requestOtp =>
      obtain ⟨rfl, _⟩ := he
      rfl
    | _ => cases he

end

end Rawbin
