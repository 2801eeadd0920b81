import Rawbin.Verify.CodeLifetime
import Rawbin.Verify.Sequential

/-!
# Token pairs

What the authentication routes do to `refresh_tokens`, each alone from its first command to its
last. Three of them record a pair for the user that they have found or created; refresh revokes the
presented token before it records one; logout only revokes. All of them leave the rows of other
tokens alone.
-/

namespace Rawbin

/-- The token pair in a response. -/
def Response.tokens (response : Response) : Option TokenResponse :=
  match response.body with
  | .register _ tokens => some tokens
  | .tokens tokens => some tokens
  | _ => none

variable (E : Env)

/-- The pair that `issue_token_pair` hands out. -/
def issuedPair (now : Time) (u : Uuid) (draws : Draws) : TokenResponse where
  accessToken := E.crypto.jwtEncode (accessPayload E.cfg u now now draws.accessJti)
  refreshToken := E.crypto.jwtEncode (refreshPayload E.cfg u now now draws.refreshJti)
  expiresIn := E.cfg.accessTokenExpireMinutes * 60

/-- The row that records it. -/
def issuedRow (now : Time) (u : Uuid) (draws : Draws) : RefreshToken where
  userId := u
  tokenHash := hashToken E (issuedPair E now u draws).refreshToken
  expiresAt := now + days E.cfg.refreshTokenExpireDays
  revoked := false

/-- A token with its row revoked, if it is the one with this hash. -/
def RefreshToken.revokedBy (hash : String) (rt : RefreshToken) : RefreshToken :=
  if rt.tokenHash = hash then { rt with revoked := true } else rt

/-- The token with this hash is revoked, and the others are as they were. -/
def Revokes (hash : String) (before after : Table Uuid RefreshToken) : Prop :=
  ∀ id, after.get? id = (before.get? id).map (RefreshToken.revokedBy hash)

/-- A pair was recorded for `u`, in a table that held `base`. -/
structure Issued (w : World) (draws : Draws) (u : Uuid) (base : Table Uuid RefreshToken)
    (response : Response) (w' : World) : Prop where
  now : w'.now = w.now
  tokens : response.tokens = some (issuedPair E w.now u draws)
  table : w'.db.refreshTokens = base.insert draws.tokenId (issuedRow E w.now u draws)
  fresh : base.contains draws.tokenId = false
  unused : ∀ id rt, base.get? id = some rt → rt.tokenHash ≠ (issuedRow E w.now u draws).tokenHash
  user : w'.db.users.contains u = true
  users : ∀ v, w.db.users.contains v = true → w'.db.users.contains v = true

/-- Nothing happened to tokens. -/
structure NoPair (w : World) (response : Response) (w' : World) : Prop where
  now : w'.now = w.now
  tokens : response.tokens = none
  table : w'.db.refreshTokens = w.db.refreshTokens
  users : w'.db.users = w.db.users

/-- A sign-in: it fails, or a pair is recorded for somebody. -/
def SignIn (w : World) (draws : Draws) (response : Response) (w' : World) : Prop :=
  NoPair w response w' ∨ ∃ u, Issued E w draws u w.db.refreshTokens response w'

/-- A sign-in of one of these users. -/
def SignInOf (P : Uuid → Prop) (w : World) (draws : Draws) (response : Response) (w' : World) :
    Prop :=
  NoPair w response w' ∨ ∃ u, P u ∧ Issued E w draws u w.db.refreshTokens response w'

variable {E} {w : World} {draws : Draws}

theorem NoPair.error (e : Exn) : NoPair w e.response w :=
  ⟨rfl, by cases e <;> rfl, rfl, rfl⟩

theorem SignInOf.error {P : Uuid → Prop} (e : Exn) : SignInOf E P w draws e.response w :=
  .inl (.error e)

theorem SignInOf.signIn {P : Uuid → Prop} (h : SignInOf E P w draws response w') :
    SignIn E w draws response w' := h.imp id fun ⟨u, _, h⟩ => ⟨u, h⟩

/-- The account exists and may be used. -/
def Db.ActiveUser (db : Db) (u : Uuid) : Prop :=
  ∃ user, db.users.get? u = some user ∧ user.isActive = true

theorem Db.activeUser_of_select {db : Db} {p : Uuid → User → Bool}
    (h : (db.users.select p).head? = some (u, user)) (ha : user.isActive = true) :
    db.ActiveUser u := ⟨user, (Table.mem_select.mp (List.mem_of_head? h)).1, ha⟩

namespace RefreshToken

variable {hash : String} {rt : RefreshToken}

@[simp] theorem revokedBy_tokenHash : (rt.revokedBy hash).tokenHash = rt.tokenHash := by
  rw [revokedBy]; split <;> rfl

@[simp] theorem revokedBy_userId : (rt.revokedBy hash).userId = rt.userId := by
  rw [revokedBy]; split <;> rfl

@[simp] theorem revokedBy_expiresAt : (rt.revokedBy hash).expiresAt = rt.expiresAt := by
  rw [revokedBy]; split <;> rfl

theorem revokedBy_of_ne (h : rt.tokenHash ≠ hash) : rt.revokedBy hash = rt := if_neg h

theorem revokedBy_self (h : rt.tokenHash = hash) : (rt.revokedBy hash).revoked = true := by
  rw [revokedBy, if_pos h]

theorem revokedBy_of_revoked (h : rt.revoked = true) : rt.revokedBy hash = rt := by
  rw [revokedBy]
  split
  · rw [← h]
  · rfl

end RefreshToken

/-! ## The two statements -/

section
variable {tokens after : Table Uuid RefreshToken} {hash : String} {id : Uuid} {rt : RefreshToken}

theorem Revokes.of_none (h : (tokens.select fun _ rt => rt.tokenHash = hash).head? = none) :
    Revokes hash tokens tokens := by
  intro id
  cases hr : tokens.get? id with
  | none => rfl
  | some rt =>
    have hne : rt.tokenHash ≠ hash := fun he => by
      have hm : (id, rt) ∈ tokens.select fun _ rt => rt.tokenHash = hash :=
        Table.mem_select.mpr ⟨hr, decide_eq_true he⟩
      rw [List.head?_eq_none_iff.mp h] at hm
      cases hm
    rw [Option.map_some, RefreshToken.revokedBy_of_ne hne]

theorem Revokes.of_revoked (hu : tokens.Unique RefreshToken.tokenHash)
    (h : (tokens.select fun _ rt => rt.tokenHash = hash).head? = some (id, rt))
    (hr : rt.revoked = true) : Revokes hash tokens tokens := by
  intro id'
  obtain ⟨hid, hh⟩ := hu.head?_select.mp h
  cases hr' : tokens.get? id' with
  | none => rfl
  | some rt' =>
    have hsame : rt'.revokedBy hash = rt' := by
      by_cases he : rt'.tokenHash = hash
      · cases hu _ _ _ _ hr' hid (he.trans hh.symm)
        cases hr'.symm.trans hid
        exact RefreshToken.revokedBy_of_revoked hr
      · exact RefreshToken.revokedBy_of_ne he
    rw [Option.map_some, hsame]

theorem Revokes.of_update (hu : tokens.Unique RefreshToken.tokenHash)
    (h : (tokens.select fun _ rt => rt.tokenHash = hash).head? = some (id, rt)) :
    Revokes hash tokens (tokens.update id fun rt => { rt with revoked := true }) := by
  intro id'
  obtain ⟨hid, hh⟩ := hu.head?_select.mp h
  rw [Table.get?_update]
  split
  · rename_i he
    rw [he, hid, Option.map_some, Option.map_some, RefreshToken.revokedBy, if_pos hh]
  · rename_i hne
    cases hr' : tokens.get? id' with
    | none => rfl
    | some rt' =>
      have hne' : rt'.tokenHash ≠ hash := fun he => hne (hu _ _ _ _ hr' hid (he.trans hh.symm))
      rw [Option.map_some, RefreshToken.revokedBy_of_ne hne']

theorem Revokes.unique (h : Revokes hash tokens after) (hu : tokens.Unique RefreshToken.tokenHash) :
    after.Unique RefreshToken.tokenHash := hu.map h fun _ => RefreshToken.revokedBy_tokenHash

theorem hashTaken_eq_false_iff {db : Db} : db.hashTaken hash = false ↔
    ∀ id rt, db.refreshTokens.get? id = some rt → rt.tokenHash ≠ hash := by
  rw [Db.hashTaken, Bool.not_eq_false', List.isEmpty_iff]
  constructor
  · intro h id rt hr he
    have hm : (id, rt) ∈ db.refreshTokens.select fun _ rt => rt.tokenHash = hash :=
      Table.mem_select.mpr ⟨hr, decide_eq_true he⟩
    rw [h] at hm
    cases hm
  · intro h
    refine List.eq_nil_iff_forall_not_mem.mpr fun e he => ?_
    obtain ⟨hr, hh⟩ := Table.mem_select.mp he
    exact h _ _ hr (of_decide_eq_true hh)

theorem insertRefreshToken_violates {db : Db} :
    (Write.insertRefreshToken id rt).violates db = none ↔
      db.refreshTokens.contains id = false ∧
      (∀ id' rt', db.refreshTokens.get? id' = some rt' → rt'.tokenHash ≠ rt.tokenHash) ∧
      db.users.contains rt.userId = true := by
  rw [Write.insertRefreshToken_violates_iff, hashTaken_eq_false_iff]

theorem insertRefreshToken_error {db : Db} {e : Exn}
    (h : (Write.insertRefreshToken id rt).violates db = some e) : e = .integrityError := by
  rw [Write.violates] at h
  split at h
  · exact (Option.some.inj h).symm
  · cases h

end

/-! ## The routes -/

section
variable {Q : Except Exn γ → Session → World → Prop} {t : Session} {u : Uuid} {pend : List Write}

theorem issueTokenPair_ends {k : TokenResponse × List Write → Prog Cmd Exn γ}
    (hok : ∀ t', Write.flushed
      (pend ++ [.insertRefreshToken draws.tokenId (issuedRow E w.now u draws)]) (t.view w.db) =
        .ok (t'.view w.db) → Ends Q t' w (k (issuedPair E w.now u draws, [])))
    (herr : ∀ t' e, Write.flushed
      (pend ++ [.insertRefreshToken draws.tokenId (issuedRow E w.now u draws)]) (t.view w.db) =
        .error e → Q (.error e) t' w) :
    Ends Q t w ((issueTokenPair E u draws pend).bind k) := by
  refine utcnow_ends (utcnow_ends (utcnow_ends (utcnow_ends (utcnow_ends ?_))))
  simp only [Prog.pure_bind, Handler.bind_apply, Prog.bind_assoc, Handler.add_apply]
  exact flush_ends hok herr

/-- The INSERT of a row for `u`, in a database whose tokens are `base`. -/
theorem Issued.of_insert {db : Db} {response : Response}
    (hv : (Write.insertRefreshToken draws.tokenId (issuedRow E w.now u draws)).violates db = none)
    (htokens : response.tokens = some (issuedPair E w.now u draws))
    (husers : ∀ v, w.db.users.contains v = true → db.users.contains v = true) :
    Issued E w draws u db.refreshTokens response
      { w with db :=
        (Write.insertRefreshToken draws.tokenId (issuedRow E w.now u draws)).apply db } := by
  obtain ⟨hid, hhash, huser⟩ := insertRefreshToken_violates.mp hv
  exact ⟨rfl, htokens, rfl, hid, hhash, huser, husers⟩

/-- The last part of a sign-in. -/
theorem signIn_ends {P : Uuid → Prop} {f : TokenResponse → Response}
    (hf : ∀ pair, (f pair).tokens = some pair) (hu : P u)
    (htable : (t.view w.db).refreshTokens = w.db.refreshTokens)
    (husers : ∀ v, w.db.users.contains v = true → (t.view w.db).users.contains v = true) :
    Ends (Served (SignInOf E P w draws)) t w
      ((issueTokenPair E u draws []).bind fun r => .pure (f r.1, r.2)) := by
  refine issueTokenPair_ends (fun t' hflushed => ?_) fun t' e _ => .error e
  obtain ⟨hv, hdb⟩ := Write.of_flushed_one hflushed
  have hissued : Issued E w draws u _ (f (issuedPair E w.now u draws)) _ :=
    .of_insert hv (hf _) husers
  rw [htable, ← hdb] at hissued
  exact .inr ⟨u, hu, hissued⟩

end

/-- A password login signs an active user in. -/
theorem login_outcome (body : UserLoginRequest) :
    SignInOf E w.db.ActiveUser w draws (serve E (.auth (.login body) draws) w).1
      (serve E (.auth (.login body) draws) w).2 := by
  refine serve_ends (P := SignInOf E w.db.ActiveUser w draws) ?_
  refine select_ends rfl fun t ht => ?_
  cases hq : (Query.userByEmail body.email).eval w.db with
  | none => exact .error _
  | some found =>
    obtain ⟨id, user⟩ := found
    refine ofExcept_ends (fun e _ => .error e) fun verified _ => ?_
    refine raiseIf_ends (fun _ => .error _) fun _ => raiseIf_ends (fun _ => .error _) fun ha => ?_
    have hview : t.view w.db = w.db := Session.view_of_nil ht w.db
    have hu : w.db.ActiveUser id := Db.activeUser_of_select hq (by simpa using ha)
    exact signIn_ends (f := fun pair => ⟨200, .tokens pair, []⟩) (fun _ => rfl) hu
      (by rw [hview]) fun v hv => by rw [hview]; exact hv

/-- A registration signs a new user in. -/
theorem register_outcome (body : UserRegisterRequest) :
    SignInOf E (fun u => w.db.users.contains u = false) w draws
      (serve E (.auth (.register body) draws) w).1
      (serve E (.auth (.register body) draws) w).2 := by
  refine serve_ends (P := SignInOf E (fun u => w.db.users.contains u = false) w draws) ?_
  refine select_ends rfl fun t ht => ?_
  refine raiseIf_ends (fun _ => .error _) fun _ => ?_
  refine ofExcept_ends (fun e _ => .error e) fun passwordHash _ => ?_
  refine txnow_ends ht fun t createdAt ht => ?_
  simp only [Prog.pure_bind, Handler.bind_apply, Handler.add_apply]
  refine flush_ends (fun t' hf => ?_) fun t' e _ => .error e
  rw [Session.view_of_nil ht] at hf
  obtain ⟨hv, hdb⟩ := Write.of_flushed_one hf
  refine signIn_ends (f := fun pair => ⟨201, .register _ pair, []⟩) (fun _ => rfl)
    (Write.insertUser_violates_iff.mp hv).1 ?_ fun v hv => ?_
  · rw [hdb]
    rfl
  · rw [hdb]
    exact (Table.contains_insert ..).mpr (.inl hv)

/-! ## Codes by SMS -/

theorem Served.mono {P P' : Response → World → Prop} {res : Except Exn (Response × List Write)}
    {t : Session} (h : Served P res t w) (hP : ∀ response w', P response w' → P' response w') :
    Served P' res t w := by
  cases res with
  | ok r => exact hP _ _ h
  | error e => exact hP _ _ h

theorem NoPair.of_redis {redis : Redis} (h : NoPair { w with redis := redis } response w') :
    NoPair w response w' := ⟨h.now, h.tokens, h.table, h.users⟩

theorem SignInOf.of_redis {P : Uuid → Prop} {redis : Redis}
    (h : SignInOf E P { w with redis := redis } draws response w') :
    SignInOf E P w draws response w' :=
  h.imp NoPair.of_redis fun ⟨u, hu, h⟩ =>
    ⟨u, hu, h.now, h.tokens, h.table, h.fresh, h.unused, h.user, h.users⟩

theorem verifyCode_ends {Q : Except Exn γ → Session → World → Prop} {t : Session}
    {phone code : String} {k : Bool × List Write → Prog Cmd Exn γ}
    (h : Ends Q t { w with redis := (w.redis.verify E w.now phone code).2 }
      (k ((w.redis.verify E w.now phone code).1, []))) :
    Ends Q t w ((verifyCode E phone code []).bind k) := Machine.Ends.of_run verifyCode_run h

/-- The code is the stored one, and `u` is the active account that has the phone. -/
structure CodeOwner (E : Env) (w : World) (body : OTPVerifyIn) (u : Uuid) : Prop where
  code : (w.redis.get w.now (.otpCode body.phone) : Option String) = some (hashCode E body.code)
  user : ∃ user, w.db.users.get? u = some user ∧ user.phone = some body.phone ∧
    user.isActive = true

theorem CodeOwner.activeUser {body : OTPVerifyIn} {u : Uuid} (h : CodeOwner E w body u) :
    w.db.ActiveUser u := h.user.imp fun _ h => ⟨h.1, h.2.2⟩

/-- A login by SMS signs the active account of the phone in. -/
theorem verifyOtp_outcome (body : OTPVerifyIn) :
    SignInOf E (CodeOwner E w body) w draws (serve E (.auth (.verifyOtp body) draws) w).1
      (serve E (.auth (.verifyOtp body) draws) w).2 := by
  refine serve_ends (P := SignInOf E (CodeOwner E w body) w draws) (verifyCode_ends ?_)
  generalize hw₁ : World.mk w.db (w.redis.verify E w.now body.phone body.code).2 w.now = w₁
  have hdb : w₁.db = w.db := hw₁ ▸ rfl
  have hback {response : Response} {w' : World}
      (h : SignInOf E (CodeOwner E w body) w₁ draws response w') :
      SignInOf E (CodeOwner E w body) w draws response w' := by
    subst hw₁
    exact h.of_redis
  refine raiseIf_ends (fun _ => hback (.error _)) fun hverified => select_ends rfl fun t ht => ?_
  have hcode : (w.redis.verify E w.now body.phone body.code).1 = true := by simpa using hverified
  cases hq : (Query.userByPhone body.phone).eval w₁.db with
  | none => exact hback (.error _)
  | some found =>
    obtain ⟨id, user⟩ := found
    refine raiseIf_ends (fun _ => hback (.error _)) fun ha => ?_
    have hview : t.view w₁.db = w₁.db := Session.view_of_nil ht w₁.db
    obtain ⟨hget, hphone⟩ := Table.mem_select.mp (List.mem_of_head? hq)
    have hu : CodeOwner E w body id :=
      ⟨Redis.get_of_verify hcode, user, hdb ▸ hget, of_decide_eq_true hphone, by simpa using ha⟩
    have hends : Ends (Served (SignInOf E (CodeOwner E w body) w₁ draws)) t w₁
        ((issueTokenPair E id draws []).bind fun r => .pure (⟨200, .tokens r.1, []⟩, r.2)) :=
      signIn_ends (f := fun pair => ⟨200, .tokens pair, []⟩) (fun _ => rfl) hu (by rw [hview])
        fun v hv => by rw [hview]; exact hv
    exact hends.mono fun r t w' h => h.mono fun _ _ => hback

/-- `issue_code` as `request_otp` calls it: a code is issued, or the cooldown is noticed. -/
theorem tryIssueCode_run {t : Session} {phone : String} {randbelow : Nat} :
    machine.runConst .ok (tryCatch (some <$> issueCode E phone randbelow) (fun
      | .otpCooldownError => pure none
      | e => throw e) []) t w =
      if w.redis.coolingDown w.now phone then (.ok (none, []), t, w)
      else (.ok (some (generateCode E randbelow), []), t,
        { w with redis := w.redis.issue E w.now phone (generateCode E randbelow) }) := by
  have hissue : machine.run (fun _ => .ok) (issueCode E phone randbelow []) t w =
      if w.redis.coolingDown w.now phone then _ else _ := issueCode_run
  show machine.run _ (((issueCode E phone randbelow []).bind fun r =>
    .pure (some r.1, r.2)).tryCatch
    _) t w = _
  rw [Machine.run_tryCatch, Machine.run_bind, hissue]
  cases w.redis.coolingDown w.now phone <;> rfl

theorem tryIssueCode_ends {Q : Except Exn γ → Session → World → Prop} {t : Session} {phone : String}
    {randbelow : Nat} {k : Option String × List Write → Prog Cmd Exn γ}
    (hcooldown : w.redis.coolingDown w.now phone = true → Ends Q t w (k (none, [])))
    (hissued : w.redis.coolingDown w.now phone = false →
      Ends Q t { w with redis := w.redis.issue E w.now phone (generateCode E randbelow) }
        (k (some (generateCode E randbelow), []))) :
    Ends Q t w ((tryCatch (some <$> issueCode E phone randbelow) (fun
      | .otpCooldownError => pure none
      | e => throw e) []).bind k) := by
  cases hc : w.redis.coolingDown w.now phone with
  | true => exact Machine.Ends.of_run (tryIssueCode_run.trans (if_pos hc)) (hcooldown hc)
  | false =>
    refine Machine.Ends.of_run (tryIssueCode_run.trans (if_neg ?_)) (hissued hc)
    rw [hc]
    nofun

/-- What the delivery of a message comes to. -/
def delivery (E : Env) (recipient body : String) : Except Exn Unit :=
  match E.cfg.smsProvider with
  | .stub => .ok ()
  | .twilio =>
    match E.twilio recipient body with
    | .incompleteSettings => .error .smsDeliveryError
    | .unreachable => .error .httpxError
    | .status code => if code ≥ 400 then .error .smsDeliveryError else .ok ()

theorem sendSms_eq (recipient body : String) :
    sendSms E recipient body = .ofExcept (delivery E recipient body) := by
  rw [sendSms, delivery]
  cases E.cfg.smsProvider with
  | stub => rfl
  | twilio =>
    show sendTwilio E recipient body = _
    rw [sendTwilio]
    cases E.twilio recipient body with
    | incompleteSettings | unreachable => rfl
    | status code =>
      show (if code ≥ 400 then _ else _) = Handler.ofExcept (if code ≥ 400 then _ else _)
      split <;> rfl

/-- What `request_otp` makes of a failed delivery. -/
def Exn.ofDelivery : Exn → Exn
  | .smsDeliveryError => .httpException 502 "Could not send the SMS code. Please try again."
  | e => e

/-- The last part of `request_otp`. -/
theorem deliver_ends {P : Response → World → Prop} {t : Session} {recipient text : String}
    (hsent : delivery E recipient text = .ok () → Served P (.ok (otpAccepted, [])) t w)
    (herr : ∀ e, delivery E recipient text = .error e → P e.ofDelivery.response w) :
    Ends (Served P) t w ((tryCatch (sendSms E recipient text) (fun
      | .smsDeliveryError => httpException 502 "Could not send the SMS code. Please try again."
      | e => throw e) []).bind fun r => .pure (otpAccepted, r.2)) := by
  rw [sendSms_eq]
  cases hd : delivery E recipient text with
  | ok => exact hsent hd
  | error e =>
    have h := herr e hd
    cases e <;> exact h

/-- The account for which a `request_otp` issues a code: the active one that has the phone, unless
the cooldown is not over. -/
def codeUser (w : World) (phone : String) : Option Uuid :=
  match (Query.userByPhone phone).eval w.db with
  | none => none
  | some (id, user) => if user.isActive && !w.redis.coolingDown w.now phone then some id else none

/-- The text of the message. -/
def otpMessage (code : String) : String :=
  "Your Rawbin login code is " ++ code ++ ". It expires in 5 minutes."

/-- The answer when a code has been issued. -/
def deliveryAnswer (E : Env) (phone : String) (randbelow : Nat) : Response :=
  match delivery E phone (otpMessage (generateCode E randbelow)) with
  | .ok _ => otpAccepted
  | .error e => e.ofDelivery.response

/-- What a `request_otp` answers and leaves. -/
structure OtpRequestOutcome (E : Env) (w : World) (phone : String) (randbelow : Nat)
    (response : Response) (w' : World) : Prop where
  answer : response = match codeUser w phone with
    | none => otpAccepted
    | some _ => deliveryAnswer E phone randbelow
  world : w' = match codeUser w phone with
    | none => w
    | some _ => { w with redis := w.redis.issue E w.now phone (generateCode E randbelow) }

theorem OtpRequestOutcome.of_none {phone : String} {randbelow : Nat} (h : codeUser w phone = none) :
    OtpRequestOutcome E w phone randbelow otpAccepted w :=
  ⟨by rw [h], by rw [h]⟩

theorem requestOtp_served (body : OTPRequestIn) :
    OtpRequestOutcome E w body.phone draws.randbelow (serve E (.auth (.requestOtp body) draws) w).1
      (serve E (.auth (.requestOtp body) draws) w).2 := by
  have haccepted {t : Session} (ht : t.written = []) (h : codeUser w body.phone = none) :
      Served (OtpRequestOutcome E w body.phone draws.randbelow) (.ok (otpAccepted, [])) t w := by
    show OtpRequestOutcome E w body.phone _ otpAccepted (w.settle t [])
    rw [World.settle_nil ht]
    exact .of_none h
  refine serve_ends (P := OtpRequestOutcome E w body.phone draws.randbelow)
    (select_ends rfl fun t ht => ?_)
  cases hq : (Query.userByPhone body.phone).eval w.db with
  | none => exact haccepted ht (by rw [codeUser, hq])
  | some found =>
    obtain ⟨id, user⟩ := found
    simp only [Prog.pure_bind]
    cases ha : user.isActive with
    | false =>
      refine haccepted ht ?_
      simp only [codeUser, hq, ha, Bool.false_and, Bool.false_eq_true, if_false]
    | true =>
      refine tryIssueCode_ends (fun hc => haccepted ht ?_) fun hc => ?_
      · simp only [codeUser, hq, ha, hc, Bool.not_true, Bool.and_false,
          Bool.false_eq_true, if_false]
      · have hu : codeUser w body.phone = some id := by
          simp only [codeUser, hq, ha, hc, Bool.not_false, Bool.and_true, if_true]
        refine deliver_ends (fun hd => ?_) fun e hd => ?_
        · show OtpRequestOutcome E w body.phone _ otpAccepted (World.settle _ t [])
          rw [World.settle_nil ht]
          replace hd : delivery E body.phone (otpMessage (generateCode E draws.randbelow)) =
            .ok () :=
            hd
          exact ⟨by rw [hu, deliveryAnswer, hd], by rw [hu]⟩
        · replace hd : delivery E body.phone (otpMessage (generateCode E draws.randbelow)) =
            .error e := hd
          exact ⟨by rw [hu, deliveryAnswer, hd], by rw [hu]⟩

theorem Exn.ofDelivery_tokens (e : Exn) : e.ofDelivery.response.tokens = none := by
  cases e <;> rfl

theorem OtpRequestOutcome.noPair {phone : String} {randbelow : Nat}
    (h : OtpRequestOutcome E w phone randbelow response w') : NoPair w response w' := by
  obtain ⟨rfl, rfl⟩ := h
  cases codeUser w phone with
  | none => exact ⟨rfl, rfl, rfl, rfl⟩
  | some u =>
    refine ⟨rfl, ?_, rfl, rfl⟩
    show (deliveryAnswer E phone randbelow).tokens = none
    rw [deliveryAnswer]
    split
    · rfl
    · exact Exn.ofDelivery_tokens _

theorem requestOtp_outcome (body : OTPRequestIn) :
    NoPair w (serve E (.auth (.requestOtp body) draws) w).1
      (serve E (.auth (.requestOtp body) draws) w).2 := (requestOtp_served body).noPair

/-! ## Presented tokens -/

/-- What a logout does. -/
structure LogoutOutcome (E : Env) (w : World) (token : String) (response : Response) (w' : World) :
    Prop where
  now : w'.now = w.now
  tokens : response.tokens = none
  table : Revokes (hashToken E token) w.db.refreshTokens w'.db.refreshTokens
  users : w'.db.users = w.db.users

theorem logout_outcome (hu : w.db.refreshTokens.Unique RefreshToken.tokenHash)
    (body : RefreshRequest) :
    LogoutOutcome E w body.refreshToken (serve E (.auth (.logout body) draws) w).1
      (serve E (.auth (.logout body) draws) w).2 := by
  refine serve_ends (P := LogoutOutcome E w body.refreshToken) (select_ends rfl fun t ht => ?_)
  cases hq : (Query.refreshTokenByHash (hashToken E body.refreshToken)).eval w.db with
  | none =>
    show LogoutOutcome E w body.refreshToken _ (w.settle t [])
    rw [World.settle_nil ht]
    exact ⟨rfl, rfl, .of_none hq, rfl⟩
  | some found =>
    obtain ⟨id, rt⟩ := found
    simp only [Prog.pure_bind]
    refine when_ends (fun _ => ?_) fun hr => ?_
    · show LogoutOutcome E w body.refreshToken _ (w.settle t [.updateRefreshToken id true])
      have hv : (Write.updateRefreshToken id true).violates w.db = none := by
        rw [Write.violates, Table.contains_of_get? (hu.head?_select.mp hq).1]
        rfl
      rw [World.settle_one ht hv]
      exact ⟨rfl, rfl, .of_update hu hq, rfl⟩
    · show LogoutOutcome E w body.refreshToken _ (w.settle t [])
      rw [World.settle_nil ht]
      exact ⟨rfl, rfl, .of_revoked hu hq (by simpa using hr), rfl⟩

/-- What a refresh does: it is turned down because no valid row has the hash of the token, it fails
because the new row would violate a constraint, or it rotates the token. -/
inductive RefreshOutcome (E : Env) (w : World) (token : String) (draws : Draws) :
    Response → World → Prop where
  | rejected (h : ∀ id rt, w.db.refreshTokens.get? id = some rt → rt.tokenHash = hashToken E token →
      rt.isValid w.now = false) :
    RefreshOutcome E w token draws
      ⟨401, .detail "Refresh token is invalid or has expired.", []⟩ w
  | collided (id : Uuid) (rt : RefreshToken) (base : Table Uuid RefreshToken)
      (hrow : w.db.refreshTokens.get? id = some rt)
      (hbase : Revokes (hashToken E token) w.db.refreshTokens base)
      (hv : ¬ (base.contains draws.tokenId = false ∧
        (∀ id' rt', base.get? id' = some rt' →
          rt'.tokenHash ≠ (issuedRow E w.now rt.userId draws).tokenHash) ∧
        w.db.users.contains rt.userId = true)) :
    RefreshOutcome E w token draws (Exn.response .integrityError) w
  | rotated (id : Uuid) (rt : RefreshToken) (base : Table Uuid RefreshToken)
      (hrow : w.db.refreshTokens.get? id = some rt) (hhash : rt.tokenHash = hashToken E token)
      (hvalid : rt.isValid w.now = true)
      (hbase : Revokes (hashToken E token) w.db.refreshTokens base)
      (hissued : Issued E w draws rt.userId base
        ⟨200, .tokens (issuedPair E w.now rt.userId draws), []⟩ w') :
    RefreshOutcome E w token draws ⟨200, .tokens (issuedPair E w.now rt.userId draws), []⟩ w'

/-- An accepted refresh presents a valid token, and is answered with a pair for its user. -/
theorem RefreshOutcome.of_accepted {token : String} {response : Response} {w' : World}
    (h : RefreshOutcome E w token draws response w') (hs : response.status = 200) :
    ∃ id rt, w.db.refreshTokens.get? id = some rt ∧ rt.tokenHash = hashToken E token ∧
      rt.isValid w.now = true ∧
      response = ⟨200, .tokens (issuedPair E w.now rt.userId draws), []⟩ := by
  cases h with
  | rejected => cases hs
  | collided => cases hs
  | rotated id rt base hrow hhash hvalid => exact ⟨id, rt, hrow, hhash, hvalid, rfl⟩

theorem refresh_outcome (hu : w.db.refreshTokens.Unique RefreshToken.tokenHash)
    (body : RefreshRequest) :
    RefreshOutcome E w body.refreshToken draws (serve E (.auth (.refresh body) draws) w).1
      (serve E (.auth (.refresh body) draws) w).2 := by
  refine serve_ends (P := RefreshOutcome E w body.refreshToken draws)
    (select_ends rfl fun t ht => ?_)
  cases hq : (Query.refreshTokenByHash (hashToken E body.refreshToken)).eval w.db with
  | none =>
    refine .rejected fun id rt hrow hhash => ?_
    cases hq.symm.trans (hu.head?_select.mpr ⟨hrow, hhash⟩)
  | some found =>
    obtain ⟨id, rt⟩ := found
    obtain ⟨hrow, hhash⟩ := hu.head?_select.mp hq
    have hrejected (h : rt.isValid w.now = false) :
        RefreshOutcome E w body.refreshToken draws
          ⟨401, .detail "Refresh token is invalid or has expired.", []⟩ w := by
      refine .rejected fun id' rt' hrow' hhash' => ?_
      cases hu _ _ _ _ hrow' hrow (hhash'.trans hhash.symm)
      cases hrow'.symm.trans hrow
      exact h
    simp only [Prog.pure_bind]
    refine raiseIf_ends (fun hr => hrejected ?_) fun _ =>
      utcnow_ends (raiseIf_ends (fun hv => ?_) fun hv => ?_)
    · rw [RefreshToken.isValid, hr]
      rfl
    · exact hrejected (by simpa using hv)
    · simp only [Prog.pure_bind, Handler.bind_apply, Handler.add_apply]
      have hbase := Revokes.of_update hu hq
      have hupdate : (Write.updateRefreshToken id true).violates w.db = none := by
        rw [Write.violates, Table.contains_of_get? hrow]
        rfl
      refine issueTokenPair_ends (fun t' hf => ?_) fun t' e hf => ?_
      · rw [Session.view_of_nil ht] at hf
        obtain ⟨hv', hdb⟩ := Write.of_flushed_one ((Write.flushed_cons hupdate).symm.trans hf)
        have hissued : Issued E w draws rt.userId _
            ⟨200, .tokens (issuedPair E w.now rt.userId draws), []⟩ _ :=
          .of_insert hv' rfl fun v hv => hv
        rw [← hdb] at hissued
        exact .rotated id rt _ hrow hhash (by simpa using hv) hbase hissued
      · rw [Session.view_of_nil ht] at hf
        have hv' := Write.of_flushed_one_error ((Write.flushed_cons hupdate).symm.trans hf)
        cases insertRefreshToken_error hv'
        refine .collided id rt _ hrow hbase fun hc => ?_
        cases (insertRefreshToken_violates.mpr hc).symm.trans hv'

end Rawbin
