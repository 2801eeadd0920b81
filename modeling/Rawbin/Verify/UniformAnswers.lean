import Rawbin.Verify.DisabledAccounts

/-!
# Answers that should not depend on the accounts

A request for a code is meant to be answered in the same way whether or not the number is
registered, and a failed login in the same way whether or not the email is. Each answer is first
given as a function of the request and the state; two runs are compared afterwards.
-/

namespace Rawbin

/-! ## Requests for a code -/

/-- The number belongs to an active account. -/
def Db.ActiveNumber (db : Db) (phone : String) : Prop :=
  ∃ u user, (Query.userByPhone phone).eval db = some (u, user) ∧ user.isActive = true

/-- The databases differ only in the accounts that have the number. -/
def Db.DiffersAt (phone : String) (db db' : Db) : Prop :=
  { db with users := db'.users } = db' ∧ ∀ u user, user.phone ≠ some phone →
    (db.users.get? u = some user ↔ db'.users.get? u = some user)

section
variable {E : Env} {w : World} {db' : Db} {draws : Draws} {phone : String}

theorem codeUser_isSome_iff : (codeUser w phone).isSome = true ↔
    w.db.ActiveNumber phone ∧ w.redis.coolingDown w.now phone = false := by
  rw [codeUser, Db.ActiveNumber]
  cases (Query.userByPhone phone).eval w.db with
  | none => simp
  | some found =>
    obtain ⟨u, user⟩ := found
    have hfound : (∃ u' user', some (u, user) = some (u', user') ∧ user'.isActive = true) ↔
        user.isActive = true := by
      constructor
      · rintro ⟨_, _, ⟨⟩, ha⟩
        exact ha
      · exact fun ha => ⟨u, user, rfl, ha⟩
    simp only [hfound]
    cases user.isActive <;> cases w.redis.coolingDown w.now phone <;> simp

theorem delivery_error {text : String} {e : Exn} (h : delivery E phone text = .error e) :
    e = .smsDeliveryError ∨ e = .httpxError := by
  rw [delivery] at h
  split at h
  · cases h
  · split at h
    · exact .inl (Except.error.inj h).symm
    · exact .inr (Except.error.inj h).symm
    · split at h
      · exact .inl (Except.error.inj h).symm
      · cases h

/-- A failed delivery shows in the answer. -/
theorem deliveryAnswer_eq_iff {randbelow : Nat} :
    deliveryAnswer E phone randbelow = otpAccepted ↔
      delivery E phone (otpMessage (generateCode E randbelow)) = .ok () := by
  rw [deliveryAnswer]
  cases hd : delivery E phone (otpMessage (generateCode E randbelow)) with
  | ok => exact iff_of_true rfl rfl
  | error e =>
    refine iff_of_false (fun h => ?_) (by simp)
    have hstatus : e.ofDelivery.response.status = 202 := congrArg Response.status h
    rcases delivery_error hd with rfl | rfl <;> cases hstatus

theorem requestOtp_answer {body : OTPRequestIn} (draws : Draws) (ha : w.db.ActiveNumber body.phone)
    (hc : w.redis.coolingDown w.now body.phone = false) :
    (serve E (.auth (.requestOtp body) draws) w).1 =
      deliveryAnswer E body.phone draws.randbelow := by
  obtain ⟨u, hu⟩ := Option.isSome_iff_exists.mp (codeUser_isSome_iff.mpr ⟨ha, hc⟩)
  rw [(requestOtp_served body).answer, hu]

theorem requestOtp_accepted {body : OTPRequestIn} (draws : Draws)
    (h : ¬ (w.db.ActiveNumber body.phone ∧ w.redis.coolingDown w.now body.phone = false)) :
    (serve E (.auth (.requestOtp body) draws) w).1 = otpAccepted := by
  have hnone : codeUser w body.phone = none := by
    rw [← codeUser_isSome_iff, Option.not_isSome_iff_eq_none] at h
    exact h
  rw [(requestOtp_served body).answer, hnone]

/-- **Requests for a code.** Two databases give the same answer iff the number belongs to an active
account in both of them or in neither, or the cooldown is not over, or the message is delivered. -/
theorem otp_request_answers (body : OTPRequestIn) :
    (serve E (.auth (.requestOtp body) draws) w).1 =
        (serve E (.auth (.requestOtp body) draws) { w with db := db' }).1 ↔
      (w.db.ActiveNumber body.phone ↔ db'.ActiveNumber body.phone) ∨
        w.redis.coolingDown w.now body.phone = true ∨
        delivery E body.phone (otpMessage (generateCode E draws.randbelow)) = .ok () := by
  rw [← deliveryAnswer_eq_iff]
  cases hc : w.redis.coolingDown w.now body.phone with
  | true =>
    have hw := requestOtp_accepted (E := E) (w := w) draws fun h => nomatch hc.symm.trans h.2
    have hw' := requestOtp_accepted (E := E) (w := { w with db := db' }) draws fun h =>
      nomatch hc.symm.trans h.2
    exact iff_of_true (hw.trans hw'.symm) (.inr (.inl rfl))
  | false =>
    by_cases ha : w.db.ActiveNumber body.phone <;> by_cases hb : db'.ActiveNumber body.phone
    · have hw' := requestOtp_answer (E := E) (w := { w with db := db' }) draws hb hc
      exact iff_of_true ((requestOtp_answer draws ha hc).trans hw'.symm) (.inl (iff_of_true ha hb))
    · have hw' := requestOtp_accepted (E := E) (w := { w with db := db' }) draws fun h => hb h.1
      rw [requestOtp_answer draws ha hc, hw']
      simp only [ha, hb, iff_false, not_true_eq_false, false_or, Bool.false_eq_true]
    · have hw' := requestOtp_answer (E := E) (w := { w with db := db' }) draws hb hc
      rw [requestOtp_accepted draws fun h => ha h.1, hw']
      simp only [ha, hb, iff_true, false_or, Bool.false_eq_true]
      exact eq_comm
    · have hw := requestOtp_accepted (E := E) (w := w) draws fun h => ha h.1
      have hw' := requestOtp_accepted (E := E) (w := { w with db := db' }) draws fun h => hb h.1
      exact iff_of_true (hw.trans hw'.symm) (.inl (iff_of_false ha hb))

end

namespace Sample

/-- Messages go through Twilio, which turns them down. -/
def twilioDown : Env :=
  { env with cfg := { smsProvider := .twilio }, twilio := fun _ _ => .status 500 }

def bobOnly : Db := { Db.empty with users := Table.empty.insert 2 (user "bob@rawbin.io") }

/-- Alice has a number. -/
def numberWorld : World :=
  { world with db := { bobOnly with
    users := bobOnly.users.insert 1 { user "alice@rawbin.io" with phone := some "+4901" } } }

theorem numberWorld_differsAt : numberWorld.db.DiffersAt "+4901" bobOnly := by
  refine ⟨rfl, fun u user hphone => ⟨fun h => ?_, fun h => ?_⟩⟩
  · rcases Table.get?_of_insert h with h | ⟨_, rfl⟩
    · exact h
    · exact absurd rfl hphone
  · exact Table.get?_insert_of_some h ..

end Sample

/-- The answer is 502 if the number is registered, and 202 if not. -/
theorem numberWorld_reveals : ¬ ∀ (E : Env) (w : World) (db' : Db) (body : OTPRequestIn)
      (draws : Draws), w.db.DiffersAt body.phone db' →
    (serve E (.auth (.requestOtp body) draws) w).1 =
      (serve E (.auth (.requestOtp body) draws) { w with db := db' }).1 := by
  intro h
  have hsame := h Sample.twilioDown Sample.numberWorld Sample.bobOnly ⟨"+4901"⟩ (Sample.draws 0)
    Sample.numberWorld_differsAt
  have hne : (serve Sample.twilioDown (.auth (.requestOtp ⟨"+4901"⟩) (Sample.draws 0))
      Sample.numberWorld).1 ≠ (serve Sample.twilioDown
        (.auth (.requestOtp ⟨"+4901"⟩) (Sample.draws 0))
      { Sample.numberWorld with db := Sample.bobOnly }).1 := by
    decide +kernel
  exact hne hsame

/-! ## Logins -/

/-- What `verify` of the password library takes: no NUL, and not too long. -/
def Checkable (secret : String) : Prop := Char.ofNat 0 ∉ secret.toList ∧ secret.length ≤ 4096

instance (secret : String) : Decidable (Checkable secret) := inferInstanceAs (Decidable (_ ∧ _))

/-- The bytes that bcrypt looks at. -/
def bcryptBytes (secret : String) : List UInt8 := secret.toUTF8.data.toList.take 72

/-- What the results rely on of the password library: `verify` compares the first 72 bytes with
those of the hashed password, and raises for a secret with a NUL or with more than 4096
characters. -/
structure Crypto.Bcrypt (C : Crypto) : Prop where
  verify : ∀ salt plain hash secret, C.bcryptHash salt plain = .ok hash → Checkable secret →
    C.bcryptVerify secret hash = .ok (bcryptBytes secret = bcryptBytes plain)
  raises : ∀ secret hash, ¬ Checkable secret → C.bcryptVerify secret hash = .error .valueError

def loginRejected : Response := ⟨401, .detail "Invalid email or password.", []⟩

/-- The answer of a login, when the uuids that it draws are new. -/
def loginAnswer (E : Env) (w : World) (body : UserLoginRequest) (draws : Draws) : Response :=
  match (Query.userByEmail body.email).eval w.db with
  | none => loginRejected
  | some (u, user) =>
    match verifyPassword E.crypto body.password user.passwordHash with
    | .error e => e.response
    | .ok false => loginRejected
    | .ok true =>
      if user.isActive then ⟨200, .tokens (issuedPair E w.now u draws), []⟩
      else ⟨403, .detail "This account has been disabled.", []⟩

section
variable {E : Env} {w : World} {draws : Draws} {u : Uuid} {user : User}

theorem Draws.New.inserts (hnew : draws.New E w) (hu : w.db.users.get? u = some user) :
    (Write.insertRefreshToken draws.tokenId (issuedRow E w.now u draws)).violates w.db = none := by
  refine insertRefreshToken_violates.mpr ⟨hnew.1, fun id rt hrow he =>
    ?_, Table.contains_of_get? hu⟩
  exact hnew.2 id rt _ hrow he rfl

theorem login_answer (body : UserLoginRequest)
    (hnew : (Query.userByEmail body.email).eval w.db ≠ none → draws.New E w) :
    (serve E (.auth (.login body) draws) w).1 = loginAnswer E w body draws := by
  refine serve_ends (P := fun response _ => response = loginAnswer E w body draws)
    (select_ends rfl fun t ht => ?_)
  cases hq : (Query.userByEmail body.email).eval w.db with
  | none =>
    show loginRejected = _
    rw [loginAnswer, hq]
  | some found =>
    obtain ⟨id, user⟩ := found
    refine ofExcept_ends (fun e he => ?_) fun verified hverified => ?_
    · show e.response = _
      rw [loginAnswer, hq]
      simp only [he]
    · cases verified with
      | false =>
        show loginRejected = _
        rw [loginAnswer, hq]
        simp only [hverified]
      | true =>
        refine raiseIf_ends (fun hv => nomatch hv) fun _ => raiseIf_ends (fun ha => ?_) fun ha => ?_
        · have ha' : user.isActive = false := by simpa using ha
          show (⟨403, .detail "This account has been disabled.", []⟩ : Response) = _
          rw [loginAnswer, hq]
          simp only [hverified, ha', Bool.false_eq_true, if_false]
        · have ha' : user.isActive = true := by simpa using ha
          have hu : w.db.users.get? id = some user :=
            (Table.mem_select.mp (List.mem_of_head? hq)).1
          refine issueTokenPair_ends (fun t' _ => ?_) fun t' e hf => ?_
          · show (⟨200, .tokens (issuedPair E w.now id draws), []⟩ : Response) = _
            rw [loginAnswer, hq]
            simp only [hverified, ha', if_true]
          · rw [Session.view_of_nil ht] at hf
            have hv := (hnew (by rw [hq]; nofun)).inserts hu
            cases hv.symm.trans (Write.of_flushed_one_error hf)

theorem loginAnswer_unknown {body : UserLoginRequest}
    (hq : (Query.userByEmail body.email).eval w.db = none) :
    loginAnswer E w body draws = loginRejected := by
  rw [loginAnswer, hq]

theorem loginAnswer_checked (hb : E.crypto.Bcrypt) {body : UserLoginRequest} {salt : Nat}
    {plain : String} (hq : (Query.userByEmail body.email).eval w.db = some (u, user))
    (hplain : E.crypto.bcryptHash salt plain = .ok user.passwordHash)
    (hc : Checkable body.password) :
    loginAnswer E w body draws =
      if bcryptBytes body.password = bcryptBytes plain then
        if user.isActive then ⟨200, .tokens (issuedPair E w.now u draws), []⟩
        else ⟨403, .detail "This account has been disabled.", []⟩
      else loginRejected := by
  rw [loginAnswer, hq]
  simp only [verifyPassword, hb.verify _ _ _ _ hplain hc]
  by_cases he : bcryptBytes body.password = bcryptBytes plain
  · simp only [he, decide_true, if_true]
  · simp only [he, decide_false, if_false]

theorem loginAnswer_raises (hb : E.crypto.Bcrypt) {body : UserLoginRequest}
    (hq : (Query.userByEmail body.email).eval w.db = some (u, user))
    (hc : ¬ Checkable body.password) :
    loginAnswer E w body draws = Exn.response .valueError := by
  rw [loginAnswer, hq]
  simp only [verifyPassword, hb.raises _ _ hc]

/-- **Logins.** Against accounts whose passwords were hashed by the library, a login ends in 200,
401 or 403 iff there is no account with the email or the password can be checked; and with an
account whose password differs from the one submitted it is answered like without one, by the 401,
iff the password can be checked. -/
theorem login_uniform (hb : E.crypto.Bcrypt) (body : UserLoginRequest) (hnew : draws.New E w)
    (hhashed : ∀ u user, (Query.userByEmail body.email).eval w.db = some (u, user) →
      ∃ salt plain, E.crypto.bcryptHash salt plain = .ok user.passwordHash) :
    ((serve E (.auth (.login body) draws) w).1.status ∈ [200, 401, 403] ↔
      (Query.userByEmail body.email).eval w.db = none ∨ Checkable body.password) ∧
    ∀ u user salt plain db', (Query.userByEmail body.email).eval w.db = some (u, user) →
      E.crypto.bcryptHash salt plain = .ok user.passwordHash →
      bcryptBytes body.password ≠ bcryptBytes plain →
      (Query.userByEmail body.email).eval db' = none →
      ((serve E (.auth (.login body) draws) w).1 = loginRejected ∧
        (serve E (.auth (.login body) draws) { w with db := db' }).1 = loginRejected ↔
        Checkable body.password) := by
  rw [login_answer body fun _ => hnew]
  refine ⟨?_, fun u user salt plain db' hq hplain hne hq' => ?_⟩
  · cases hq : (Query.userByEmail body.email).eval w.db with
    | none =>
      rw [loginAnswer_unknown hq]
      exact iff_of_true (by decide) (.inl rfl)
    | some found =>
      obtain ⟨u, user⟩ := found
      obtain ⟨salt, plain, hplain⟩ := hhashed u user hq
      by_cases hc : Checkable body.password
      · refine iff_of_true ?_ (.inr hc)
        rw [loginAnswer_checked hb hq hplain hc]
        split
        · cases user.isActive <;> simp
        · decide
      · rw [loginAnswer_raises hb hq hc]
        refine iff_of_false (by decide) ?_
        rintro (h | h)
        · cases h
        · exact hc h
  · rw [login_answer (w := { w with db := db' }) body fun h => absurd hq' h,
      loginAnswer_unknown (w := { w with db := db' }) hq']
    by_cases hc : Checkable body.password
    · rw [loginAnswer_checked hb hq hplain hc, if_neg hne]
      exact iff_of_true ⟨rfl, rfl⟩ hc
    · rw [loginAnswer_raises hb hq hc]
      exact iff_of_false (fun h => nomatch congrArg Response.status h.1) hc

end

namespace Sample

/-- Hashes keep their input, and secrets are checked as by the library. -/
def bcrypt : Crypto :=
  { crypto with
    bcryptHash := fun _ plain => if Checkable plain then .ok plain else .error .valueError
    bcryptVerify := fun secret hash =>
      if Checkable secret then .ok (bcryptBytes secret = bcryptBytes hash) else .error .valueError }

theorem bcrypt_laws : bcrypt.Bcrypt where
  verify salt plain hash secret h hc := by
    have hhash : hash = plain := by
      simp only [bcrypt] at h
      split at h
      · exact (Except.ok.inj h).symm
      · cases h
    rw [hhash]
    exact if_pos hc
  raises secret hash hc := if_neg hc

def bcryptEnv : Env := { env with crypto := bcrypt }

def nulPassword : UserLoginRequest := ⟨"alice@rawbin.io", String.singleton (Char.ofNat 0)⟩

theorem alice_row : (Query.userByEmail "alice@rawbin.io").eval world.db =
    some (1, user "alice@rawbin.io") := by
  decide +kernel

end Sample

/-- A wrong password is answered like an unknown email. -/
theorem wrongPassword_uniform :
    (serve Sample.bcryptEnv (.auth (.login ⟨"alice@rawbin.io", "wrong"⟩) (Sample.draws 0))
      Sample.world).1 =
      loginRejected ∧
    (serve Sample.bcryptEnv (.auth (.login ⟨"alice@rawbin.io", "wrong"⟩) (Sample.draws 0))
      { Sample.world with db := Sample.bobOnly }).1 = loginRejected := by
  have hplain : Sample.bcryptEnv.crypto.bcryptHash 0 "$password" =
      .ok (Sample.user "alice@rawbin.io").passwordHash := by decide +kernel
  have hnew : (Sample.draws 0).New Sample.bcryptEnv Sample.world := ⟨rfl, fun _ _ _ h => nomatch h⟩
  refine ((login_uniform Sample.bcrypt_laws ⟨"alice@rawbin.io", "wrong"⟩ hnew ?_).2 1 _ 0
    "$password"
    Sample.bobOnly Sample.alice_row hplain ?_ ?_).mpr ?_
  · intro u user hq
    cases Sample.alice_row.symm.trans hq
    exact ⟨0, "$password", hplain⟩
  · decide +kernel
  · decide +kernel
  · decide +kernel

/-- A password with a NUL is answered by 500 if the email is known, and by 401 if not. -/
theorem nulPassword_reveals : ¬ ∀ (E : Env) (w : World) (db' : Db) (body : UserLoginRequest)
      (draws : Draws), E.crypto.Bcrypt → (Query.userByEmail body.email).eval db' = none →
    (∀ u user, (Query.userByEmail body.email).eval w.db = some (u, user) → ∃ salt plain,
      E.crypto.bcryptHash salt plain = .ok user.passwordHash ∧
        bcryptBytes body.password ≠ bcryptBytes plain) →
    (serve E (.auth (.login body) draws) w).1 = loginRejected ∧
      (serve E (.auth (.login body) draws) { w with db := db' }).1 = loginRejected := by
  intro h
  have hrejected := (h Sample.bcryptEnv Sample.world Sample.bobOnly Sample.nulPassword
    (Sample.draws 0) Sample.bcrypt_laws (by decide +kernel) ?_).1
  · have hfailed : (serve Sample.bcryptEnv (.auth (.login Sample.nulPassword) (Sample.draws 0))
        Sample.world).1.status = 500 := by
      decide +kernel
    rw [hrejected] at hfailed
    cases hfailed
  · intro u user hq
    cases Sample.alice_row.symm.trans hq
    exact ⟨0, "$password", by decide +kernel, by decide +kernel⟩

end Rawbin
