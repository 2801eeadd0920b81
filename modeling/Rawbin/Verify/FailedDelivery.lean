import Rawbin.Verify.UniformAnswers

/-!
# Messages that the provider rejects

`issue_code` stores the code, the counter and the cooldown before the message goes out, and a
rejected message takes none of them back. The user is asked to try again, but a new request is
accepted without a message until the cooldown is over, and the code of before is overwritten.
-/

namespace Rawbin

/-- The same environment with a provider that rejects every message. -/
def Env.rejecting (E : Env) : Env :=
  { E with cfg := { E.cfg with smsProvider := .twilio }, twilio := fun _ _ => .status 500 }

/-- The request hands a message to the provider: a provider that rejects it shows in the answer. -/
def AttemptsDelivery (E : Env) (phone : String) (draws : Draws) (w : World) : Prop :=
  (serve E.rejecting (.auth (.requestOtp ⟨phone⟩) draws) w).1.status = 502

/-- Between two states, the codes of a phone stay valid, and a new request is not blocked. -/
structure RetryOpen (E : Env) (phone : String) (w w' : World) : Prop where
  retry : ∀ draws, AttemptsDelivery E phone draws w'
  code : ∀ code, verified E w phone code = true → verified E w' phone code = true

section
variable {E : Env} {w : World} {draws : Draws} {phone code : String} {randbelow : Nat}

theorem deliveryAnswer_rejecting :
    (deliveryAnswer E.rejecting phone randbelow).status = 502 := by
  have hd : delivery E.rejecting phone (otpMessage (generateCode E.rejecting randbelow)) =
      .error .smsDeliveryError := rfl
  rw [deliveryAnswer, hd]
  rfl

/-- Delivery is reached exactly for an active account whose cooldown is over. -/
theorem attemptsDelivery_iff :
    AttemptsDelivery E phone draws w ↔ (codeUser w phone).isSome = true := by
  rw [AttemptsDelivery, (requestOtp_served ⟨phone⟩).answer]
  cases codeUser w phone with
  | none => exact iff_of_false nofun nofun
  | some u => exact iff_of_true deliveryAnswer_rejecting rfl

/-- A request that is answered by 502 has issued a code. -/
theorem rejected_issued (h : (serve E (.auth (.requestOtp ⟨phone⟩) draws) w).1.status = 502) :
    (codeUser w phone).isSome = true ∧ (serve E (.auth (.requestOtp ⟨phone⟩) draws) w).2 =
      { w with redis := w.redis.issue E w.now phone (generateCode E draws.randbelow) } := by
  have houtcome : OtpRequestOutcome E w phone draws.randbelow
      (serve E (.auth (.requestOtp ⟨phone⟩) draws) w).1
      (serve E (.auth (.requestOtp ⟨phone⟩) draws) w).2 := requestOtp_served ⟨phone⟩
  rw [houtcome.answer] at h
  rw [houtcome.world]
  cases hu : codeUser w phone with
  | none =>
    rw [hu] at h
    cases h
  | some u => exact ⟨rfl, rfl⟩

theorem seconds_pos {n : ℕ} (h : 0 < n) : 0 < seconds n :=
  Int.mul_pos (Int.natCast_pos.mpr h) (by decide)

namespace Redis

variable {r : Redis} {now now' : Time} {code' : String}

theorem coolingDown_issue : (r.issue E now phone code).coolingDown now' phone = true ↔
    now' < now + seconds E.cfg.otpResendCooldownSeconds := by
  rw [coolingDown, Option.any_eq_true]
  constructor
  · rintro ⟨v, hv, _⟩
    obtain ⟨e, he, _, hd⟩ := Expiring.get_eq_some_iff.mp hv
    cases issue_otpCooldown.symm.trans he
    exact hd _ rfl
  · intro h
    have hget : ((r.issue E now phone code).get now' (.otpCooldown phone) : Option String) =
        some "1" := by
      refine Expiring.get_eq_some_iff.mpr ⟨_, issue_otpCooldown, rfl, fun d hd => ?_⟩
      cases hd
      exact h
    exact ⟨"1", hget, rfl⟩

/-- A code is valid after another one was issued iff it has the same hash. -/
theorem verify_issue (httl : 0 < E.cfg.otpTtlSeconds) (hmax : 0 < E.cfg.otpMaxAttempts) :
    ((r.issue E now phone code').verify E now phone code).1 = true ↔
      hashCode E code = hashCode E code' := by
  have hlive (d : Time) (hd : d ∈ some (now + seconds E.cfg.otpTtlSeconds)) : now < d := by
    cases hd
    exact Int.lt_add_of_pos_right _ (seconds_pos httl)
  have hget : ((r.issue E now phone code').get now (.otpCode phone) : Option String) =
      some (hashCode E code') := Expiring.get_eq_some_iff.mpr ⟨_, issue_otpCode, rfl, hlive⟩
  have hcounter : ((r.issue E now phone code').get now (.otpAttempts phone) : Option Nat) =
      some 0 := Expiring.get_eq_some_iff.mpr ⟨_, issue_otpAttempts, rfl, hlive⟩
  have hn : (r.issue E now phone code').counter now phone < E.cfg.otpMaxAttempts := by
    rw [counter, hcounter]
    exact hmax
  constructor
  · intro h
    exact Option.some.inj ((get_of_verify h).symm.trans hget)
  · intro h
    rw [verify_match (h ▸ hget) hn]

theorem maxAttempts_pos (h : (r.verify E now phone code).1 = true) : 0 < E.cfg.otpMaxAttempts := by
  by_contra hmax
  have hcounter : r.counter now phone ≥ E.cfg.otpMaxAttempts := by omega
  rw [verify, get_of_verify h] at h
  simp only [if_pos hcounter, Bool.false_eq_true] at h

end Redis

/-- After a code was issued, a request attempts a delivery once the cooldown is over. -/
theorem attemptsDelivery_issued (hactive : w.db.ActiveNumber phone) (dt : ℕ) (draws : Draws) :
    AttemptsDelivery E phone draws
      (World.tick { w with redis := w.redis.issue E w.now phone code } dt) ↔
        seconds E.cfg.otpResendCooldownSeconds ≤ dt := by
  have hcooling : (w.redis.issue E w.now phone code).coolingDown (w.now + dt) phone = true ↔
      (dt : Int) < seconds E.cfg.otpResendCooldownSeconds :=
    Redis.coolingDown_issue.trans (Int.add_lt_add_iff_left _)
  rw [attemptsDelivery_iff, codeUser_isSome_iff]
  refine (and_iff_right (show w.db.ActiveNumber phone from hactive)).trans ?_
  rw [← Bool.not_eq_true, ← Int.not_lt]
  exact not_congr hcooling

/-- **Rejected messages.** After a request was answered by 502, a new request for the phone is
accepted without a message until the cooldown is over, and a code that was valid before is still
valid only if it has the hash of the code that was not delivered. -/
theorem rejected_delivery (httl : 0 < E.cfg.otpTtlSeconds)
    (hcooldown : 0 < E.cfg.otpResendCooldownSeconds)
    (h : (serve E (.auth (.requestOtp ⟨phone⟩) draws) w).1.status = 502) :
    let w' := (serve E (.auth (.requestOtp ⟨phone⟩) draws) w).2
    ¬ RetryOpen E phone w w' ∧
    (∀ draws', serve E (.auth (.requestOtp ⟨phone⟩) draws') w' = (otpAccepted, w')) ∧
    (∀ (dt : ℕ) draws', AttemptsDelivery E phone draws' (w'.tick dt) ↔
      seconds E.cfg.otpResendCooldownSeconds ≤ dt) ∧
    ∀ code, verified E w phone code = true →
      (verified E w' phone code = true ↔
        hashCode E code = hashCode E (generateCode E draws.randbelow)) := by
  intro w'
  obtain ⟨huser, hw'⟩ := rejected_issued h
  replace hw' : w' = _ := hw'
  obtain ⟨hactive, _⟩ := codeUser_isSome_iff.mp huser
  have hretry (dt : ℕ) (draws' : Draws) : AttemptsDelivery E phone draws' (w'.tick dt) ↔
      seconds E.cfg.otpResendCooldownSeconds ≤ dt := by
    rw [hw']
    exact attemptsDelivery_issued hactive dt draws'
  have hblocked (draws' : Draws) : ¬ AttemptsDelivery E phone draws' w' := by
    intro hattempt
    have hle := (hretry 0 draws').mp (by rw [World.tick]; simpa using hattempt)
    exact absurd (seconds_pos hcooldown) (Int.not_lt.mpr hle)
  refine ⟨fun hopen => hblocked draws (hopen.retry draws), fun draws' => ?_, hretry, ?_⟩
  · have hnone : codeUser w' phone = none :=
      Option.not_isSome_iff_eq_none.mp (mt attemptsDelivery_iff.mpr (hblocked draws'))
    have houtcome : OtpRequestOutcome E w' phone draws'.randbelow
        (serve E (.auth (.requestOtp ⟨phone⟩) draws') w').1
        (serve E (.auth (.requestOtp ⟨phone⟩) draws') w').2 := requestOtp_served ⟨phone⟩
    refine Prod.ext ?_ ?_
    · rw [houtcome.answer, hnone]
    · rw [houtcome.world, hnone]
  · intro code hcode
    rw [verified_eq] at hcode ⊢
    rw [hw']
    exact Redis.verify_issue httl (Redis.maxAttempts_pos hcode)

end

/-- Alice's message is rejected. -/
theorem alice_retryBlocked : ¬ RetryOpen Sample.twilioDown "+4901" Sample.numberWorld
    (serve Sample.twilioDown (.auth (.requestOtp ⟨"+4901"⟩) (Sample.draws 0))
      Sample.numberWorld).2 :=
  (rejected_delivery (by decide) (by decide) (by decide +kernel)).1

/-- So she gets no message when she tries again. -/
theorem retryOpen_fails : ¬ ∀ (E : Env) (w : World) (phone : String) (draws : Draws),
      0 < E.cfg.otpTtlSeconds → 0 < E.cfg.otpResendCooldownSeconds →
    (serve E (.auth (.requestOtp ⟨phone⟩) draws) w).1.status = 502 →
    RetryOpen E phone w (serve E (.auth (.requestOtp ⟨phone⟩) draws) w).2 := by
  intro h
  have hopen := h Sample.twilioDown Sample.numberWorld "+4901" (Sample.draws 0) (by decide)
      (by decide)
    (by decide +kernel)
  have hattempt := hopen.retry (Sample.draws 1)
  rw [AttemptsDelivery] at hattempt
  exact absurd hattempt (by decide +kernel)

end Rawbin
