import Rawbin.Library.Guessing
import Rawbin.Verify.PlainRoutes
import Rawbin.Verify.RedisKeys
import Rawbin.Verify.TokenPairs

/-!
# Guessing a code

Somebody who does not get the messages tries to sign in with the phone of another. He chooses every
request by the answers so far, and when to send it, one after another; the numbers that
`request_otp` draws are all equally likely. `chance` is his chance to be let in before the end of
some period.

The counter gives him a few tries with each code, the cooldown a few codes in the period. Nothing
else that he may send tells him more about a code, or makes its counter smaller.
-/

namespace Rawbin

/-! ## The code as a number -/

section
variable {E : Env} {m n : ℕ}

/-- The number that a zero-padded code spells. -/
theorem ofDigitChars_leftpad (len n : ℕ) :
    Nat.ofDigitChars 10 ((toString n).toList.leftpad len '0') 0 = n := by
  rw [List.leftpad, Nat.ofDigitChars_append, Nat.ofDigitChars_replicate_zero, Nat.mul_zero,
    Nat.toString_eq_repr, Nat.toList_repr, Nat.ofDigitChars_ten_toDigits]

theorem generateCode_injective (hprod : E.cfg.appEnv = .production) (hm : m < 10 ^ E.cfg.otpLength)
    (hn : n < 10 ^ E.cfg.otpLength) (h : generateCode E m = generateCode E n) : m = n := by
  rw [generateCode, generateCode, if_neg (not_not.mpr hprod), if_neg (not_not.mpr hprod),
    Nat.mod_eq_of_lt hm, Nat.mod_eq_of_lt hn] at h
  have hlists := String.ofList_injective h
  rw [← ofDigitChars_leftpad E.cfg.otpLength m, hlists, ofDigitChars_leftpad]

end

/-! ## The game -/

/-- The next request of somebody who has got these answers, and how long he waits before it. -/
abbrev Guesser := List Response → ℕ × Request

/-- The answers so far, and the world that he does not see. -/
abbrev Attack := List Response × World

/-- The request asks for a code for the phone. -/
def Request.asksCode (phone : String) : Request → Bool
  | .auth (.requestOtp body) _ => body.phone = phone
  | _ => false

/-- The request tries a code for the phone. -/
def Request.triesCode (phone : String) : Request → Bool
  | .auth (.verifyOtp body) _ => body.phone = phone
  | _ => false

/-- The request with this outcome of `secrets.randbelow`. -/
def Request.drawing (n : ℕ) : Request → Request
  | .auth route draws => .auth route { draws with randbelow := n }
  | r => r

variable (E : Env) (phone : String)

def Attack.send (r : Request) (a : Attack) : Attack :=
  (a.1 ++ [(serve E r a.2).1], (serve E r a.2).2)

/-- The chance to be let in with the phone, by one of the next `k` requests and not after `stop`. -/
def chance (A : Guesser) (stop : Time) : ℕ → Attack → ℚ
  | 0, _ => 0
  | k + 1, (answers, w) =>
    let r := (A answers).2
    let w := w.tick (A answers).1
    if stop < w.now then 0
    else if r.asksCode phone then
      (∑ n ∈ Finset.range (10 ^ E.cfg.otpLength),
        chance A stop k (Attack.send E (r.drawing n) (answers, w))) / (10 ^ E.cfg.otpLength : ℕ)
    else if r.triesCode phone && (serve E r w).1.isSuccess then 1
    else chance A stop k (Attack.send E r (answers, w))

/-- From whenever the cooldown is over, `m` others one after another last beyond `stop`. -/
def World.AllowsCodes (w : World) (stop : Time) (m : ℕ) : Prop :=
  ∀ t, w.now ≤ t → t ≤ stop → w.redis.coolingDown t phone = false →
    stop < t + m * seconds E.cfg.otpResendCooldownSeconds

/-- What may be stored under the key of the code, by the number that was drawn, when he has `a`
tries: nothing that is valid, or the code made of the number. -/
inductive Secret (w : World) (a : ℕ) : (ℕ → Option (Entry Time String)) → Prop where
  | dead {e : ℕ → Option (Entry Time String)}
    (h : ∀ n, (w.overlay (.otpCode phone) (e n)).redis.get w.now (.otpCode phone) = none) :
    Secret w a e
  | drawn {deadline : Time} {c : ℕ} (hlive : w.now < deadline)
    (hcounter : w.redis (.otpAttempts phone) = some ⟨c, some deadline⟩)
    (ha : E.cfg.otpMaxAttempts ≤ a + c) :
    Secret w a fun n => some ⟨hashCode E (generateCode E n), some deadline⟩

/-- The worlds in which he may be differ in the code alone. -/
inductive Guessable (stop : Time) (a m : ℕ) : (ℕ → Attack) → Prop where
  | intro (answers : List Response) {w : World} {e : ℕ → Option (Entry Time String)}
    (hsecret : Secret E phone w a e) (hm : w.AllowsCodes E phone stop m) :
    Guessable stop a m fun n => (answers, w.overlay (.otpCode phone) (e n))

variable {E phone}

/-! ## The stored code -/

namespace Redis

variable {r r' : Redis} {now deadline : Time} {e : Option (Entry Time String)} {code code' : String}
variable {c : ℕ}

theorem coolingDown_congr (h : r (.otpCooldown phone) = r' (.otpCooldown phone)) :
    r.coolingDown now phone = r'.coolingDown now phone := by
  rw [coolingDown, coolingDown, Expiring.get_congr h]

/-- A new code replaces the old one, whatever it was. -/
theorem issue_put : Redis.issue E (r.put (RedisKey.otpCode phone) e) now phone code =
    (r.issue E now phone code').put (RedisKey.otpCode phone)
      (some ⟨hashCode E code, some (now + seconds E.cfg.otpTtlSeconds)⟩) := by
  funext k
  by_cases hc : k = .otpCode phone
  · subst hc
    exact issue_otpCode.trans (Expiring.put_self _ (RedisKey.otpCode phone) _).symm
  rw [Expiring.put_ne hc]
  by_cases ha : k = .otpAttempts phone
  · subst ha
    exact issue_otpAttempts.trans issue_otpAttempts.symm
  by_cases hw : k = .otpCooldown phone
  · subst hw
    exact issue_otpCooldown.trans issue_otpCooldown.symm
  · rw [issue_of_ne hc ha hw, issue_of_ne hc ha hw, Expiring.put_ne hc]

theorem burn_put : Redis.burn (r.put (RedisKey.otpCode phone) e) phone =
    (r.burn phone).put (RedisKey.otpCode phone) none := by
  funext k
  by_cases hc : k = .otpCode phone
  · subst hc
    rw [burn_apply, if_pos (.inl rfl)]
    exact (Expiring.put_self _ (RedisKey.otpCode phone) _).symm
  · rw [burn_apply, Expiring.put_ne hc, Expiring.put_ne hc, burn_apply]

theorem incr_put : Redis.incr (r.put (RedisKey.otpCode phone) e) now phone =
    (r.incr now phone).put (RedisKey.otpCode phone) e :=
  congrArg Prod.snd (RedisCmd.exec_put (c := .incr phone) (by simp [RedisCmd.keys]) now r)

section
variable (hcounter : r (.otpAttempts phone) = some ⟨c, some deadline⟩) (hlive : now < deadline)
include hcounter hlive

theorem counter_of_live : r.counter now phone = c := by
  rw [counter, Expiring.get_of_entry (Expiring.entry_eq_some_iff.mpr
    ⟨hcounter, fun _ hd => Option.some.inj hd ▸ hlive⟩)]
  rfl

theorem incremented_of_live : r.incremented now phone = ⟨c + 1, some deadline⟩ := by
  rw [incremented, Expiring.entry_eq_some_iff.mpr
    ⟨hcounter, fun _ hd => Option.some.inj hd ▸ hlive⟩]

theorem incr_of_live :
    r.incr now phone (.otpAttempts phone) = some ⟨c + 1, some deadline⟩ := by
  rw [incr, incremented_of_live hcounter hlive, Expiring.set_self]

end

/-- The code and its counter are valid, and so far there were `c` wrong tries. -/
structure Tried (r : Redis) (now deadline : Time) (phone hash : String) (c : ℕ) : Prop where
  live : now < deadline
  code : r (.otpCode phone) = some ⟨hash, some deadline⟩
  counter : r (.otpAttempts phone) = some ⟨c, some deadline⟩

namespace Tried

variable {hash : String} (h : r.Tried now deadline phone hash c)
include h

theorem get_code : r.get now (.otpCode phone) = some hash :=
  Expiring.get_eq_some_iff.mpr ⟨_, h.code, rfl, fun _ hd => Option.some.inj hd ▸ h.live⟩

theorem verify_spent (hc : E.cfg.otpMaxAttempts ≤ c) :
    r.verify E now phone code = (false, r.burn phone) := by
  rw [verify, h.get_code]
  simp only [counter_of_live h.counter h.live, ge_iff_le, if_pos hc]

theorem verify_wrong_try (hc : c < E.cfg.otpMaxAttempts) (hne : hash ≠ hashCode E code) :
    r.verify E now phone code = (false,
      if E.cfg.otpMaxAttempts ≤ c + 1 then (r.incr now phone).burn phone else r.incr now
        phone) := by
  rw [verify_mismatch h.get_code ((counter_of_live h.counter h.live).trans_lt hc) hne,
    incremented_of_live h.counter h.live]

end Tried

end Redis

/-! ## What the requests do -/

section
variable {w : World} {stop : Time} {a m dt : ℕ} {e : ℕ → Option (Entry Time String)}
variable {deadline : Time} {c : ℕ}

/-- The answer to a code that is not accepted. -/
def codeRefused : Response := (Exn.httpException 401 "Invalid or expired code.").response

theorem verifyOtp_refused (body : OTPVerifyIn) (draws : Draws)
    (h : (w.redis.verify E w.now body.phone body.code).1 = false) :
    serve E (.auth (.verifyOtp body) draws) w =
      (codeRefused, { w with redis := (w.redis.verify E w.now body.phone body.code).2 }) := by
  have hend := serve_ends (E := E) (r := .auth (.verifyOtp body) draws) (w := w)
    (P := fun response w' => response = codeRefused ∧
      w' = { w with redis := (w.redis.verify E w.now body.phone body.code).2 })
    (verifyCode_ends (raiseIf_ends (fun _ => ⟨rfl, rfl⟩) fun hv => absurd ?_ hv))
  · exact Prod.ext hend.1 hend.2
  · rw [h, Bool.not_false]

theorem requestOtp_drawing (body : OTPRequestIn) (draws : Draws) (n : ℕ) :
    OtpRequestOutcome E w body.phone n
      (serve E (.auth (.requestOtp body) { draws with randbelow := n }) w).1
      (serve E (.auth (.requestOtp body) { draws with randbelow := n }) w).2 := by
  show OtpRequestOutcome E w body.phone (Draws.randbelow { draws with randbelow := n }) _ _
  exact requestOtp_served body

theorem codeUser_overlay {e : Option (Entry Time String)} :
    codeUser (w.overlay (.otpCode phone) e) phone = codeUser w phone := by
  have hcooling : (w.overlay (.otpCode phone) e).redis.coolingDown
      (w.overlay (.otpCode phone) e).now phone = w.redis.coolingDown w.now phone :=
    Redis.coolingDown_congr (World.overlay_ne (by nofun))
  rw [codeUser, hcooling]
  rfl

theorem coolingDown_of_codeUser {u : Uuid} (h : codeUser w phone = some u) :
    w.redis.coolingDown w.now phone = false := by
  rw [codeUser] at h
  split at h
  · cases h
  · split at h
    · rename_i hif
      exact (Bool.not_eq_true' _).mp (Bool.and_eq_true _ _ ▸ hif).2
    · cases h

/-! ## Codes in a period -/

theorem World.AllowsCodes.tick (h : w.AllowsCodes E phone stop m) (dt : ℕ) :
    (w.tick dt).AllowsCodes E phone stop m := fun t ht => by
  have hle : w.now ≤ (w.tick dt).now := Int.le_add_of_nonneg_right (Int.natCast_nonneg dt)
  exact h t (hle.trans ht)

theorem World.AllowsCodes.of_eq {w' : World} (h : w.AllowsCodes E phone stop m)
    (hnow : w'.now = w.now) (hr : w'.redis (.otpCooldown phone) = w.redis (.otpCooldown phone)) :
    w'.AllowsCodes E phone stop m := fun t ht hs hc =>
  h t (hnow ▸ ht) hs (Redis.coolingDown_congr hr ▸ hc)

/-- So many codes can be issued from now on. -/
theorem World.allowsCodes (hpos : 0 < E.cfg.otpResendCooldownSeconds) (period : ℕ) :
    w.AllowsCodes E phone (w.now + seconds period)
      (period / E.cfg.otpResendCooldownSeconds + 1) := fun t ht _ _ => by
  have hlt : period < (period / E.cfg.otpResendCooldownSeconds + 1) *
      E.cfg.otpResendCooldownSeconds := by
    rw [Nat.mul_comm]
    exact Nat.lt_mul_div_succ period hpos
  have hlt' : (period : ℤ) < ((period / E.cfg.otpResendCooldownSeconds + 1 : ℕ) : ℤ) *
      (E.cfg.otpResendCooldownSeconds : ℤ) := by exact_mod_cast hlt
  simp only [seconds] at *
  nlinarith

/-- A new code uses one of them up. -/
theorem World.AllowsCodes.issue (h : w.AllowsCodes E phone stop m) (hstop : w.now ≤ stop)
    (hcooling : w.redis.coolingDown w.now phone = false) (code : String) :
    ∃ m' < m, World.AllowsCodes E phone { w with redis := w.redis.issue E w.now phone code } stop
      m' := by
  have hlt := h w.now le_rfl hstop hcooling
  cases m with
  | zero =>
    rw [Nat.cast_zero, Int.zero_mul, Int.add_zero] at hlt
    exact absurd hstop (not_le.mpr hlt)
  | succ m =>
    refine ⟨m, m.lt_succ_self, fun t ht hs hc => ?_⟩
    have hover : w.now + seconds E.cfg.otpResendCooldownSeconds ≤ t := by
      by_contra hbefore
      have hget : (w.redis.issue E w.now phone code).get t (.otpCooldown phone) = some "1" :=
        Expiring.get_eq_some_iff.mpr ⟨_, Redis.issue_otpCooldown, rfl, fun _ hd =>
          Option.some.inj hd ▸ lt_of_not_ge hbefore⟩
      rw [Redis.coolingDown, hget] at hc
      cases hc
    have hlt' : stop < w.now + (m + 1) * seconds E.cfg.otpResendCooldownSeconds := by
      exact_mod_cast hlt
    linarith

/-! ## The stored code and the other requests -/

theorem Secret.of_none : Secret E phone w a fun _ => none :=
  .dead fun _ => Expiring.get_of_none World.overlay_key

theorem Secret.of_drawn (hcounter : w.redis (.otpAttempts phone) = some ⟨c, some deadline⟩)
    (ha : E.cfg.otpMaxAttempts ≤ a + c) :
    Secret E phone w a fun n => some ⟨hashCode E (generateCode E n), some deadline⟩ := by
  by_cases hlive : w.now < deadline
  · exact .drawn hlive hcounter ha
  · refine .dead fun n => ?_
    by_contra hsome
    obtain ⟨v, hv⟩ := Option.ne_none_iff_exists'.mp hsome
    obtain ⟨e, he, _, hd⟩ := Expiring.get_eq_some_iff.mp hv
    cases World.overlay_key.symm.trans he
    exact hlive (hd _ rfl)

theorem Secret.tick (h : Secret E phone w a e) (dt : ℕ) : Secret E phone (w.tick dt) a e := by
  have hle : w.now ≤ (w.tick dt).now := Int.le_add_of_nonneg_right (Int.natCast_nonneg dt)
  cases h with
  | dead h =>
    refine .dead fun n => ?_
    by_contra hsome
    obtain ⟨v, hv⟩ := Option.ne_none_iff_exists'.mp hsome
    have hbefore := Expiring.get_of_le hle hv
    cases (h n).symm.trans hbefore
  | drawn _ hcounter ha => exact .of_drawn hcounter ha

theorem Secret.of_eq {w' : World} (h : Secret E phone w a e) (hnow : w'.now = w.now)
    (hr : w'.redis (.otpAttempts phone) = w.redis (.otpAttempts phone)) :
    Secret E phone w' a e := by
  cases h with
  | dead h =>
    refine .dead fun n => ?_
    rw [hnow]
    exact (Expiring.get_congr (World.overlay_key.trans World.overlay_key.symm)).trans (h n)
  | drawn hlive hcounter ha => exact .drawn (hnow ▸ hlive) (hr.trans hcounter) ha

/-- A request about something else does not go to the keys of the phone. -/
theorem Request.not_goesTo_phone {r : Request} (hasks : r.asksCode phone = false)
    (htries : r.triesCode phone = false) : ¬ r.GoesTo (.otpCode phone) ∧
      ¬ r.GoesTo (.otpAttempts phone) ∧ ¬ r.GoesTo (.otpCooldown phone) := by
  cases r with
  | user =>
    refine ⟨?_, ?_, ?_⟩
    all_goals
      rintro (⟨d, h⟩ | ⟨d, h⟩) <;> cases h
  | auth route draws =>
    have hother : phone ∉ route.codePhone? := by
      intro hp
      cases route with
      | requestOtp body =>
        cases hp
        exact of_decide_eq_false hasks rfl
      | verifyOtp body =>
        cases hp
        exact of_decide_eq_false htries rfl
      | _ => cases hp
    refine ⟨?_, ?_, ?_⟩
    all_goals
      rintro ⟨p, hp, h | h | h⟩ <;> cases h
      exact hother hp

/-! ## One request -/

variable {A : Guesser} {k : ℕ} {answers : List Response}

theorem chance_stopped (hstop : stop < (w.tick (A answers).1).now) :
    chance E phone A stop (k + 1) (answers, w) = 0 := by
  rw [chance, if_pos hstop]

theorem chance_asks (hstop : ¬ stop < (w.tick (A answers).1).now)
    (hasks : (A answers).2.asksCode phone = true) : chance E phone A stop (k + 1) (answers, w) =
      (∑ n ∈ Finset.range (10 ^ E.cfg.otpLength), chance E phone A stop k
        (Attack.send E ((A answers).2.drawing n) (answers, w.tick (A answers).1))) /
      (10 ^ E.cfg.otpLength : ℕ) := by
  rw [chance, if_neg hstop, if_pos hasks]

theorem chance_sends (hstop : ¬ stop < (w.tick (A answers).1).now)
    (hasks : (A answers).2.asksCode phone = false)
    (hout : ((A answers).2.triesCode phone &&
      (serve E (A answers).2 (w.tick (A answers).1)).1.isSuccess) = false) :
    chance E phone A stop (k + 1) (answers, w) =
      chance E phone A stop k (Attack.send E (A answers).2 (answers, w.tick (A answers).1)) := by
  rw [chance, if_neg hstop, hasks, if_neg Bool.false_ne_true, hout, if_neg Bool.false_ne_true]

theorem chance_le_one (k : ℕ) (a : Attack) : chance E phone A stop k a ≤ 1 := by
  induction k generalizing a with
  | zero => exact zero_le_one
  | succ k ih =>
    rw [chance]
    split
    · exact zero_le_one
    split
    · refine div_le_one_of_le₀ ?_ (Nat.cast_nonneg _)
      have hsum := Finset.sum_le_card_nsmul (Finset.range (10 ^ E.cfg.otpLength)) _ (1 : ℚ)
        fun n _ => ih (Attack.send E ((A a.1).2.drawing n) (a.1, a.2.tick (A a.1).1))
      rwa [Finset.card_range, nsmul_one] at hsum
    split
    · exact le_rfl
    · exact ih _

/-- A request for a code: it changes nothing, or replaces the code by one that he knows nothing
about. -/
theorem Secret.asks (hdelivery : ∀ n, deliveryAnswer E phone n = deliveryAnswer E phone 0)
    (hstop : ¬ stop < (w.tick (A answers).1).now) (hasks : (A answers).2.asksCode phone = true)
    (h : Secret E phone (w.tick (A answers).1) a e)
    (hm : (w.tick (A answers).1).AllowsCodes E phone stop m) :
    Guessing.Turn (chance E phone A stop) (10 ^ E.cfg.otpLength) E.cfg.otpMaxAttempts
      (Guessable E phone stop) k a m fun n => (answers, w.overlay (.otpCode phone) (e n)) := by
  have hv (n : ℕ) := chance_asks (E := E) (k := k) (w := w.overlay (.otpCode phone) (e n)) hstop
    hasks
  obtain ⟨body, draws, hr, rfl⟩ : ∃ body draws, (A answers).2 = .auth (.requestOtp body) draws ∧
      body.phone = phone := by
    cases hr : (A answers).2 with
    | user => rw [hr] at hasks; cases hasks
    | auth route draws =>
      rw [hr] at hasks
      cases route with
      | requestOtp body => exact ⟨body, draws, rfl, of_decide_eq_true hasks⟩
      | _ => cases hasks
  simp only [hr, Request.drawing, World.tick_overlay] at hv
  generalize w.tick (A answers).1 = w' at hv h hm hstop
  have hserved (n i : ℕ) := requestOtp_drawing (E := E)
    (w := w'.overlay (.otpCode body.phone) (e n)) body draws i
  cases hu : codeUser w' body.phone with
  | none =>
    have hsend (n i : ℕ) : Attack.send E (.auth (.requestOtp body) { draws with randbelow := i })
        (answers, w'.overlay (.otpCode body.phone) (e n)) =
        (answers ++ [otpAccepted], w'.overlay (.otpCode body.phone) (e n)) := by
      rw [Attack.send, (hserved n i).answer, (hserved n i).world, codeUser_overlay, hu]
    refine .blind le_rfl le_rfl (.intro (answers ++ [otpAccepted]) h hm) fun n _ => ?_
    have hmean :
        chance E body.phone A stop (k + 1) (answers, w.overlay (.otpCode body.phone) (e n)) =
        (∑ _i ∈ Finset.range (10 ^ E.cfg.otpLength), chance E body.phone A stop k
          (answers ++ [otpAccepted], w'.overlay (.otpCode body.phone) (e n))) /
        (10 ^ E.cfg.otpLength : ℕ) := by
      simp only [hv, hsend]
    rw [hmean, Finset.sum_const, Finset.card_range, nsmul_eq_mul]
    exact le_of_eq (mul_div_cancel_left₀ _ (Nat.cast_ne_zero.mpr (Nat.pow_pos (by decide)).ne'))
  | some u =>
    obtain ⟨m', hlt, hallows⟩ := hm.issue (not_lt.mp hstop) (coolingDown_of_codeUser hu)
      (generateCode E 0)
    have hdrawn : Secret E body.phone
        { w' with redis := w'.redis.issue E w'.now body.phone (generateCode E 0) }
        E.cfg.otpMaxAttempts _ := .of_drawn Redis.issue_otpAttempts (Nat.le_add_right _ _)
    refine .redraw hlt (.intro (answers ++ [deliveryAnswer E body.phone 0]) hdrawn hallows)
      fun n _ => ?_
    refine le_of_eq ((hv n).trans (congrArg (· / _) (Finset.sum_congr rfl fun i _ =>
      congrArg _ ?_)))
    rw [Attack.send, (hserved n i).answer, (hserved n i).world, codeUser_overlay, hu]
    refine Prod.ext (congrArg (answers ++ [·]) (hdelivery i)) ?_
    exact congrArg (fun r => { w' with redis := r }) Redis.issue_put

/-- A try: if the code is not met, one try less is left with it. -/
theorem Secret.tries (hone : ∀ n < 10 ^ E.cfg.otpLength, ∀ n' < 10 ^ E.cfg.otpLength,
      hashCode E (generateCode E n) = hashCode E (generateCode E n') → n = n')
    (hstop : ¬ stop < (w.tick (A answers).1).now) (hasks : (A answers).2.asksCode phone = false)
    (htries : (A answers).2.triesCode phone = true)
    (h : Secret E phone (w.tick (A answers).1) a e)
    (hm : (w.tick (A answers).1).AllowsCodes E phone stop m) :
    Guessing.Turn (chance E phone A stop) (10 ^ E.cfg.otpLength) E.cfg.otpMaxAttempts
      (Guessable E phone stop) k a m fun n => (answers, w.overlay (.otpCode phone) (e n)) := by
  have hv (n : ℕ) := chance_sends (E := E) (k := k) (w := w.overlay (.otpCode phone) (e n)) hstop
    hasks
  obtain ⟨body, draws, hr, rfl⟩ : ∃ body draws, (A answers).2 = .auth (.verifyOtp body) draws ∧
      body.phone = phone := by
    cases hr : (A answers).2 with
    | user => rw [hr] at htries; cases htries
    | auth route draws =>
      rw [hr] at htries
      cases route with
      | verifyOtp body => exact ⟨body, draws, rfl, of_decide_eq_true htries⟩
      | _ => cases htries
  simp only [hr, World.tick_overlay] at hv
  generalize w.tick (A answers).1 = w' at hv h hm hstop
  -- What is left when the code has not been accepted.
  have hrefused (n : ℕ) {r : Redis} (hverify : Redis.verify E
      (w'.overlay (.otpCode body.phone) (e n)).redis w'.now body.phone body.code = (false, r)) :
      chance E body.phone A stop (k + 1) (answers, w.overlay (.otpCode body.phone) (e n)) ≤
        chance E body.phone A stop k (answers ++ [codeRefused], { w' with redis := r }) := by
    have hserve := verifyOtp_refused (w := w'.overlay (.otpCode body.phone) (e n)) body draws
      (congrArg Prod.fst hverify)
    have hs := hv n (by rw [hserve, Bool.and_eq_false_iff]; exact .inr rfl)
    rw [hs, Attack.send, hserve]
    exact le_of_eq (congrArg (fun r => chance E body.phone A stop k
      (answers ++ [codeRefused], { w' with redis := r })) (congrArg Prod.snd hverify))
  have hcooldown {r : Redis}
      (hr : r (.otpCooldown body.phone) = w'.redis (.otpCooldown body.phone)) :
      World.AllowsCodes E body.phone { w' with redis := r } stop m := hm.of_eq rfl hr
  have hburn (r : Redis) : (r.burn body.phone) (.otpCooldown body.phone) =
      r (.otpCooldown body.phone) := by
    rw [Redis.burn_apply, if_neg (by nofun)]
  cases h with
  | dead h =>
    exact .blind le_rfl le_rfl (.intro (answers ++ [codeRefused]) (.dead h) hm) fun n _ =>
      hrefused n (Redis.verify_absent (h n))
  | @drawn deadline c hlive hcounter ha =>
    have htried (n : ℕ) : Redis.Tried (w'.overlay (.otpCode body.phone)
        (some ⟨hashCode E (generateCode E n), some deadline⟩)).redis w'.now deadline body.phone
        (hashCode E (generateCode E n)) c :=
      ⟨hlive, World.overlay_key, (World.overlay_ne (by nofun)).trans hcounter⟩
    by_cases hc : E.cfg.otpMaxAttempts ≤ c
    · exact .blind le_rfl le_rfl (.intro (answers ++ [codeRefused]) .of_none (hcooldown (hburn _)))
        fun n _ => hrefused n (((htried n).verify_spent hc).trans (congrArg _ Redis.burn_put))
    have hlt : a - 1 < a := by omega
    have hmiss {n : ℕ} (hne : ¬ hashCode E (generateCode E n) = hashCode E body.code) :=
      (htried n).verify_wrong_try (Nat.lt_of_not_le hc) hne
    have hincr : (w'.redis.incr w'.now body.phone) (.otpCooldown body.phone) =
        w'.redis (.otpCooldown body.phone) := Redis.incr_ne (by nofun)
    have hmet : ∀ n < 10 ^ E.cfg.otpLength, ∀ n' < 10 ^ E.cfg.otpLength,
        hashCode E (generateCode E n) = hashCode E body.code →
        hashCode E (generateCode E n') = hashCode E body.code → n = n' :=
      fun n hn n' hn' hcode hcode' => hone n hn n' hn' (hcode.trans hcode'.symm)
    by_cases hlast : E.cfg.otpMaxAttempts ≤ c + 1
    · simp only [if_pos hlast] at hmiss
      exact .guess _ hmet hlt
        (.intro (answers ++ [codeRefused]) .of_none (hcooldown ((hburn _).trans hincr)))
        (fun n _ => chance_le_one _ _) fun n _ hne => hrefused n ((hmiss hne).trans
          (congrArg _ ((congrArg (Redis.burn · body.phone) Redis.incr_put).trans Redis.burn_put)))
    · simp only [if_neg hlast] at hmiss
      have hsecret : Secret E body.phone { w' with redis := w'.redis.incr w'.now body.phone }
          (a - 1)
          _ := .drawn hlive (Redis.incr_of_live hcounter hlive) (by omega)
      exact .guess _ hmet hlt
        (.intro (answers ++ [codeRefused]) hsecret (hcooldown hincr))
        (fun n _ => chance_le_one _ _) fun n _ hne => hrefused n ((hmiss hne).trans
          (congrArg _ Redis.incr_put))

/-! ## The chance of a whole period -/

/-- Whatever he sends. -/
theorem Guessable.turn (hone : ∀ n < 10 ^ E.cfg.otpLength, ∀ n' < 10 ^ E.cfg.otpLength,
      hashCode E (generateCode E n) = hashCode E (generateCode E n') → n = n')
    (hdelivery : ∀ n, deliveryAnswer E phone n = deliveryAnswer E phone 0) {F : ℕ → Attack}
    (hF : Guessable E phone stop a m F) :
    Guessing.Turn (chance E phone A stop) (10 ^ E.cfg.otpLength) E.cfg.otpMaxAttempts
      (Guessable E phone stop) k a m F := by
  obtain @⟨answers, w, e, hsecret, hm⟩ := hF
  replace hsecret := hsecret.tick (A answers).1
  replace hm := hm.tick (A answers).1
  by_cases hstop : stop < (w.tick (A answers).1).now
  · exact .ended fun n _ => (chance_stopped (w := w.overlay (.otpCode phone) (e n)) hstop).le
  cases hasks : (A answers).2.asksCode phone with
  | true => exact hsecret.asks hdelivery hstop hasks hm
  | false =>
    cases htries : (A answers).2.triesCode phone with
    | true => exact hsecret.tries hone hstop hasks htries hm
    | false =>
      obtain ⟨hcode, hattempts, hcooldown⟩ := Request.not_goesTo_phone hasks htries
      have hnow : (serve E (A answers).2 (w.tick (A answers).1)).2.now = _ := serve_now
      have hnext := Guessable.intro
        (answers ++ [(serve E (A answers).2 (w.tick (A answers).1)).1])
        (hsecret.of_eq hnow (serve_redis hattempts _)) (hm.of_eq hnow (serve_redis hcooldown _))
      refine .blind le_rfl le_rfl hnext fun n _ => ?_
      rw [chance_sends (w := w.overlay (.otpCode phone) (e n)) hstop hasks (by rw [htries]; rfl),
        World.tick_overlay, Attack.send, serve_overlay hcode]

/-- **Guessing.** In a period somebody who sees no message is let in with the phone of another by at
most the chance of `otp_max_attempts` different codes for each cooldown that fits, whatever he sends
and however often. -/
theorem code_guess_chance (hprod : E.cfg.appEnv = .production)
    (hhash : ∀ m n, hashCode E (generateCode E m) = hashCode E (generateCode E n) →
      generateCode E m = generateCode E n)
    (hdelivery : ∀ n, deliveryAnswer E phone n = deliveryAnswer E phone 0)
    (hcooldown : 0 < E.cfg.otpResendCooldownSeconds)
    (hnone : (w.redis.get w.now (.otpCode phone) : Option String) = none) (A : Guesser)
    (period k : ℕ) : chance E phone A (w.now + seconds period) k ([], w) ≤
      (period / E.cfg.otpResendCooldownSeconds + 1 : ℕ) * E.cfg.otpMaxAttempts /
        (10 ^ E.cfg.otpLength : ℕ) := by
  have hone : ∀ n < 10 ^ E.cfg.otpLength, ∀ n' < 10 ^ E.cfg.otpLength,
      hashCode E (generateCode E n) = hashCode E (generateCode E n') → n = n' :=
    fun n hn n' hn' h => generateCode_injective hprod hn hn' (hhash n n' h)
  have hstart : Guessable E phone (w.now + seconds period) 0
      (period / E.cfg.otpResendCooldownSeconds + 1) fun _ => ([], w) := by
    have h := Guessable.intro (a := 0) []
        (.dead (e := fun _ => w.redis (.otpCode phone)) fun _ => by
      rw [World.overlay_self, hnone]) (World.allowsCodes hcooldown period)
    rwa [World.overlay_self] at h
  exact Guessing.chance_le (fun _ => le_rfl) (Nat.pow_pos (by decide))
    (fun _ _ _ _ hF => hF.turn hone hdelivery) hstart k

end

/-! ## Half of the digits -/

namespace Sample

/-- Codes of one digit. -/
def oneDigit : Env := { env with cfg := { appEnv := .production, otpLength := 1 } }

/-- Alice has a phone. -/
def ringWorld : World :=
  { world with
    db := { world.db with
      users := world.db.users.update 1 fun u => { u with phone := some "+4901" } } }

/-- Have a code sent, and try the digits one after another. -/
def inOrder : Guesser := fun answers => (0, match answers.length with
  | 0 => .auth (.requestOtp ⟨"+4901"⟩) (draws 0)
  | i + 1 => .auth (.verifyOtp ⟨"+4901", toString i⟩) (draws 0))

end Sample

/-- Five digits of ten: the bound is met. -/
theorem inOrder_chance :
    chance Sample.oneDigit "+4901" Sample.inOrder (seconds 59) 6 ([], Sample.ringWorld) = 1 / 2 ∧
    chance Sample.oneDigit "+4901" Sample.inOrder (seconds 59) 6 ([], Sample.ringWorld) ≤
      (59 / 60 + 1 : ℕ) * (5 : ℕ) / (10 ^ 1 : ℕ) := by
  have hhash (m n : ℕ) (h : hashCode Sample.oneDigit (generateCode Sample.oneDigit m) =
      hashCode Sample.oneDigit (generateCode Sample.oneDigit n)) :
      generateCode Sample.oneDigit m = generateCode Sample.oneDigit n := by
    have hlists : "#".toList ++ (generateCode Sample.oneDigit m).toList =
        "#".toList ++ (generateCode Sample.oneDigit n).toList := by
      rw [← String.toList_append, ← String.toList_append]
      exact congrArg String.toList h
    exact String.toList_injective (List.append_cancel_left hlists)
  refine ⟨by decide +kernel, ?_⟩
  exact code_guess_chance (E := Sample.oneDigit) (w := Sample.ringWorld) rfl hhash (fun _ => rfl)
    (by decide) rfl Sample.inOrder 59 6

end Rawbin
