import Rawbin.Library.Batches
import Rawbin.Backend

/-!
# The lifetime of a one-time code

Calls of `issue_code` and `verify_code` one after the other. Beside the world a run keeps, for each
phone, the codes that were issued and what became of them. The three keys of a phone say the same
about its latest code: the hash is there while the code can be redeemed, the counter counts the
wrong tries, the cooldown keeps the next code away.
-/

namespace Rawbin

/-- A code that was issued, and what became of it. -/
structure Issuance where
  code : String
  issuedAt : Time
  redeemed : Bool
  /-- How often another code was tried since. -/
  wrong : Nat
  /-- When the hash of another code was compared with its hash. -/
  compared : List Time

/-- A world, the codes issued up to now, the latest one first, and the wrong codes that were
compared with a stored hash. -/
structure CodeHistory where
  world : World
  issued : String → List Issuance
  compared : List (String × Time)

inductive CodeEvent where
  | issue (phone : String) (randbelow : Nat)
  | verify (phone code : String)
  | tick (dt : Nat)

/-- Time passes, or a call is about this phone. -/
def CodeEvent.concerns (p : String) : CodeEvent → Bool
  | .issue phone _ => phone = p
  | .verify phone _ => phone = p
  | .tick _ => true

variable (E : Env)

/-- What `verify_code` returns. -/
def verified (w : World) (phone code : String) : Bool :=
  match (machine.runConst .ok (verifyCode E phone code []) .idle w).1 with
  | .ok (b, _) => b
  | .error _ => false

/-- The call compares a stored hash with another one. -/
def comparesWrong (w : World) (phone code : String) : Bool :=
  match (w.redis.get w.now (.otpCode phone) : Option String) with
  | none => false
  | some storedHash =>
    (w.redis.get w.now (.otpAttempts phone) : Option Nat).getD 0 < E.cfg.otpMaxAttempts &&
      storedHash ≠ hashCode E code

/-- A code was tried. -/
def Issuance.tried (i : Issuance) (now : Time) (code : String) (result compares : Bool) :
    Issuance where
  code := i.code
  issuedAt := i.issuedAt
  redeemed := i.redeemed || result
  wrong := if code = i.code then i.wrong else i.wrong + 1
  compared := if compares then now :: i.compared else i.compared

def CodeEvent.apply : CodeEvent → CodeHistory → CodeHistory
  | .issue phone randbelow, h =>
    let r := machine.runConst .ok (issueCode E phone randbelow []) .idle h.world
    { world := r.2.2
      issued := match r.1 with
        | .ok (code, _) => Function.update h.issued phone
            (⟨code, h.world.now, false, 0, []⟩ :: h.issued phone)
        | .error _ => h.issued
      compared := h.compared }
  | .verify phone code, h =>
    let result := verified E h.world phone code
    let compares := comparesWrong E h.world phone code
    { world := (machine.runConst .ok (verifyCode E phone code []) .idle h.world).2.2
      issued := Function.update h.issued phone ((h.issued phone).modifyHead fun i =>
        i.tried h.world.now code result compares)
      compared := if compares then (phone, h.world.now) :: h.compared else h.compared }
  | .tick dt, h => { h with world := h.world.tick dt }

/-- The history after these events. -/
def codeRun (w₀ : World) (es : List CodeEvent) : CodeHistory :=
  es.foldl (fun h e => e.apply E h) ⟨w₀, fun _ => [], []⟩

/-- The code can be redeemed: it is young enough, has not been redeemed, and too few others have
been tried. -/
def Issuance.Live (now : Time) (i : Issuance) : Prop :=
  now < i.issuedAt + seconds E.cfg.otpTtlSeconds ∧ i.redeemed = false ∧
    i.wrong < E.cfg.otpMaxAttempts

/-! ## The calls -/

namespace Redis

/-- The keys of a code that was issued. -/
def issue (r : Redis) (now : Time) (phone code : String) : Redis :=
  let ttl := some (now + seconds E.cfg.otpTtlSeconds)
  ((r.set (.otpCode phone) (hashCode E code) ttl).set (.otpAttempts phone) (0 : Nat) ttl).set
    (.otpCooldown phone) "1" (some (now + seconds E.cfg.otpResendCooldownSeconds))

def burn (r : Redis) (phone : String) : Redis := r.delAll [.otpCode phone, .otpAttempts phone]

/-- The resend cooldown of the phone is not over. -/
def coolingDown (r : Redis) (now : Time) (phone : String) : Bool :=
  (r.get now (.otpCooldown phone) : Option String).any (· ≠ "")

def counter (r : Redis) (now : Time) (phone : String) : Nat :=
  (r.get now (.otpAttempts phone) : Option Nat).getD 0

/-- What a call of `verify_code` returns and leaves. -/
def verify (r : Redis) (now : Time) (phone code : String) : Bool × Redis :=
  match (r.get now (.otpCode phone) : Option String) with
  | none => (false, r)
  | some storedHash =>
    if r.counter now phone ≥ E.cfg.otpMaxAttempts then (false, r.burn phone)
    else if storedHash = hashCode E code then (true, r.burn phone)
    else if (r.incremented now phone).value ≥ E.cfg.otpMaxAttempts
      then (false, (r.incr now phone).burn phone)
    else (false, r.incr now phone)

end Redis

variable {E} {w : World} {t : Session} {phone code : String}

/-- The part of `verify_code` from the comparison on. -/
theorem compare_run {storedHash : String} : machine.runConst .ok ((if storedHash = hashCode E code
      then (do burnCode phone; pure true : Handler Bool)
      else do
        let newAttempts : Nat ← .redis (.incr phone)
        .when (newAttempts ≥ E.cfg.otpMaxAttempts) (burnCode phone)
        pure false) []) t w =
    let r := if storedHash = hashCode E code then (true, w.redis.burn phone)
      else if (w.redis.incremented w.now phone).value ≥ E.cfg.otpMaxAttempts
        then (false, (w.redis.incr w.now phone).burn phone)
      else (false, w.redis.incr w.now phone)
    (.ok (r.1, []), t, { w with redis := r.2 }) := by
  by_cases hhash : storedHash = hashCode E code
  · simp only [if_pos hhash]
    rfl
  · simp only [if_neg hhash]
    show machine.runConst .ok (.cmd (.redis (.incr phone)) _) t w = _
    rw [Machine.runConst_cmd]
    simp only [machine, Cmd.exec, RedisCmd.exec, Prog.pure_bind, Handler.when, Handler.bind_apply,
      Handler.ite_apply]
    split <;> rfl

theorem verifyCode_run : machine.runConst .ok (verifyCode E phone code []) t w =
    (.ok ((w.redis.verify E w.now phone code).1, []), t,
      { w with redis := (w.redis.verify E w.now phone code).2 }) := by
  show machine.runConst .ok (.cmd (.redis (.get (.otpCode phone))) _) t w = _
  rw [Machine.runConst_cmd]
  simp only [machine, Cmd.exec, RedisCmd.exec, Prog.pure_bind, Redis.verify]
  cases hcode : w.redis.get w.now (.otpCode phone) with
  | none => rfl
  | some storedHash =>
    show machine.runConst .ok ((if w.redis.counter w.now phone ≥ E.cfg.otpMaxAttempts
      then (do burnCode phone; pure false : Handler Bool) else _) []) t w = _
    by_cases hcounter : w.redis.counter w.now phone ≥ E.cfg.otpMaxAttempts
    · simp only [if_pos hcounter]
      rfl
    · simp only [if_neg hcounter]
      exact compare_run

theorem issueCode_run {randbelow : Nat} :
    machine.runConst .ok (issueCode E phone randbelow []) t w =
      if (w.redis.get w.now (.otpCooldown phone) : Option String).any (· ≠ "")
      then (.error .otpCooldownError, t, w)
      else (.ok (generateCode E randbelow, []), t,
        { w with redis := w.redis.issue E w.now phone (generateCode E randbelow) }) := by
  show machine.runConst .ok (.cmd (.redis (.get (.otpCooldown phone))) _) t w = _
  rw [Machine.runConst_cmd]
  simp only [machine, Cmd.exec, RedisCmd.exec, Prog.pure_bind, Handler.when, Handler.bind_apply,
    Handler.ite_apply]
  split <;> rfl

theorem verified_eq : verified E w phone code = (w.redis.verify E w.now phone code).1 := by
  rw [verified, verifyCode_run]

namespace Redis

variable {r : Redis} {now : Time}

theorem verify_absent (h : r.get now (.otpCode phone) = none) :
    r.verify E now phone code = (false, r) := by
  rw [verify, h]

theorem verify_match (h : r.get now (.otpCode phone) = some (hashCode E code))
    (hn : r.counter now phone < E.cfg.otpMaxAttempts) :
    r.verify E now phone code = (true, r.burn phone) := by
  rw [verify, h]
  simp only [if_neg (Nat.not_le.mpr hn), if_pos]

theorem verify_mismatch {storedHash : String} (h : r.get now (.otpCode phone) = some storedHash)
    (hn : r.counter now phone < E.cfg.otpMaxAttempts) (hne : storedHash ≠ hashCode E code) :
    r.verify E now phone code = (false,
      if (r.incremented now phone).value ≥ E.cfg.otpMaxAttempts then (r.incr now phone).burn phone
      else r.incr now phone) := by
  rw [verify, h]
  simp only [if_neg (Nat.not_le.mpr hn), if_neg hne]
  split <;> rfl

theorem burn_apply (r : Redis) (k : RedisKey) : r.burn phone k =
    if k = .otpCode phone ∨ k = .otpAttempts phone then none else r k := by
  rw [burn, Expiring.delAll]
  simp only [List.mem_cons, List.not_mem_nil, or_false]

theorem incr_ne {k : RedisKey} (h : k ≠ .otpAttempts phone) : r.incr now phone k = r k :=
  Expiring.set_ne h

/-- The keys that `verify_code` leaves alone. -/
theorem verify_of_ne {k : RedisKey} (hc : k ≠ .otpCode phone) (ha : k ≠ .otpAttempts phone) :
    (r.verify E now phone code).2 k = r k := by
  have hburn (r : Redis) : r.burn phone k = r k := by
    rw [burn_apply, if_neg (not_or.mpr ⟨hc, ha⟩)]
  rw [verify]
  split
  · rfl
  · split
    · exact hburn r
    · split
      · exact hburn r
      · split
        · exact (hburn _).trans (incr_ne ha)
        · exact incr_ne ha

/-- Only the stored code verifies. -/
theorem get_of_verify (h : (r.verify E now phone code).1 = true) :
    (r.get now (.otpCode phone) : Option String) = some (hashCode E code) := by
  rw [verify] at h
  split at h
  · cases h
  · rename_i storedHash hget
    by_cases hhash : storedHash = hashCode E code
    · rw [hget, hhash]
    · rw [if_neg hhash] at h
      split at h
      · cases h
      · split at h <;> cases h

/-- No call of `verify_code` stores a code. -/
theorem verify_otpCode (p : String) : (r.verify E now phone code).2 (.otpCode p) = r (.otpCode p) ∨
    (r.verify E now phone code).2 (.otpCode p) = none := by
  have hburn (r : Redis) : r.burn phone (.otpCode p) = r (.otpCode p) ∨
      r.burn phone (.otpCode p) = none := by
    rw [burn_apply]
    split
    · exact .inr rfl
    · exact .inl rfl
  have hincr : r.incr now phone (.otpCode p) = r (.otpCode p) := incr_ne (by nofun)
  rw [verify]
  split
  · exact .inl rfl
  · split
    · exact hburn r
    · split
      · exact hburn r
      · split
        · exact hincr ▸ hburn _
        · exact .inl hincr

theorem issue_otpCode : r.issue E now phone code (.otpCode phone) =
    some ⟨hashCode E code, some (now + seconds E.cfg.otpTtlSeconds)⟩ := by
  rw [issue, Expiring.set_ne (by nofun), Expiring.set_ne (by nofun), Expiring.set_self]

theorem issue_otpAttempts : r.issue E now phone code (.otpAttempts phone) =
    some ⟨(0 : Nat), some (now + seconds E.cfg.otpTtlSeconds)⟩ := by
  rw [issue, Expiring.set_ne (by nofun), Expiring.set_self]

theorem issue_otpCooldown : r.issue E now phone code (.otpCooldown phone) =
    some ⟨"1", some (now + seconds E.cfg.otpResendCooldownSeconds)⟩ := by
  rw [issue, Expiring.set_self]

theorem issue_of_ne {k : RedisKey} (hc : k ≠ .otpCode phone) (ha : k ≠ .otpAttempts phone)
    (hw : k ≠ .otpCooldown phone) : r.issue E now phone code k = r k := by
  rw [issue, Expiring.set_ne hw, Expiring.set_ne ha, Expiring.set_ne hc]

end Redis

/-! ## The keys of a phone -/

variable (E)

def Issuance.expiresAt (i : Issuance) : Time := i.issuedAt + seconds E.cfg.otpTtlSeconds

/-- The keys of the code have been deleted. -/
def Issuance.burnt (i : Issuance) : Bool := i.redeemed || E.cfg.otpMaxAttempts ≤ i.compared.length

/-- The hash of the code is stored. -/
def Issuance.Stored (now : Time) (i : Issuance) : Prop := i.burnt E = false ∧ now < i.expiresAt E

def Issuance.batch (i : Issuance) : Batch := ⟨i.issuedAt, i.compared⟩

/-- What is stored for a phone whose latest code is the first of these. -/
def storedCode : List Issuance → Option (Entry Time String)
  | [] => none
  | i :: _ => if i.burnt E then none else some ⟨hashCode E i.code, some (i.expiresAt E)⟩

def storedCooldown : List Issuance → Option (Entry Time String)
  | [] => none
  | i :: _ => some ⟨"1", some (i.issuedAt + seconds E.cfg.otpResendCooldownSeconds)⟩

/-- The counter of a code counts the comparisons with it, which are all the wrong tries as long as
it can be redeemed. -/
structure Issuance.Counted (r : Redis) (now : Time) (phone : String) (i : Issuance) : Prop where
  stored : i.burnt E = false →
    r (.otpAttempts phone) = some ⟨i.compared.length, some (i.expiresAt E)⟩
  le : i.compared.length ≤ i.wrong
  eq : i.burnt E = false → now < i.expiresAt E → i.wrong = i.compared.length

/-- The keys of a phone agree with its history. -/
structure PhoneInv (r : Redis) (now : Time) (phone : String) (is : List Issuance) : Prop where
  code : r (.otpCode phone) = storedCode E is
  cooldown : r (.otpCooldown phone) = storedCooldown E is
  counted : ∀ i ∈ is.head?, i.Counted E r now phone
  past : ∀ i ∈ is, i.issuedAt ≤ now ∧ ∀ t ∈ i.compared, t ≤ now
  batches : Batches (seconds E.cfg.otpResendCooldownSeconds) E.cfg.otpMaxAttempts
    (is.map Issuance.batch)

variable {E}

namespace PhoneInv

variable {r : Redis} {now : Time} {is : List Issuance} {i : Issuance}

/-- Nothing happened to the keys of the phone. -/
theorem frame (H : PhoneInv E r now phone is) {r' : Redis} {now' : Time} (hnow : now ≤ now')
    (hcode : r' (.otpCode phone) = r (.otpCode phone))
    (hattempts : r' (.otpAttempts phone) = r (.otpAttempts phone))
    (hcooldown : r' (.otpCooldown phone) = r (.otpCooldown phone)) :
    PhoneInv E r' now' phone is where
  code := hcode.trans H.code
  cooldown := hcooldown.trans H.cooldown
  counted i hi := by
    have h := H.counted i hi
    exact ⟨fun hb => hattempts.trans (h.stored hb), h.le,
      fun hb hlt => h.eq hb (lt_of_le_of_lt hnow hlt)⟩
  past i hi := by
    have h := H.past i hi
    exact ⟨h.1.trans hnow, fun t ht => (h.2 t ht).trans hnow⟩
  batches := H.batches

/-- A code is issued when the cooldown of the one before is over. -/
theorem issue (H : PhoneInv E r now phone is)
    (hcool : (r.get now (.otpCooldown phone) : Option String).any (· ≠ "") = false)
    (hmax : 1 ≤ E.cfg.otpMaxAttempts) :
    PhoneInv E (r.issue E now phone code) now phone (⟨code, now, false, 0, []⟩ :: is) := by
  have hfresh : (⟨code, now, false, 0, []⟩ : Issuance).burnt E = false := by
    simp only [Issuance.burnt, Bool.false_or, List.length_nil, decide_eq_false_iff_not]
    omega
  have hlast : ∀ i ∈ is.head?, i.issuedAt + seconds E.cfg.otpResendCooldownSeconds ≤ now := by
    intro i hi
    obtain ⟨is', rfl⟩ := List.head?_eq_some_iff.mp hi
    by_contra hlt
    have hget : r.get now (.otpCooldown phone) = some "1" :=
      Expiring.get_eq_some_iff.mpr ⟨_, H.cooldown, rfl, fun d hd => by
        cases hd
        exact lt_of_not_ge hlt⟩
    rw [hget] at hcool
    revert hcool
    decide
  refine ⟨?_, ?_, ?_, ?_, ?_⟩
  · rw [storedCode, hfresh, Redis.issue_otpCode]
    rfl
  · rw [storedCooldown, Redis.issue_otpCooldown]
  · intro i hi
    cases hi
    refine ⟨fun _ => ?_, le_rfl, fun _ _ => rfl⟩
    exact Redis.issue_otpAttempts
  · intro i hi
    rcases List.mem_cons.mp hi with rfl | hi
    · exact ⟨le_rfl, fun _ h => nomatch h⟩
    · exact H.past i hi
  · refine H.batches.opened fun b hb => ?_
    obtain ⟨i, hi, rfl⟩ := List.mem_map.mp hb
    refine ⟨?_, (H.past i hi).2⟩
    cases is with
    | nil => cases hi
    | cons i₀ is =>
      have h₀ := hlast i₀ rfl
      rcases List.mem_cons.mp hi with rfl | hi
      · exact h₀
      · have hgap := (List.rel_of_pairwise_cons H.batches.after (List.mem_map_of_mem hi)).1
        exact hgap.trans (H.past i₀ List.mem_cons_self).1

/-- What became of the latest code. -/
theorem replace (H : PhoneInv E r now phone (i :: is)) {i' : Issuance} {r' : Redis}
    (hat : i'.issuedAt = i.issuedAt) (hcode : r' (.otpCode phone) = storedCode E (i' :: is))
    (hcooldown : r' (.otpCooldown phone) = r (.otpCooldown phone))
    (hcounted : i'.Counted E r' now phone)
    (hcompared : i'.compared = i.compared ∨
      i'.compared = now :: i.compared ∧ i.compared.length < E.cfg.otpMaxAttempts) :
    PhoneInv E r' now phone (i' :: is) where
  code := hcode
  cooldown := by
    rw [hcooldown, H.cooldown, storedCooldown, storedCooldown, hat]
  counted j hj := by
    cases hj
    exact hcounted
  past j hj := by
    rcases List.mem_cons.mp hj with rfl | hj
    · have hpast := H.past i List.mem_cons_self
      refine ⟨hat ▸ hpast.1, fun t ht => ?_⟩
      rcases hcompared with hc | ⟨hc, _⟩
      · exact hpast.2 t (hc ▸ ht)
      · rw [hc] at ht
        rcases List.mem_cons.mp ht with rfl | ht
        · exact le_rfl
        · exact hpast.2 t ht
    · exact H.past j (List.mem_cons_of_mem _ hj)
  batches := by
    have hb := H.batches
    rw [List.map_cons, Issuance.batch] at hb ⊢
    rcases hcompared with hc | ⟨hc, hlen⟩
    · rw [hat, hc]
      exact hb
    · rw [hat, hc]
      exact hb.event hlen (H.past i List.mem_cons_self).1

/-- A code is tried when no hash is stored. -/
theorem absent (H : PhoneInv E w.redis w.now phone (i :: is))
    (hdead : i.burnt E = false → i.expiresAt E ≤ w.now) :
    PhoneInv E w.redis w.now phone (i.tried w.now code false false :: is) := by
  have hcounted := H.counted i rfl
  have hburnt : (i.tried w.now code false false).burnt E = i.burnt E := by
    simp [Issuance.burnt, Issuance.tried]
  refine H.replace rfl (H.code.trans ?_) rfl ⟨fun hb => ?_, ?_, fun hb hlt => ?_⟩ (.inl rfl)
  · rw [storedCode, storedCode, hburnt]
    rfl
  · exact hcounted.stored (hburnt ▸ hb)
  · have hle := hcounted.le
    simp only [Issuance.tried, Bool.false_eq_true, if_false]
    split <;> omega
  · exact absurd hlt (not_lt_of_ge (hdead (hburnt ▸ hb)))

/-- The hash of a code that can be redeemed is stored, and its counter. -/
theorem stored (H : PhoneInv E w.redis w.now phone (i :: is)) (hb : i.burnt E = false)
    (hlt : w.now < i.expiresAt E) :
    w.redis.get w.now (.otpCode phone) = some (hashCode E i.code) ∧
      w.redis.entry w.now (.otpAttempts phone) = some
        ⟨i.compared.length, some (i.expiresAt E)⟩ := by
  have hcode := H.code
  rw [storedCode, hb] at hcode
  constructor
  · refine Expiring.get_eq_some_iff.mpr ⟨_, hcode, rfl, fun d hd => ?_⟩
    cases hd
    exact hlt
  · refine Expiring.entry_eq_some_iff.mpr ⟨(H.counted i rfl).stored hb, fun d hd => ?_⟩
    cases hd
    exact hlt

/-- A code is tried when the latest one is no longer stored. -/
theorem verify_dead (H : PhoneInv E w.redis w.now phone (i :: is))
    (hdead : i.burnt E = false → i.expiresAt E ≤ w.now) (code : String) :
    w.redis.verify E w.now phone code = (false, w.redis) ∧
      comparesWrong E w phone code = false ∧ ¬ i.Live E w.now := by
  have hget : w.redis.get w.now (.otpCode phone) = none := by
    cases hb : i.burnt E
    · have hcode := H.code
      rw [storedCode, hb] at hcode
      by_contra hsome
      obtain ⟨s, hs⟩ := Option.ne_none_iff_exists'.mp hsome
      obtain ⟨e, he, _, hd⟩ := Expiring.get_eq_some_iff.mp hs
      cases hcode.symm.trans he
      exact absurd (hd _ rfl) (not_lt_of_ge (hdead hb))
    · have hcode := H.code
      rw [storedCode, hb] at hcode
      exact Expiring.get_of_none hcode
  refine ⟨Redis.verify_absent hget, ?_, ?_⟩
  · rw [comparesWrong, hget]
  · rintro ⟨hlt, hr, hw⟩
    cases hb : i.burnt E
    · exact absurd hlt (not_lt_of_ge (hdead hb))
    · have hle := (H.counted i rfl).le
      simp only [Issuance.burnt, hr, Bool.false_or, decide_eq_true_eq] at hb
      omega

/-- The keys of the latest code are deleted. -/
theorem burn (H : PhoneInv E r now phone (i :: is)) {i' : Issuance} {r' : Redis}
    (hat : i'.issuedAt = i.issuedAt) (hburnt : i'.burnt E = true)
    (hcooldown : r' (.otpCooldown phone) = r (.otpCooldown phone))
    (hle : i'.compared.length ≤ i'.wrong)
    (hcompared : i'.compared = i.compared ∨
      i'.compared = now :: i.compared ∧ i.compared.length < E.cfg.otpMaxAttempts) :
    PhoneInv E (r'.burn phone) now phone (i' :: is) := by
  refine H.replace hat ?_ ?_ ⟨fun h => ?_, hle, fun h => ?_⟩ hcompared
  · rw [storedCode, hburnt, Redis.burn_apply, if_pos (.inl rfl)]
    rfl
  · rw [Redis.burn_apply, if_neg (not_or.mpr ⟨nofun, nofun⟩), hcooldown]
  · cases hburnt.symm.trans h
  · cases hburnt.symm.trans h

theorem counter_eq (H : PhoneInv E w.redis w.now phone (i :: is)) (hb : i.burnt E = false)
    (hlt : w.now < i.expiresAt E) : w.redis.counter w.now phone = i.compared.length := by
  rw [Redis.counter, Expiring.get_of_entry (H.stored hb hlt).2]
  rfl

/-- The latest code is tried. -/
theorem verify_right (H : PhoneInv E w.redis w.now phone (i :: is)) (hb : i.burnt E = false)
    (hlt : w.now < i.expiresAt E) :
    PhoneInv E (w.redis.verify E w.now phone i.code).2 w.now phone
        (i.tried w.now i.code (verified E w phone i.code) (comparesWrong E w phone i.code) :: is) ∧
      verified E w phone i.code = true ∧ comparesWrong E w phone i.code = false := by
  obtain ⟨-, hlen⟩ : i.redeemed = false ∧ i.compared.length < E.cfg.otpMaxAttempts := by
    simpa [Issuance.burnt] using hb
  have hget := (H.stored hb hlt).1
  have hv := Redis.verify_match (E := E) hget (H.counter_eq hb hlt ▸ hlen)
  have hcompares : comparesWrong E w phone i.code = false := by
    rw [comparesWrong, hget]
    simp
  rw [verified_eq, hv, hcompares]
  refine ⟨H.burn rfl ?_ rfl ?_ (.inl rfl), rfl, rfl⟩
  · simp [Issuance.burnt, Issuance.tried]
  · simp only [Issuance.tried, if_true, Bool.false_eq_true, if_false]
    exact ((H.counted i rfl).eq hb hlt).ge

/-- Another code is tried while the latest one is stored. -/
theorem verify_wrong (H : PhoneInv E w.redis w.now phone (i :: is))
    (hhash : Function.Injective E.crypto.sha256) (hb : i.burnt E = false)
    (hlt : w.now < i.expiresAt E) (hc : code ≠ i.code) :
    PhoneInv E (w.redis.verify E w.now phone code).2 w.now phone
        (i.tried w.now code (verified E w phone code) (comparesWrong E w phone code) :: is) ∧
      verified E w phone code = false ∧ comparesWrong E w phone code = true := by
  obtain ⟨hget, hentry⟩ := H.stored hb hlt
  obtain ⟨hred, hlen⟩ : i.redeemed = false ∧ i.compared.length < E.cfg.otpMaxAttempts := by
    simpa [Issuance.burnt] using hb
  have hwrong := (H.counted i rfl).eq hb hlt
  have hleft : w.redis.counter w.now phone < E.cfg.otpMaxAttempts := H.counter_eq hb hlt ▸ hlen
  have hne : hashCode E i.code ≠ hashCode E code := fun h => hc (hhash h).symm
  have hv := Redis.verify_mismatch (E := E) hget hleft hne
  have hincr : w.redis.incremented w.now phone =
      ⟨i.compared.length + 1, some (i.expiresAt E)⟩ := by
    rw [Redis.incremented, hentry]
  have hcompares : comparesWrong E w phone code = true := by
    rw [comparesWrong, hget]
    exact Bool.and_eq_true_iff.mpr ⟨decide_eq_true hleft, decide_eq_true hne⟩
  have htried : i.tried w.now code false true =
      { i with wrong := i.wrong + 1, compared := w.now :: i.compared } := by
    simp [Issuance.tried, hc]
  rw [verified_eq, hv, hcompares, htried, hincr]
  dsimp only
  refine ⟨?_, rfl, rfl⟩
  by_cases hfull : i.compared.length + 1 ≥ E.cfg.otpMaxAttempts
  · rw [if_pos hfull]
    refine H.burn rfl ?_ (Redis.incr_ne (by simp)) (Nat.succ_le_succ hwrong.ge)
      (.inr ⟨rfl, hlen⟩)
    simp only [Issuance.burnt, List.length_cons, decide_eq_true hfull, Bool.or_true]
  · have hburnt : ({ i with wrong := i.wrong + 1, compared := w.now :: i.compared } :
        Issuance).burnt E = false := by
      simp only [Issuance.burnt, List.length_cons, hred, Bool.false_or]
      exact decide_eq_false hfull
    rw [if_neg hfull]
    refine H.replace rfl ?_ ?_ ⟨fun _ => ?_, ?_, fun _ _ => ?_⟩ (.inr ⟨rfl, hlen⟩)
    · have hcode := H.code
      rw [storedCode, hb] at hcode
      rw [storedCode, hburnt, Redis.incr_ne (by simp), hcode]
      rfl
    · exact Redis.incr_ne (by simp)
    · rw [Redis.incr, hincr]
      exact Expiring.set_self
    · exact Nat.succ_le_succ hwrong.ge
    · exact congrArg Nat.succ hwrong

/-- A code is tried while the latest one is stored. -/
theorem verify_stored (H : PhoneInv E w.redis w.now phone (i :: is))
    (hhash : Function.Injective E.crypto.sha256) (hb : i.burnt E = false)
    (hlt : w.now < i.expiresAt E) (code : String) :
    PhoneInv E (w.redis.verify E w.now phone code).2 w.now phone
        (i.tried w.now code (verified E w phone code) (comparesWrong E w phone code) :: is) ∧
      (verified E w phone code = true ↔ i.Live E w.now ∧ code = i.code) ∧
      (comparesWrong E w phone code = true ↔ code ≠ i.code) := by
  by_cases hc : code = i.code
  · subst hc
    obtain ⟨H', hverified, hcompares⟩ := H.verify_right hb hlt
    obtain ⟨hred, hlen⟩ : i.redeemed = false ∧ i.compared.length < E.cfg.otpMaxAttempts := by
      simpa [Issuance.burnt] using hb
    have hlive : i.Live E w.now := ⟨hlt, hred, (H.counted i rfl).eq hb hlt ▸ hlen⟩
    exact ⟨H', iff_of_true hverified ⟨hlive, rfl⟩,
      iff_of_false (by rw [hcompares]; nofun) fun h => h rfl⟩
  · obtain ⟨H', hverified, hcompares⟩ := H.verify_wrong hhash hb hlt hc
    exact ⟨H', iff_of_false (by rw [hverified]; nofun) fun h => hc h.2, iff_of_true hcompares hc⟩

/-- A code is tried. -/
theorem verify (H : PhoneInv E w.redis w.now phone is) (hhash : Function.Injective E.crypto.sha256)
    (code : String) :
    PhoneInv E (w.redis.verify E w.now phone code).2 w.now phone
        (is.modifyHead fun i => i.tried w.now code (verified E w phone code)
          (comparesWrong E w phone code)) ∧
      (verified E w phone code = true ↔ ∃ i ∈ is.head?, i.Live E w.now ∧ code = i.code) ∧
      (comparesWrong E w phone code = true ↔ ∃ i ∈ is.head?, i.Stored E w.now ∧ code ≠ i.code) := by
  cases is with
  | nil =>
    have hget : w.redis.get w.now (.otpCode phone) = none := Expiring.get_of_none H.code
    have hcompares : comparesWrong E w phone code = false := by
      rw [comparesWrong, hget]
    rw [verified_eq, hcompares, Redis.verify_absent hget]
    exact ⟨H, by simp, by simp⟩
  | cons i is =>
    simp only [List.modifyHead_cons, List.head?_cons, Option.mem_some_iff, exists_eq_left']
    by_cases hs : i.Stored E w.now
    · obtain ⟨h, hv, hc⟩ := H.verify_stored hhash hs.1 hs.2 code
      exact ⟨h, hv, hc.trans (and_iff_right hs).symm⟩
    · have hdead : i.burnt E = false → i.expiresAt E ≤ w.now :=
        fun hb => le_of_not_gt fun hlt => hs ⟨hb, hlt⟩
      obtain ⟨hv, hc, hl⟩ := H.verify_dead hdead code
      rw [verified_eq, hv, hc]
      exact ⟨H.absent hdead, iff_of_false nofun fun h => hl h.1,
        iff_of_false nofun fun h => hs h.1⟩

end PhoneInv

/-! ## Runs -/

variable (E)

/-- The keys of every phone agree with its history, and so do the comparisons. -/
structure CodeHistory.Inv (h : CodeHistory) : Prop where
  phone : ∀ p, PhoneInv E h.world.redis h.world.now p (h.issued p)
  compared : ∀ p, (h.compared.filter (·.1 = p)).map Prod.snd =
    (h.issued p).flatMap Issuance.compared

variable {E}

namespace CodeHistory.Inv

variable {h h' : CodeHistory} {p : String}

theorem init {w₀ : World} (hredis : ∀ p, w₀.redis (.otpCode p) = none ∧
    w₀.redis (.otpCooldown p) = none) : Inv E ⟨w₀, fun _ => [], []⟩ where
  phone p := ⟨(hredis p).1, (hredis p).2, nofun, fun _ hi => (nomatch hi), .nil⟩
  compared _ := rfl

/-- A call about one phone. -/
theorem update (H : h.Inv E) {r : Redis} {phone : String} {is : List Issuance}
    {compared : List (String × Time)} (hphone : PhoneInv E r h.world.now phone is)
    (hother : ∀ k : RedisKey, k ≠ .otpCode phone → k ≠ .otpAttempts phone →
      k ≠ .otpCooldown phone → r k = h.world.redis k)
    (hcompared : ∀ p, (compared.filter (·.1 = p)).map Prod.snd =
      (Function.update h.issued phone is p).flatMap Issuance.compared) :
    Inv E ⟨{ h.world with redis := r }, Function.update h.issued phone is, compared⟩ := by
  refine ⟨fun p => ?_, hcompared⟩
  by_cases hp : p = phone
  · subst hp
    simpa only [Function.update_self] using hphone
  · simp only [Function.update_of_ne hp]
    refine (H.phone p).frame le_rfl (hother _ ?_ ?_ ?_) (hother _ ?_ ?_ ?_) (hother _ ?_ ?_ ?_) <;>
      simp [hp]

theorem issue (H : h.Inv E) (hmax : 1 ≤ E.cfg.otpMaxAttempts) (phone : String) (randbelow : Nat) :
    ((CodeEvent.issue phone randbelow).apply E h).Inv E := by
  rw [CodeEvent.apply, issueCode_run]
  split
  · exact H
  · rename_i hcool
    refine H.update ((H.phone phone).issue (Bool.eq_false_iff.mpr hcool) hmax)
      (fun k => Redis.issue_of_ne) fun p => (H.compared p).trans ?_
    by_cases hp : p = phone
    · subst hp
      rw [Function.update_self, List.flatMap_cons]
      rfl
    · rw [Function.update_of_ne hp]

theorem verify (H : h.Inv E) (hhash : Function.Injective E.crypto.sha256) (phone code : String) :
    ((CodeEvent.verify phone code).apply E h).Inv E := by
  obtain ⟨hinv, _, hcompares⟩ := (H.phone phone).verify hhash code
  rw [CodeEvent.apply, verifyCode_run]
  refine H.update hinv (fun k hc ha _ => Redis.verify_of_ne hc ha) fun p => ?_
  have hp := H.compared p
  by_cases hphone : p = phone
  · subst hphone
    rw [Function.update_self]
    cases his : h.issued p with
    | nil =>
      rw [his] at hcompares hp
      rw [if_neg (by rw [hcompares]; rintro ⟨_, ⟨⟩, _⟩)]
      exact hp
    | cons i is =>
      rw [his] at hp
      rw [List.modifyHead_cons, List.flatMap_cons, Issuance.tried]
      split
      · rw [List.filter_cons_of_pos (by simp), List.map_cons, hp]
        rfl
      · exact hp
  · rw [Function.update_of_ne hphone]
    split
    · rw [List.filter_cons_of_neg (by simpa using Ne.symm hphone), hp]
    · exact hp

theorem tick (H : h.Inv E) (dt : Nat) : ((CodeEvent.tick dt).apply E h).Inv E where
  phone p := (H.phone p).frame (Int.le_add_of_nonneg_right (Int.natCast_nonneg dt)) rfl rfl rfl
  compared := H.compared

theorem apply (H : h.Inv E) (hhash : Function.Injective E.crypto.sha256)
    (hmax : 1 ≤ E.cfg.otpMaxAttempts) (e : CodeEvent) : (e.apply E h).Inv E := by
  cases e with
  | issue phone randbelow => exact H.issue hmax phone randbelow
  | verify phone code => exact H.verify hhash phone code
  | tick dt => exact H.tick dt

/-- What was compared with the hashes of a phone came in batches, one for each code. -/
theorem countP_window (H : h.Inv E) (hcooldown : 1 ≤ E.cfg.otpResendCooldownSeconds) (p : String)
    (a : Time) (T : Nat) :
    h.compared.countP (fun e => e.1 = p && Batches.inside a (a + T) e.2) ≤
      E.cfg.otpMaxAttempts * (T / (E.cfg.otpResendCooldownSeconds * 1000000) + 2) := by
  have hgap : seconds E.cfg.otpResendCooldownSeconds =
      (E.cfg.otpResendCooldownSeconds * 1000000 : Nat) := by
    rw [seconds, Nat.cast_mul]
    rfl
  have hpos : 0 < seconds E.cfg.otpResendCooldownSeconds := by
    rw [hgap]
    omega
  have hwindow := (H.phone p).batches.countP_window hpos a T
  have hevents : ((h.issued p).map Issuance.batch).flatMap Batch.events =
      (h.compared.filter (·.1 = p)).map Prod.snd := by
    rw [H.compared, List.flatMap_map]
    rfl
  rw [hevents, List.countP_map, List.countP_filter] at hwindow
  calc h.compared.countP (fun e => e.1 = p && Batches.inside a (a + T) e.2)
      = h.compared.countP fun e =>
          (Batches.inside a (a + T) ∘ Prod.snd) e && decide (e.1 = p) := by
        simp only [Function.comp_apply, Bool.and_comm]
    _ ≤ E.cfg.otpMaxAttempts *
          ((T / seconds E.cfg.otpResendCooldownSeconds : ℤ).toNat + 2) := hwindow
    _ = E.cfg.otpMaxAttempts * (T / (E.cfg.otpResendCooldownSeconds * 1000000) + 2) := by
        rw [hgap, ← Int.natCast_ediv, Int.toNat_natCast]

/-- What a code is worth follows from the history of its phone. -/
theorem verified_iff (H : h.Inv E) (hhash : Function.Injective E.crypto.sha256) (p code : String) :
    verified E h.world p code = true ↔
      ∃ i ∈ (h.issued p).head?, i.Live E h.world.now ∧ code = i.code :=
  ((H.phone p).verify hhash code).2.1

/-- A call about a phone does the same after two runs with the same history of the phone. -/
theorem apply_congr (H : h.Inv E) (H' : h'.Inv E) (hhash : Function.Injective E.crypto.sha256)
    (hnow : h.world.now = h'.world.now) (hp : h.issued p = h'.issued p) {e : CodeEvent}
    (he : e.concerns p = true) :
    (e.apply E h).world.now = (e.apply E h').world.now ∧
      (e.apply E h).issued p = (e.apply E h').issued p := by
  cases e with
  | issue phone randbelow =>
    cases of_decide_eq_true he
    have hcooldown : h.world.redis.get h.world.now (.otpCooldown p) =
        h'.world.redis.get h'.world.now (.otpCooldown p) := by
      rw [hnow]
      refine Expiring.get_congr ?_
      rw [(H.phone p).cooldown, (H'.phone p).cooldown, hp]
    simp only [CodeEvent.apply, issueCode_run, hcooldown]
    split
    · exact ⟨hnow, hp⟩
    · simp only [Function.update_self, hp, hnow, and_self]
  | verify phone code =>
    cases of_decide_eq_true he
    have hverified : verified E h.world p code = verified E h'.world p code := by
      rw [Bool.eq_iff_iff, H.verified_iff hhash, H'.verified_iff hhash, hnow, hp]
    have hcompares : comparesWrong E h.world p code = comparesWrong E h'.world p code := by
      rw [Bool.eq_iff_iff, ((H.phone p).verify hhash code).2.2,
        ((H'.phone p).verify hhash code).2.2, hnow,
        hp]
    simp only [CodeEvent.apply, verifyCode_run, Function.update_self, hverified, hcompares, hp,
      hnow, and_self]
  | tick dt => exact ⟨congrArg (· + (dt : Int)) hnow, hp⟩

end CodeHistory.Inv

/-- A call about another phone. -/
theorem CodeEvent.apply_other {e : CodeEvent} {p : String} (he : e.concerns p = false)
    (h : CodeHistory) :
    (e.apply E h).world.now = h.world.now ∧ (e.apply E h).issued p = h.issued p := by
  cases e with
  | issue phone randbelow =>
    have hp : p ≠ phone := Ne.symm (of_decide_eq_false he)
    rw [CodeEvent.apply, issueCode_run]
    split
    · exact ⟨rfl, rfl⟩
    · exact ⟨rfl, Function.update_of_ne hp _ _⟩
  | verify phone code =>
    have hp : p ≠ phone := Ne.symm (of_decide_eq_false he)
    rw [CodeEvent.apply, verifyCode_run]
    exact ⟨rfl, Function.update_of_ne hp _ _⟩
  | tick dt => cases he

theorem codeRun_snoc (w₀ : World) (es : List CodeEvent) (e : CodeEvent) :
    codeRun E w₀ (es ++ [e]) = e.apply E (codeRun E w₀ es) := List.foldl_append

theorem codeRun_inv {w₀ : World} (hredis : ∀ p, w₀.redis (.otpCode p) = none ∧
      w₀.redis (.otpCooldown p) = none) (hhash : Function.Injective E.crypto.sha256)
    (hmax : 1 ≤ E.cfg.otpMaxAttempts) (es : List CodeEvent) : (codeRun E w₀ es).Inv E := by
  induction es using List.reverseRecOn with
  | nil => exact .init hredis
  | append_singleton es e ih =>
    rw [codeRun_snoc]
    exact ih.apply hhash hmax e

/-- The history of a phone is that of the calls about it. -/
theorem codeRun_filter {w₀ : World} (hredis : ∀ p, w₀.redis (.otpCode p) = none ∧
      w₀.redis (.otpCooldown p) = none) (hhash : Function.Injective E.crypto.sha256)
    (hmax : 1 ≤ E.cfg.otpMaxAttempts) (p : String) (es : List CodeEvent) :
    (codeRun E w₀ es).world.now = (codeRun E w₀ (es.filter (·.concerns p))).world.now ∧
      (codeRun E w₀ es).issued p = (codeRun E w₀ (es.filter (·.concerns p))).issued p := by
  induction es using List.reverseRecOn with
  | nil => exact ⟨rfl, rfl⟩
  | append_singleton es e ih =>
    obtain ⟨hnow, hp⟩ := ih
    rw [codeRun_snoc, List.filter_append]
    cases he : e.concerns p with
    | true =>
      rw [List.filter_cons_of_pos he, List.filter_nil, codeRun_snoc]
      exact (codeRun_inv hredis hhash hmax es).apply_congr
        (codeRun_inv hredis hhash hmax _) hhash hnow hp he
    | false =>
      rw [List.filter_cons_of_neg (by rw [he]; nofun), List.filter_nil, List.append_nil]
      obtain ⟨hnow', hp'⟩ := CodeEvent.apply_other he (codeRun E w₀ es)
      exact ⟨hnow'.trans hnow, hp'.trans hp⟩

/-- **The lifetime of a code.** Whatever was called before, a phone has at most one code to redeem,
its latest one, for a while, once, and while too few others have been tried; other phones have
nothing to do with it; and the wrong codes compared in a window of time are bounded. -/
theorem codeRun_verified {w₀ : World} (hredis : ∀ p, w₀.redis (.otpCode p) = none ∧
      w₀.redis (.otpCooldown p) = none) (hhash : Function.Injective E.crypto.sha256)
    (hmax : 1 ≤ E.cfg.otpMaxAttempts) (hcooldown : 1 ≤ E.cfg.otpResendCooldownSeconds)
    (es : List CodeEvent) (p code : String) :
    (verified E (codeRun E w₀ es).world p code = true ↔
      ∃ i ∈ ((codeRun E w₀ es).issued p).head?,
        i.Live E (codeRun E w₀ es).world.now ∧ code = i.code) ∧
    verified E (codeRun E w₀ es).world p code =
      verified E (codeRun E w₀ (es.filter (·.concerns p))).world p code ∧
    ∀ (a : Time) (T : Nat),
      (codeRun E w₀ es).compared.countP (fun e => e.1 = p && Batches.inside a (a + T) e.2) ≤
        E.cfg.otpMaxAttempts * (T / (E.cfg.otpResendCooldownSeconds * 1000000) + 2) := by
  have hinv := codeRun_inv hredis hhash hmax
  refine ⟨(hinv es).verified_iff hhash p code, ?_, (hinv es).countP_window hcooldown p⟩
  obtain ⟨hnow, hp⟩ := codeRun_filter hredis hhash hmax p es
  rw [Bool.eq_iff_iff, (hinv es).verified_iff hhash, (hinv _).verified_iff hhash, hnow, hp]

/-- A wrong try, and a code for Bob in between, do not burn the code of Alice. -/
theorem codeRun_redeemed :
    let es : List CodeEvent :=
      [.issue "+4901" 0, .issue "+4902" 0, .verify "+4901" "0", .tick 1000000]
    ∃ i ∈ ((codeRun Sample.env Sample.deviceWorld es).issued "+4901").head?,
      i.Live Sample.env (codeRun Sample.env Sample.deviceWorld es).world.now ∧
        "123456" = i.code := by
  intro es
  have hhash : Function.Injective Sample.env.crypto.sha256 := fun _ _ h =>
    String.append_right_inj _ |>.mp h
  refine (codeRun_verified (fun _ => ⟨rfl, rfl⟩) hhash (by decide) (by decide) es "+4901"
    "123456").1.mp ?_
  decide +kernel

end Rawbin
