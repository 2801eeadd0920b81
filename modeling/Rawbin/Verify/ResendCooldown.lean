import Rawbin.Verify.LocalAssertions
import Rawbin.Verify.TokenPairs
import Rawbin.Verify.UniformAnswers

/-!
# Concurrent requests for a code

`request_otp` tests the cooldown with its first command to Redis and sets it with its fourth; the
message goes out after the fourth. Between the two another request may test the cooldown as well,
so the distance of two messages, and the agreement of the last message with the stored hash, hold
only in runs in which the requests take turns.
-/

namespace Rawbin

/-- A message with a code that the provider has accepted. -/
structure Sms where
  sentAt : Time
  code : String
  deriving DecidableEq

def requestsCode (phone : String) : Job → Bool
  | .http (.auth (.requestOtp body) _) => body.phone = phone
  | _ => false

/-- The code that the request issues if it issues one. -/
def drawnCode (E : Env) : Job → String
  | .http (.auth (.requestOtp _) draws) => generateCode E draws.randbelow
  | _ => ""

/-- The request has found no cooldown and has not set it yet. -/
def issuing : Log → Bool
  | _ :: ⟨_, .redis (.get (.otpCooldown _)), (v : Option String)⟩ :: rest =>
    !v.any (· ≠ "") && rest.length < 3
  | _ => false

def testsCooldown {ε α : Type} : Prog Cmd ε α → Bool
  | .cmd (.redis (.get (.otpCooldown _))) _ => true
  | _ => false

def setsCooldown {ε α : Type} : Prog Cmd ε α → Bool
  | .cmd (.redis (.setex (.otpCooldown _) _ _)) _ => true
  | _ => false

def accepted (E : Env) (phone code : String) : Bool :=
  match delivery E phone (otpMessage code) with
  | .ok _ => true
  | .error _ => false

/-- A request that tests the cooldown and finds none finds no other request between its own test and
the SETEX of the cooldown, and the provider accepts each message. -/
def inTurn (E : Env) (phone : String) (c : Pool) : Label Choice Job ℕ → Bool
  | .spawn j => requestsCode phone j
  | .env _ => true
  | .step i _ => c.threads[i]?.all fun t =>
    (!(testsCooldown t.prog && !c.state.redis.coolingDown c.state.now phone) ||
      c.threads.all fun u => !issuing u.log) &&
    (!setsCooldown t.prog || accepted E phone (drawnCode E t.req))

/-- The message that goes out with a step: the SETEX of the cooldown is the last command to Redis
before it. -/
def smsSent (E : Env) (phone : String) (c : Pool) : Label Choice Job ℕ → List Sms
  | .step i _ =>
    match c.threads[i]? with
    | some t =>
      if setsCooldown t.prog && accepted E phone (drawnCode E t.req) then
        [⟨c.state.now, drawnCode E t.req⟩]
      else []
    | none => []
  | _ => []

/-! ## One request -/

/-- The request issues no code any more. -/
def Concluded (log : Log) : Prop :=
  ∀ es : Log, (∀ e ∈ es, e.cmd.isRedis = false) → issuing (log ++ es) = false

/-- Where a request stands when it issues a command. -/
inductive IssueAt (E : Env) (phone code : String) : {β : Type} → Log → Cmd β → Prop where
  | lookup : IssueAt E phone code [] (.select (.userByPhone phone))
  | test (u : Option (Uuid × User)) :
    IssueAt E phone code [⟨_, .select (.userByPhone phone), u⟩] (.redis (.get (.otpCooldown phone)))
  | code (u : Option (Uuid × User)) (v : Option String) (hv : v.any (· ≠ "") = false) :
    IssueAt E phone code [⟨_, .select (.userByPhone phone), u⟩,
      ⟨_, .redis (.get (.otpCooldown phone)), v⟩]
      (.redis (.setex (.otpCode phone) E.cfg.otpTtlSeconds (hashCode E code)))
  | counter (u : Option (Uuid × User)) (v : Option String) (hv : v.any (· ≠ "") = false) :
    IssueAt E phone code [⟨_, .select (.userByPhone phone), u⟩,
      ⟨_, .redis (.get (.otpCooldown phone)), v⟩,
      ⟨_, .redis (.setex (.otpCode phone) E.cfg.otpTtlSeconds (hashCode E code)), ()⟩]
      (.redis (.setex (.otpAttempts phone) E.cfg.otpTtlSeconds (0 : Nat)))
  | cooldown (u : Option (Uuid × User)) (v : Option String) (hv : v.any (· ≠ "") = false) :
    IssueAt E phone code [⟨_, .select (.userByPhone phone), u⟩,
      ⟨_, .redis (.get (.otpCooldown phone)), v⟩,
      ⟨_, .redis (.setex (.otpCode phone) E.cfg.otpTtlSeconds (hashCode E code)), ()⟩,
      ⟨_, .redis (.setex (.otpAttempts phone) E.cfg.otpTtlSeconds (0 : Nat)), ()⟩]
      (.redis (.setex (.otpCooldown phone) E.cfg.otpResendCooldownSeconds "1"))
  | rest {β : Type} {log : Log} {c : Cmd β} (hc : c.isRedis = false) (h : Concluded log) :
    IssueAt E phone code log c

def IssueAssertion (E : Env) (phone : String) (j : Job) : Assertion := fun log _ c =>
  IssueAt E phone (drawnCode E j) log c

section
variable {E : Env} {phone : String} {log : Log}

theorem Concluded.issuing (h : Concluded log) : issuing log = false := by
  have hnil := h [] nofun
  rwa [List.append_nil] at hnil

theorem Concluded.snoc (h : Concluded log) (he : e.cmd.isRedis = false) :
    Concluded (log ++ [e]) := by
  intro es hes
  rw [List.append_assoc]
  refine h _ fun e' he' => ?_
  rcases List.mem_append.mp he' with h' | h'
  · exact List.mem_singleton.mp h' ▸ he
  · exact hes e' h'

theorem issuing_of_clear {e : Event Cmd} {v : Option String} {rest : Log}
    (hv : v.any (· ≠ "") = false) (h : rest.length < 3) :
    issuing (e :: ⟨_, .redis (.get (.otpCooldown phone)), v⟩ :: rest) = true := by
  show (!v.any (· ≠ "") && decide (rest.length < 3)) = true
  rw [hv, decide_eq_true h]
  rfl

theorem concluded_one (e : Event Cmd) : Concluded [e] := by
  rintro (_ | ⟨⟨β, c, a⟩, es⟩) hes
  · rfl
  · have hc : c.isRedis = false := hes _ List.mem_cons_self
    cases c with
    | redis => cases hc
    | _ => rfl

theorem concluded_cooldown {e : Event Cmd} {v : Option String} (hv : v.any (· ≠ "") = true) :
    Concluded [e, ⟨_, .redis (.get (.otpCooldown phone)), v⟩] := by
  intro es _
  show (!v.any (· ≠ "") && _) = false
  rw [hv]
  rfl

theorem concluded_issued {e e₁ e₂ e₃ : Event Cmd} {v : Option String} :
    Concluded [e, ⟨_, .redis (.get (.otpCooldown phone)), v⟩, e₁, e₂, e₃] := by
  intro es _
  show (!v.any (· ≠ "") && decide ((e₁ :: e₂ :: e₃ :: es).length < 3)) = false
  rw [Bool.and_eq_false_iff]
  exact .inr (decide_eq_false (by simp only [List.length_cons]; omega))

/-- A route that is done with Redis. -/
def LeavesConcluded : Ending (Response × List Write) := fun log ws r =>
  ws = [] ∧ Concluded log ∧ ∀ a, r = .ok a → a.2 = []

theorem LeavesConcluded.error (h : Concluded log) (e : Exn) : LeavesConcluded log [] (.error e) :=
  ⟨rfl, h, fun _ ha => by cases ha⟩

theorem LeavesConcluded.answer (h : Concluded log) (response : Response) :
    LeavesConcluded log [] (.ok (response, [])) := ⟨rfl, h, fun _ ha => by cases ha; rfl⟩

theorem deliver_keeps {I : Assertion} {recipient text : String} (h : Concluded log) :
    Keeps I LeavesConcluded log [] ((tryCatch (sendSms E recipient text) (fun
      | .smsDeliveryError => httpException 502 "Could not send the SMS code. Please try again."
      | e => throw e) []).bind fun r => .pure (otpAccepted, r.2)) := by
  rw [sendSms_eq]
  cases delivery E recipient text with
  | ok => exact .pure (.answer h _)
  | error e => cases e <;> exact .raise (.error h _)

theorem requestOtp_keeps {body : OTPRequestIn} {draws : Draws} :
    Keeps (IssueAssertion E body.phone (.http (.auth (.requestOtp body) draws))) LeavesConcluded []
      []
      (requestOtp E body draws []) := by
  have haccepted {log : Log} (h : Concluded log) :
      Keeps (IssueAssertion E body.phone (.http (.auth (.requestOtp body) draws)))
        LeavesConcluded log []
        (.pure (otpAccepted, [])) := .pure (.answer h _)
  refine .select .lookup fun db => ?_
  cases (Query.userByPhone body.phone).eval db with
  | none => exact haccepted (concluded_one _)
  | some found =>
    obtain ⟨id, user⟩ := found
    simp only [Prog.pure_bind]
    cases ha : user.isActive with
    | false => exact haccepted (concluded_one _)
    | true =>
      refine .redis (.test _) fun v => ?_
      simp only [Prog.pure_bind, Handler.when, Handler.bind_apply, Handler.ite_apply]
      cases hv : (v : Option String).any (· ≠ "") with
      | true =>
        simp only [if_true]
        exact haccepted (concluded_cooldown hv)
      | false =>
        simp only [Bool.false_eq_true, if_false]
        refine .redis (.code _ v hv) fun _ => .redis (.counter _ v hv) fun _ =>
          .redis (.cooldown _ v hv) fun _ => ?_
        exact deliver_keeps concluded_issued

theorem requestsCode_keeps {j : Job} (hj : requestsCode phone j = true) :
    Keeps (IssueAssertion E phone j) (fun _ _ _ => True) [] [] (j.prog E) := by
  cases j with
  | http r =>
    cases r with
    | auth route draws =>
      cases route with
      | requestOtp body =>
        obtain rfl : body.phone = phone := of_decide_eq_true hj
        refine .bind (R := fun _ _ _ => True) ?_ (fun _ _ _ _ => .pure trivial) fun _ _ _ _ =>
          trivial
        refine getDb_keeps requestOtp_keeps ?_ ?_
        · rintro log _ e ⟨rfl, h, _⟩
          exact .rollback (.rest rfl h) (.respond (.rest rfl (h.snoc rfl)) (.pure trivial))
        · rintro log _ response pending ⟨rfl, h, hp⟩
          obtain rfl : pending = [] := hp _ rfl
          exact .respond (.rest rfl h) (.commit (.rest rfl (h.snoc rfl)) (.pure trivial))
      | _ => cases hj
    | _ => cases hj
  | _ => cases hj

end

/-! ## Many requests -/

abbrev Threads := List (Thread Cmd Session Exn Job Outcome)

def CodeStored (E : Env) (phone code : String) (upTo : Time) (redis : Redis) : Prop :=
  ∃ storedAt ≤ upTo, redis (.otpCode phone) =
    some ⟨hashCode E code, some (storedAt + seconds E.cfg.otpTtlSeconds)⟩

def CounterReset (phone : String) (redis : Redis) : Prop :=
  ∃ deadline, redis (.otpAttempts phone) = some ⟨(0 : Nat), deadline⟩

/-- Whose turn it is: nobody's, and the code of the last message is stored; or that of one request,
and the cooldown is over. -/
inductive Turn (E : Env) (phone : String) (os : List Sms) (redis : Redis) (now : Time)
    (ts : Threads) : Prop where
  | free (idle : ∀ t ∈ ts, issuing t.log = false)
    (stored : ∀ s ∈ os.getLast?,
      CodeStored E phone s.code s.sentAt redis ∧ CounterReset phone redis)
  | taken {i : ℕ} {t : Thread Cmd Session Exn Job Outcome} (hi : ts[i]? = some t)
    (ht : issuing t.log = true)
    (others : ∀ j u, j ≠ i → ts[j]? = some u → issuing u.log = false)
    (clear : ∀ s ∈ os, s.sentAt + seconds E.cfg.otpResendCooldownSeconds ≤ now)
    (coded : 3 ≤ t.log.length → CodeStored E phone (drawnCode E t.req) now redis)
    (counted : 4 ≤ t.log.length → CounterReset phone redis)

/-- No two messages are closer than the cooldown. -/
def Spaced (E : Env) (os : List Sms) : Prop :=
  os.Pairwise fun s s' => s.sentAt + seconds E.cfg.otpResendCooldownSeconds ≤ s'.sentAt

structure IssueInv (E : Env) (phone : String) (os : List Sms) (redis : Redis) (now : Time)
    (ts : Threads) : Prop where
  spaced : Spaced E os
  cooldown : ∀ s ∈ os.getLast?, redis (.otpCooldown phone) =
    some ⟨"1", some (s.sentAt + seconds E.cfg.otpResendCooldownSeconds)⟩
  turn : Turn E phone os redis now ts

section
variable {E : Env} {phone : String} {os : List Sms} {redis : Redis} {now : Time} {ts : Threads}
variable {t t' : Thread Cmd Session Exn Job Outcome} {k : ℕ}

theorem seconds_nonneg (n : ℕ) : 0 ≤ seconds n := by
  rw [seconds]
  positivity

theorem CodeStored.mono {code : String} {upTo upTo' : Time} (h : CodeStored E phone code upTo redis)
    (hle : upTo ≤ upTo') : CodeStored E phone code upTo' redis := by
  obtain ⟨storedAt, hs, h⟩ := h
  exact ⟨storedAt, hs.trans hle, h⟩

/-- The request that issues commands of its turn is the one whose turn it is. -/
theorem Turn.of_issuing (h : Turn E phone os redis now ts) (hk : ts[k]? = some t)
    (ht : issuing t.log = true) :
    (∀ j u, j ≠ k → ts[j]? = some u → issuing u.log = false) ∧
      (∀ s ∈ os, s.sentAt + seconds E.cfg.otpResendCooldownSeconds ≤ now) ∧
      (3 ≤ t.log.length → CodeStored E phone (drawnCode E t.req) now redis) ∧
      (4 ≤ t.log.length → CounterReset phone redis) := by
  cases h with
  | free idle => exact absurd ht (by rw [idle t (List.mem_of_getElem? hk)]; nofun)
  | @taken i u hi hu others clear coded counted =>
    by_cases hik : k = i
    · subst hik
      cases hk.symm.trans hi
      exact ⟨others, clear, coded, counted⟩
    · exact absurd ht (by rw [others k t hik hk]; nofun)

theorem others_set (h : ∀ j u, j ≠ k → ts[j]? = some u → issuing u.log = false) :
    ∀ j u, j ≠ k → (ts.set k t')[j]? = some u → issuing u.log = false := by
  intro j u hj hu
  rw [List.getElem?_set_ne hj.symm] at hu
  exact h j u hj hu

theorem getElem?_set_self_of (hk : ts[k]? = some t) : (ts.set k t')[k]? = some t' :=
  List.getElem?_set_self (List.getElem?_eq_some_iff.mp hk).1

/-- All are idle once the one whose turn it is has finished. -/
theorem idle_set (h : ∀ j u, j ≠ k → ts[j]? = some u → issuing u.log = false)
    (ht' : issuing t'.log = false) : ∀ u ∈ ts.set k t', issuing u.log = false := by
  intro u hu
  obtain ⟨j, hj⟩ := List.getElem?_of_mem hu
  by_cases hjk : j = k
  · subst hjk
    rw [List.getElem?_set] at hj
    simp only [if_true, Option.ite_none_right_eq_some] at hj
    exact Option.some.inj hj.2 ▸ ht'
  · exact others_set h j u hjk hj

/-- A command outside a turn. -/
theorem Turn.quiet (h : Turn E phone os redis now ts) (hk : ts[k]? = some t)
    (ht : issuing t.log = false) (ht' : issuing t'.log = false) :
    Turn E phone os redis now (ts.set k t') := by
  cases h with
  | free idle stored =>
    exact .free (idle_set (fun j u _ hu => idle u (List.mem_of_getElem? hu)) ht') stored
  | @taken i u hi hu others clear coded counted =>
    have hik : k ≠ i := by
      rintro rfl
      cases hk.symm.trans hi
      rw [ht] at hu
      cases hu
    refine .taken (by rw [List.getElem?_set_ne hik]; exact hi) hu (fun j v hj hv => ?_) clear coded
      counted
    by_cases hjk : j = k
    · subst hjk
      cases (getElem?_set_self_of hk).symm.trans hv
      exact ht'
    · rw [List.getElem?_set_ne (Ne.symm hjk)] at hv
      exact others j v hj hv

namespace IssueInv

theorem init (redis : Redis) (now : Time) : IssueInv E phone [] redis now [] where
  spaced := .nil
  cooldown _ hs := absurd hs (Option.not_mem_none _)
  turn := .free (fun _ ht => absurd ht List.not_mem_nil) fun _ hs =>
    absurd hs (Option.not_mem_none _)

theorem spawn (h : IssueInv E phone os redis now ts) (j : Job) :
    IssueInv E phone os redis now (ts ++ [(backend E).spawn j]) := by
  refine ⟨h.spaced, h.cooldown, ?_⟩
  cases h.turn with
  | free idle stored =>
    refine .free (fun t ht => ?_) stored
    rcases List.mem_append.mp ht with ht | ht
    · exact idle t ht
    · cases List.mem_singleton.mp ht
      rfl
  | @taken i t hi ht others clear coded counted =>
    have hi' : (ts ++ [(backend E).spawn j])[i]? = some t := by
      rw [List.getElem?_append_left (List.getElem?_eq_some_iff.mp hi).1]
      exact hi
    refine .taken hi' ht (fun k u hk hu => ?_) clear coded counted
    rcases System.getElem?_snoc hu with hu | ⟨_, rfl⟩
    · exact others k u hk hu
    · rfl

theorem tick (h : IssueInv E phone os redis now ts) (dt : Nat) :
    IssueInv E phone os redis (now + dt) ts := by
  have hle : now ≤ now + dt := Int.le_add_of_nonneg_right (Int.natCast_nonneg dt)
  refine ⟨h.spaced, h.cooldown, ?_⟩
  cases h.turn with
  | free idle stored => exact .free idle stored
  | taken hi ht others clear coded counted =>
    exact .taken hi ht others (fun s hs => (clear s hs).trans hle)
      (fun hlen => (coded hlen).mono hle) counted

theorem quiet (h : IssueInv E phone os redis now ts) (hk : ts[k]? = some t)
    (ht : issuing t.log = false) (ht' : issuing t'.log = false) :
    IssueInv E phone os redis now (ts.set k t') :=
  ⟨h.spaced, h.cooldown, h.turn.quiet hk ht ht'⟩

/-- All messages are older than the cooldown when the key is gone. -/
theorem clear_of_not_coolingDown (h : IssueInv E phone os redis now ts)
    (hcool : redis.coolingDown now phone = false) :
    ∀ s ∈ os, s.sentAt + seconds E.cfg.otpResendCooldownSeconds ≤ now := by
  intro s hs
  obtain ⟨last, hlast⟩ : ∃ last, os.getLast? = some last := by
    rw [← Option.isSome_iff_exists, List.getLast?_isSome]
    exact List.ne_nil_of_mem hs
  have hover : last.sentAt + seconds E.cfg.otpResendCooldownSeconds ≤ now := by
    by_contra hnow
    have hget : (redis.get now (.otpCooldown phone) : Option String) = some "1" :=
      Expiring.get_eq_some_iff.mpr ⟨_, h.cooldown last hlast, rfl, fun d hd => by
        cases hd
        exact not_le.mp hnow⟩
    rw [Redis.coolingDown, hget] at hcool
    cases hcool
  obtain ⟨init, rfl⟩ := List.getLast?_eq_some_iff.mp hlast
  rcases List.mem_append.mp hs with hs | hs
  · have hle := (List.pairwise_append.mp h.spaced).2.2 s hs last (List.mem_singleton_self last)
    exact (hle.trans (le_add_of_nonneg_right (seconds_nonneg _))).trans hover
  · exact List.mem_singleton.mp hs ▸ hover

/-- A request finds no cooldown, and nobody else has a turn. -/
theorem take (h : IssueInv E phone os redis now ts) (hk : ts[k]? = some t)
    (hidle : ∀ u ∈ ts, issuing u.log = false) (hcool : redis.coolingDown now phone = false)
    (ht' : issuing t'.log = true) (hlen : t'.log.length = 2) :
    IssueInv E phone os redis now (ts.set k t') := by
  refine ⟨h.spaced, h.cooldown, .taken (getElem?_set_self_of hk) ht'
    (others_set fun j u _ hu => hidle u (List.mem_of_getElem? hu))
    (h.clear_of_not_coolingDown hcool) (fun h3 => ?_) fun h4 => ?_⟩ <;> omega

/-- The SETEX of the code. -/
theorem storeCode (h : IssueInv E phone os redis now ts) (hk : ts[k]? = some t)
    (ht : issuing t.log = true) (ht' : issuing t'.log = true) (hlen : t'.log.length = 3)
    (hreq : t'.req = t.req) :
    IssueInv E phone os (redis.set (.otpCode phone) (hashCode E (drawnCode E t.req))
      (some (now + seconds E.cfg.otpTtlSeconds))) now (ts.set k t') := by
  obtain ⟨others, clear, _, _⟩ := h.turn.of_issuing hk ht
  refine ⟨h.spaced, fun s hs => ?_, .taken (getElem?_set_self_of hk) ht' (others_set others) clear
    (fun _ => ⟨now, le_rfl, ?_⟩) fun h4 => ?_⟩
  · rw [Expiring.set_ne (by nofun)]
    exact h.cooldown s hs
  · rw [Expiring.set_self, hreq]
  · omega

/-- The SETEX of the counter. -/
theorem resetCounter (h : IssueInv E phone os redis now ts) (hk : ts[k]? = some t)
    (ht : issuing t.log = true) (hlen : t.log.length = 3) (ht' : issuing t'.log = true)
    (hreq : t'.req = t.req) (deadline : Option Time) :
    IssueInv E phone os (redis.set (.otpAttempts phone) (0 : Nat) deadline) now (ts.set k t') := by
  obtain ⟨others, clear, coded, _⟩ := h.turn.of_issuing hk ht
  refine ⟨h.spaced, fun s hs => ?_, .taken (getElem?_set_self_of hk) ht' (others_set others) clear
    (fun _ => ?_) fun _ => ⟨deadline, Expiring.set_self⟩⟩
  · rw [Expiring.set_ne (by nofun)]
    exact h.cooldown s hs
  · obtain ⟨storedAt, hle, hcode⟩ := coded hlen.ge
    exact ⟨storedAt, hle, by rw [Expiring.set_ne (by nofun), hreq]; exact hcode⟩

/-- The SETEX of the cooldown, with which the message goes out. -/
theorem send (h : IssueInv E phone os redis now ts) (hk : ts[k]? = some t)
    (ht : issuing t.log = true) (hlen : t.log.length = 4) (ht' : issuing t'.log = false) :
    IssueInv E phone (os ++ [Sms.mk now (drawnCode E t.req)]) (redis.set (.otpCooldown phone) "1"
      (some (now + seconds E.cfg.otpResendCooldownSeconds))) now (ts.set k t') := by
  obtain ⟨others, clear, coded, counted⟩ := h.turn.of_issuing hk ht
  have hlast {s : Sms} (hs : s ∈ (os ++ [Sms.mk now (drawnCode E t.req)]).getLast?) :
      s = Sms.mk now (drawnCode E t.req) := by
    rw [List.getLast?_concat] at hs
    exact (Option.some.inj hs).symm
  refine ⟨?_, fun s hs => ?_, .free (idle_set others ht') fun s hs => ?_⟩
  · refine List.pairwise_append.mpr ⟨h.spaced, List.pairwise_singleton _ _, fun s hs s' hs' => ?_⟩
    cases List.mem_singleton.mp hs'
    exact clear s hs
  · rw [hlast hs, Expiring.set_self]
  · rw [hlast hs]
    obtain ⟨storedAt, hle, hcode⟩ := coded (by omega)
    obtain ⟨deadline, hcounter⟩ := counted hlen.ge
    exact ⟨⟨storedAt, hle, by rw [Expiring.set_ne (by nofun)]; exact hcode⟩,
      deadline, by rw [Expiring.set_ne (by nofun)]; exact hcounter⟩

end IssueInv

theorem setsCooldown_of_isRedis {c : Cmd β} {f : β → Prog Cmd Exn Outcome} (h : c.isRedis = false) :
    setsCooldown (.cmd c f) = false := by
  cases c with
  | redis => cases h
  | _ => rfl

theorem IssueInv.step {c c' : Pool} {l : Label Choice Job ℕ}
    (h : IssueInv E phone os c.state.redis c.state.now c.threads)
    (hI : ∀ t ∈ c.threads, ∀ {β} {cm : Cmd β} {k}, t.prog = .cmd cm k →
      IssueAt E phone (drawnCode E t.req) t.log cm)
    (hok : inTurn E phone c l = true) (hs : (backend E).Step c l c') :
    IssueInv E phone (os ++ smsSent E phone c l) c'.state.redis c'.state.now c'.threads := by
  cases hs with
  | @spawn s ts r =>
    show IssueInv E phone (os ++ []) s.redis s.now (ts ++ [(backend E).spawn r])
    rw [List.append_nil]
    exact h.spawn r
  | @env s ts dt =>
    show IssueInv E phone (os ++ []) s.redis (s.now + dt) ts
    rw [List.append_nil]
    exact h.tick dt
  | @step ts i s β cm k t x hi hp hb =>
    have hat := hI t (List.mem_of_getElem? hi) hp
    have hlog : ((backend E).advance x t cm k s).log =
      t.log ++ [⟨β, cm, (cm.exec x t.sess s).1⟩] := rfl
    have hreq : ((backend E).advance x t cm k s).req = t.req := rfl
    simp only [inTurn, hi, Option.all_some, Bool.and_eq_true, hp] at hok
    simp only [smsSent, hi, hp]
    generalize (backend E).advance x t cm k s = t' at hlog hreq ⊢
    clear hb hI hp
    generalize hl : t.log = log at hat hlog
    change IssueInv E phone os s.redis s.now ts at h
    cases hat with
    | lookup =>
      show IssueInv E phone (os ++ []) s.redis s.now (ts.set i t')
      rw [List.append_nil]
      exact h.quiet hi (by rw [hl]; rfl) (by rw [hlog]; rfl)
    | test u =>
      show IssueInv E phone (os ++ []) s.redis s.now (ts.set i t')
      rw [List.append_nil]
      have hissuing : issuing t'.log = !s.redis.coolingDown s.now phone := by
        rw [hlog]
        exact Bool.and_true _
      cases hcool : s.redis.coolingDown s.now phone with
      | true => exact h.quiet hi (by rw [hl]; rfl) (by rw [hissuing, hcool]; rfl)
      | false =>
        have hidle : (ts.all fun u => !issuing u.log) = true := by
          simpa only [testsCooldown, hcool, Bool.not_false, Bool.and_self, Bool.not_true,
            Bool.false_or] using hok.1
        refine h.take hi (fun u hu => ?_) hcool (by rw [hissuing, hcool]; rfl) (by rw [hlog]; rfl)
        simpa using List.all_eq_true.mp hidle u hu
    | code u v hv =>
      have hissuing : issuing t.log = true := hl ▸ issuing_of_clear hv (Nat.zero_lt_succ 2)
      have hissuing' : issuing t'.log = true :=
        hlog ▸ issuing_of_clear hv (Nat.one_lt_succ_succ 1)
      have hstored := h.storeCode hi hissuing hissuing' (by rw [hlog]; rfl) hreq
      rw [← List.append_nil os] at hstored
      exact hstored
    | counter u v hv =>
      have hissuing : issuing t.log = true := hl ▸ issuing_of_clear hv (Nat.one_lt_succ_succ 1)
      have hissuing' : issuing t'.log = true := hlog ▸ issuing_of_clear hv (Nat.lt_succ_self 2)
      have hreset := h.resetCounter hi hissuing (by rw [hl]; rfl) hissuing' hreq
        (some (s.now + seconds E.cfg.otpTtlSeconds))
      rw [← List.append_nil os] at hreset
      exact hreset
    | cooldown u v hv =>
      have hissuing : issuing t.log = true := hl ▸ issuing_of_clear hv (Nat.lt_succ_self 2)
      have haccepted : accepted E phone (drawnCode E t.req) = true := hok.2
      rw [haccepted]
      refine h.send hi hissuing (by rw [hl]; rfl) ?_
      rw [hlog]
      exact concluded_issued.issuing
    | rest hc hconcluded =>
      rw [setsCooldown_of_isRedis hc]
      show IssueInv E phone (os ++ []) (cm.exec x t.sess s).2.2.redis (cm.exec x t.sess s).2.2.now _
      rw [List.append_nil, Cmd.exec_redis hc, Cmd.exec_now]
      refine h.quiet hi (hl ▸ hconcluded.issuing) ?_
      rw [hlog]
      exact (hconcluded.snoc hc).issuing

theorem CounterReset.counter_eq (h : CounterReset phone redis) (now : Time) :
    redis.counter now phone = 0 := by
  obtain ⟨deadline, hcounter⟩ := h
  rw [Redis.counter]
  cases hget : (redis.get now (.otpAttempts phone) : Option Nat) with
  | none => rfl
  | some n =>
    obtain ⟨e, he, rfl, _⟩ := Expiring.get_eq_some_iff.mp hget
    cases hcounter.symm.trans he
    rfl

/-- The account that has the number signs in with the code, provided that what is drawn for its
tokens is new. -/
def SignsIn (E : Env) (w : World) (phone code : String) : Prop :=
  ∀ u user draws, (Query.userByPhone phone).eval w.db = some (u, user) → user.isActive = true →
    draws.New E w → (serve E (.auth (.verifyOtp ⟨phone, code⟩) draws) w).1 =
      ⟨200, .tokens (issuedPair E w.now u draws), []⟩

theorem signsIn {w : World} {code : String} (hmax : 0 < E.cfg.otpMaxAttempts)
    (hcode : (w.redis.get w.now (.otpCode phone) : Option String) = some (hashCode E code))
    (hcounter : CounterReset phone w.redis) : SignsIn E w phone code := by
  intro u user draws hu hactive hnew
  have hverify := Redis.verify_match (E := E) hcode (by rw [hcounter.counter_eq]; exact hmax)
  have hget : w.db.users.get? u = some user := (Table.mem_select.mp (List.mem_of_head? hu)).1
  refine serve_ends (P := fun response _ =>
    response = ⟨200, .tokens (issuedPair E w.now u draws), []⟩) (verifyCode_ends ?_)
  rw [hverify]
  refine raiseIf_ends (fun hv => ?_) fun _ => select_ends rfl fun t ht => ?_
  · cases hv
  rw [hu]
  refine raiseIf_ends (fun ha => ?_) fun _ => issueTokenPair_ends (fun t' _ => ?_) fun t' e hf => ?_
  · rw [hactive] at ha
    cases ha
  · rfl
  · rw [Session.view_of_nil ht] at hf
    cases (hnew.inserts hget).symm.trans (Write.of_flushed_one_error hf)

/-- The stored hash is that of the code in the last message, and until it expires one can log in
with that code. -/
def LastCodeStored (E : Env) (phone : String) (os : List Sms) (w : World) : Prop :=
  ∀ s ∈ os.getLast?, ∃ storedAt ≤ s.sentAt,
    w.redis (.otpCode phone) =
      some ⟨hashCode E s.code, some (storedAt + seconds E.cfg.otpTtlSeconds)⟩ ∧
    (w.now < storedAt + seconds E.cfg.otpTtlSeconds → SignsIn E w phone s.code)

/-- **Requests that take turns.** No two messages are closer than the cooldown, and when no request
is issuing a code, the last message has the code that is stored. -/
theorem codes_in_turn {w : World} {c : Pool} (hmax : 0 < E.cfg.otpMaxAttempts)
    (H : (backend E).Traced (fun _ c l => inTurn E phone c l = true) (smsSent E phone)
      ⟨w, []⟩ os c) :
    Spaced E os ∧ ((∀ t ∈ c.threads, issuing t.log = false) →
      LastCodeStored E phone os c.state) := by
  have hinv : IssueInv E phone os c.state.redis c.state.now c.threads := by
    induction H with
    | refl => exact .init w.redis w.now
    | step H hok hs ih =>
      have hrun := H.run fun _ _ _ h => h
      refine ih.step (fun t ht β cm k hp => ?_) hok hs
      exact run_keeps (I := IssueAssertion E phone) hrun (fun _ _ hj => requestsCode_keeps hj) ht hp
  refine ⟨hinv.spaced, fun hidle s hs => ?_⟩
  cases hinv.turn with
  | free idle stored =>
    obtain ⟨⟨storedAt, hle, hcode⟩, hcounter⟩ := stored s hs
    refine ⟨storedAt, hle, hcode, fun hnow => signsIn hmax ?_ hcounter⟩
    exact Expiring.get_eq_some_iff.mpr ⟨_, hcode, rfl, fun d hd => by cases hd; exact hnow⟩
  | taken hi ht => exact absurd ht (by rw [hidle _ (List.mem_of_getElem? hi)]; nofun)

end

/-! ## One after the other, and at once -/

namespace Sample

def production : Env := { env with cfg := { appEnv := .production } }

/-- A request for a code, with the number that is drawn for it. -/
def askCode (n : Nat) : Label Choice Job ℕ :=
  .spawn (.http (.auth (.requestOtp ⟨"+4901"⟩) { draws 0 with randbelow := n }))

/-- Two requests one minute apart. -/
def askInTurn : List (Label Choice Job ℕ) :=
  askCode 1 :: steps 0 7 ++ .env 60000000 :: askCode 2 :: steps 1 7

/-- Both requests test the cooldown before either sets it, and the first one to store its code is
the last one to send it. -/
def askAtOnce : List (Label Choice Job ℕ) :=
  askCode 1 :: askCode 2 :: steps 0 2 ++ steps 1 2 ++ steps 0 1 ++ steps 1 3 ++ steps 0 2

end Sample

theorem askInTurn_codes : ∃ os c, (backend Sample.production).traceIf
      (fun _ c l => inTurn Sample.production "+4901" c l) (smsSent Sample.production "+4901") []
      ⟨Sample.numberWorld, []⟩ Sample.askInTurn = some (os, c) ∧
    os = [⟨0, "000001"⟩, ⟨60000000, "000002"⟩] ∧ Spaced Sample.production os ∧
    LastCodeStored Sample.production "+4901" os c.state := by
  have h : ((backend Sample.production).traceIf (fun _ c l => inTurn Sample.production "+4901" c l)
      (smsSent Sample.production "+4901")
        [] ⟨Sample.numberWorld, []⟩ Sample.askInTurn).any (fun r =>
        r.1 = [⟨0, "000001"⟩, ⟨60000000, "000002"⟩] && r.2.threads.all fun t => !issuing t.log) =
      true := by decide +kernel
  obtain ⟨⟨os, c⟩, hc, h⟩ := (Option.any_eq_true _ _).mp h
  simp only [Bool.and_eq_true, decide_eq_true_eq, List.all_eq_true, Bool.not_eq_true'] at h
  have hcodes := codes_in_turn (by decide) (System.Traced.of_traceIf .refl hc)
  exact ⟨os, c, hc, h.1, hcodes.1, hcodes.2 h.2⟩

theorem askAtOnce_not_inTurn :
    (¬ ∀ os c, (backend Sample.production).Traced
        (fun _ c l => guarded (requestsCode "+4901") (fun _ _ => true) c l = true)
        (smsSent Sample.production "+4901") ⟨Sample.numberWorld, []⟩ os c →
      Spaced Sample.production os) ∧
    ¬ ∀ os c, (backend Sample.production).Traced
        (fun _ c l => guarded (requestsCode "+4901") (fun _ _ => true) c l = true)
        (smsSent Sample.production "+4901") ⟨Sample.numberWorld, []⟩ os c →
      (∀ t ∈ c.threads, issuing t.log = false) →
        LastCodeStored Sample.production "+4901" os c.state := by
  have h : ((backend Sample.production).traceIf
      (fun _ c l => guarded (requestsCode "+4901") (fun _ _ => true) c l)
      (smsSent Sample.production "+4901")
        [] ⟨Sample.numberWorld, []⟩ Sample.askAtOnce).any (fun r =>
        r.1 = [⟨0, "000002"⟩, ⟨0, "000001"⟩] && (r.2.threads.all fun t => !issuing t.log) &&
          decide ((r.2.state.redis (.otpCode "+4901")).map Entry.value = some "#000002")) =
            true := by
    decide +kernel
  obtain ⟨⟨os, c⟩, hc, h⟩ := (Option.any_eq_true _ _).mp h
  simp only [Bool.and_eq_true, decide_eq_true_eq, List.all_eq_true, Bool.not_eq_true'] at h
  obtain ⟨⟨rfl, hidle⟩, hcode⟩ := h
  have H := System.Traced.of_traceIf .refl hc
  refine ⟨fun hevery => ?_, fun hevery => ?_⟩
  · exact absurd ((List.pairwise_pair).mp (hevery _ c H)) (by decide)
  · obtain ⟨storedAt, _, hstored, _⟩ := hevery _ c H hidle ⟨0, "000001"⟩ rfl
    rw [hstored] at hcode
    have hhash : hashCode Sample.production "000001" = "#000002" := Option.some.inj hcode
    exact absurd hhash (by decide)

end Rawbin
