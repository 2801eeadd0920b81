import Rawbin.Verify.CodeLifetime
import Rawbin.Verify.LocalAssertions

/-!
# Concurrent verification of one code

`verify_code` is a GET, a GET, a comparison and an INCR or a DELETE. Nothing joins the
comparison to the reads before it or to the command that records it, so the number of
comparisons is bounded, and a match unique, only in runs where the reads are still true when
the comparison is made.
-/

namespace Rawbin

/-- The hash that a call fetched. -/
def fetchedHash : Log → Option String
  | ⟨_, .redis (.get (.otpCode _)), h⟩ :: _ => h
  | _ => none

/-- The counter that a call read after it. -/
def readCounter : Log → Option Nat
  | _ :: ⟨_, .redis (.get (.otpAttempts _)), a⟩ :: _ => some (a.getD 0)
  | _ => none

def presentedCode : Job → String
  | .verifyCode _ code => code
  | _ => ""

/-- The code that the job presents has the hash that it fetched. -/
def matchesHash (E : Env) (j : Job) (log : Log) : Bool :=
  fetchedHash log = some (hashCode E (presentedCode j))

/-- The call got past the limit and compared, with a match or without. -/
def compared (E : Env) (isMatch : Bool) (t : Thread Cmd Session Exn Job Outcome) : Bool :=
  (readCounter t.log).any (· < E.cfg.otpMaxAttempts) && matchesHash E t.req t.log == isMatch

/-- The command that follows the comparison is not issued yet. -/
def pending (E : Env) (isMatch : Bool) (t : Thread Cmd Session Exn Job Outcome) : Bool :=
  compared E isMatch t && t.log.length == 2

/-- The command that follows the comparison was issued. -/
def recorded (E : Env) (isMatch : Bool) (t : Thread Cmd Session Exn Job Outcome) : Bool :=
  compared E isMatch t && t.log.length != 2

def returnsTrue (t : Thread Cmd Session Exn Job Outcome) : Bool :=
  match t.prog with
  | .pure (.verified b) => b
  | _ => false

/-! ## One call -/

/-- Where a call stands when it issues a command. -/
inductive VerifyAt (E : Env) (phone code : String) : {β : Type} → Log → Cmd β → Prop where
  | fetch : VerifyAt E phone code [] (.redis (.get (.otpCode phone)))
  | count (h : String) :
    VerifyAt E phone code [⟨_, .redis (.get (.otpCode phone)), some h⟩]
      (.redis (.get (.otpAttempts phone)))
  | burn (h : String) (a : Option Nat)
      (hb : E.cfg.otpMaxAttempts ≤ a.getD 0 ∨ h = hashCode E code) :
    VerifyAt E phone code [⟨_, .redis (.get (.otpCode phone)), some h⟩,
      ⟨_, .redis (.get (.otpAttempts phone)), a⟩]
      (.redis (.delete [.otpCode phone, .otpAttempts phone]))
  | record (h : String) (a : Option Nat) (ha : a.getD 0 < E.cfg.otpMaxAttempts)
      (hh : h ≠ hashCode E code) :
    VerifyAt E phone code [⟨_, .redis (.get (.otpCode phone)), some h⟩,
      ⟨_, .redis (.get (.otpAttempts phone)), a⟩] (.redis (.incr phone))
  | exhaust (h : String) (a : Option Nat) (n : Nat) (ha : a.getD 0 < E.cfg.otpMaxAttempts)
      (hh : h ≠ hashCode E code) :
    VerifyAt E phone code [⟨_, .redis (.get (.otpCode phone)), some h⟩,
      ⟨_, .redis (.get (.otpAttempts phone)), a⟩, ⟨_, .redis (.incr phone), n⟩]
      (.redis (.delete [.otpCode phone, .otpAttempts phone]))

def VerifyAssertion (E : Env) (phone : String) (j : Job) : Assertion := fun log _ c =>
  ∃ code, j = .verifyCode phone code ∧ VerifyAt E phone code log c

/-- A call that returns `True` compared with a match. -/
def VerifyEnding (E : Env) (j : Job) : Ending Outcome := fun log _ r =>
  r = .ok (.verified true) → (readCounter log).any (· < E.cfg.otpMaxAttempts) = true ∧
    matchesHash E j log = true

section
variable {E : Env} {phone code : String}

theorem verifyCode_keeps : Keeps (VerifyAssertion E phone (.verifyCode phone code))
    (VerifyEnding E (.verifyCode phone code)) [] [] (Job.prog E (.verifyCode phone code)) := by
  have hfalse {log : Log} {ws : List Write} :
      Keeps (VerifyAssertion E phone (.verifyCode phone code))
      (VerifyEnding E (.verifyCode phone code)) log ws (.pure (.verified false)) := .pure nofun
  refine .redis ⟨code, rfl, .fetch⟩ fun stored => ?_
  cases stored with
  | none => exact hfalse
  | some h =>
    refine .redis ⟨code, rfl, .count h⟩ fun a => ?_
    refine ite_keeps (fun ha => ?_) fun ha => ite_keeps (fun hh => ?_) fun hh => ?_
    · exact .redis ⟨code, rfl, .burn h a (.inl ha)⟩ fun _ => hfalse
    · refine .redis ⟨code, rfl, .burn h a (.inr hh)⟩ fun _ => .pure fun _ => ⟨?_, ?_⟩
      · exact decide_eq_true (Nat.lt_of_not_le ha)
      · exact decide_eq_true (congrArg some hh)
    · refine .redis ⟨code, rfl, .record h a (Nat.lt_of_not_le ha) hh⟩ fun n => ?_
      simp only [Prog.pure_bind, Handler.bind_apply, Prog.bind_assoc]
      refine when_keeps (fun _ => ?_) fun _ => hfalse
      exact .redis ⟨code, rfl, .exhaust h a n (Nat.lt_of_not_le ha) hh⟩ fun _ => hfalse

/-! ## Many calls -/

def verifies (phone : String) : Job → Bool
  | .verifyCode phone' _ => phone' = phone
  | _ => false

def readsCounter {ε α : Type} : Prog Cmd ε α → Bool
  | .cmd (.redis (.get (.otpAttempts _))) _ => true
  | _ => false

/-- A call that reads a counter below the limit, and is thus about to compare, finds the code
still stored. If its code matches, no other match waits to be burnt; if not, the limit is not
reached either when the failures that wait to be counted are added. -/
def readsHold (E : Env) (phone : String) (c : Pool) : Label Choice Job ℕ → Bool
  | .spawn j => verifies phone j
  | .env _ => true
  | .step i _ => c.threads[i]?.all fun t =>
    let counter : Nat := (c.state.redis.get c.state.now (.otpAttempts phone)).getD 0
    !(readsCounter t.prog && counter < E.cfg.otpMaxAttempts) ||
    (c.state.redis.get c.state.now (.otpCode phone)).isSome &&
      if matchesHash E t.req t.log then c.threads.countP (pending E true) == 0
      else counter + c.threads.countP (pending E false) < E.cfg.otpMaxAttempts

/-- The counter is the number of recorded failures for as long as the code is there. -/
structure OtpInv (E : Env) (phone : String) (deadline : Time) (redis : Redis) (now : Time)
    (ts : List (Thread Cmd Session Exn Job Outcome)) : Prop where
  code : ∀ e, redis (.otpCode phone) = some e → e.deadline = some deadline
  counter : redis (.otpCode phone) ≠ none → now < deadline →
    redis (.otpAttempts phone) = some ⟨ts.countP (recorded E false), some deadline⟩
  burnt : ts.countP (recorded E true) ≠ 0 → redis (.otpCode phone) = none
  failures : ts.countP (recorded E false) + ts.countP (pending E false) ≤ E.cfg.otpMaxAttempts
  successes : ts.countP (recorded E true) + ts.countP (pending E true) ≤ 1

theorem countP_set_add {α : Type*} {p : α → Bool} {l : List α} {i : ℕ} {a b : α}
    (h : l[i]? = some a) : (l.set i b).countP p + (if p a then 1 else 0) =
      l.countP p + (if p b then 1 else 0) := by
  obtain ⟨hi, rfl⟩ := List.getElem?_eq_some_iff.mp h
  have hle : (if p l[i] then 1 else 0) ≤ l.countP p := by
    split
    · exact List.countP_pos_iff.mpr ⟨_, List.getElem_mem hi, ‹_›⟩
    · exact Nat.zero_le _
  rw [List.countP_set hi]
  omega

namespace OtpInv

variable {deadline : Time} {redis : Redis} {now : Time}
  {ts ts' : List (Thread Cmd Session Exn Job Outcome)}

/-- What a call that compares finds, if its reads hold. -/
theorem counter_of_reads (hc : OtpInv E phone deadline redis now ts)
    (h : (redis.get now (.otpCode phone)).isSome = true) :
    ts.countP (recorded E false) = (redis.get now (.otpAttempts phone)).getD 0 ∧
      ts.countP (recorded E true) = 0 := by
  obtain ⟨v, hv⟩ := Option.isSome_iff_exists.mp h
  obtain ⟨e, he, _, hd⟩ := Expiring.get_eq_some_iff.mp hv
  have hnow : now < deadline := hd deadline (hc.code e he)
  have hne : redis (.otpCode phone) ≠ none := by rw [he]; nofun
  refine ⟨?_, by_contra fun h => hne (hc.burnt h)⟩
  rw [Expiring.get_of_entry (Expiring.entry_eq_some_iff.mpr ⟨hc.counter hne hnow, fun d hd => ?_⟩)]
  · rfl
  · cases hd; exact hnow

/-- A DELETE of the code, whatever is recorded by it. -/
theorem del (hc : OtpInv E phone deadline redis now ts) {redis' : Redis}
    (hf : ts'.countP (recorded E false) + ts'.countP (pending E false) =
      ts.countP (recorded E false) + ts.countP (pending E false))
    (hs : ts'.countP (recorded E true) + ts'.countP (pending E true) =
      ts.countP (recorded E true) + ts.countP (pending E true))
    (hcode : redis' (.otpCode phone) = none) :
    OtpInv E phone deadline redis' now ts' where
  code e he := by rw [hcode] at he; cases he
  counter h := absurd hcode h
  burnt _ := hcode
  failures := hf ▸ hc.failures
  successes := hs ▸ hc.successes

/-- The INCR that records a failure. -/
theorem incr (hc : OtpInv E phone deadline redis now ts)
    (hf : ts'.countP (recorded E false) = ts.countP (recorded E false) + 1)
    (hpf : ts'.countP (pending E false) + 1 = ts.countP (pending E false))
    (hs : ts'.countP (recorded E true) = ts.countP (recorded E true))
    (hps : ts'.countP (pending E true) = ts.countP (pending E true)) :
    OtpInv E phone deadline (redis.incr now phone) now ts' where
  code e he := by
    rw [Redis.incr, Expiring.set_ne (by simp)] at he
    exact hc.code e he
  counter h hnow := by
    rw [Redis.incr, Expiring.set_ne (by simp)] at h
    have hcnt := hc.counter h hnow
    have hentry : redis.entry now (.otpAttempts phone) = _ :=
      Expiring.entry_eq_some_iff.mpr ⟨hcnt, fun d hd => by cases hd; exact hnow⟩
    simp only [Redis.incr, Redis.incremented, hentry, Expiring.set_self, hf]
  burnt h := by
    rw [Redis.incr, Expiring.set_ne (by simp)]
    exact hc.burnt (hs ▸ h)
  failures := by have := hc.failures; omega
  successes := by have := hc.successes; omega

/-- A read, after which a call may have compared. -/
theorem read (hc : OtpInv E phone deadline redis now ts)
    (hf : ts'.countP (recorded E false) = ts.countP (recorded E false))
    (hs : ts'.countP (recorded E true) = ts.countP (recorded E true))
    (hpf : ts.countP (recorded E false) + ts'.countP (pending E false) ≤ E.cfg.otpMaxAttempts)
    (hps : ts.countP (recorded E true) + ts'.countP (pending E true) ≤ 1) :
    OtpInv E phone deadline redis now ts' where
  code := hc.code
  counter := hf ▸ hc.counter
  burnt := hs ▸ hc.burnt
  failures := hf ▸ hpf
  successes := hs ▸ hps

theorem spawn (hc : OtpInv E phone deadline redis now ts) (j : Job) :
    OtpInv E phone deadline redis now (ts ++ [(backend E).spawn j]) := by
  have h (p : Thread Cmd Session Exn Job Outcome → Bool) (hp : p ((backend E).spawn j) = false) :
      (ts ++ [(backend E).spawn j]).countP p = ts.countP p := by
    rw [List.countP_append, List.countP_singleton, hp]; rfl
  refine hc.read (h _ rfl) (h _ rfl) ?_ ?_
  · rw [h _ rfl]; exact hc.failures
  · rw [h _ rfl]; exact hc.successes

theorem tick (hc : OtpInv E phone deadline redis now ts) (dt : Nat) :
    OtpInv E phone deadline redis (now + dt) ts where
  code := hc.code
  counter h hnow := hc.counter h (lt_of_le_of_lt (by simp) hnow)
  burnt := hc.burnt
  failures := hc.failures
  successes := hc.successes

end OtpInv

theorem OtpInv.step {c c' : Pool} {l : Label Choice Job ℕ} {deadline : Time}
    (hc : OtpInv E phone deadline c.state.redis c.state.now c.threads)
    (hI : ∀ t ∈ c.threads, ∀ {β} {cm : Cmd β} {k}, t.prog = .cmd cm k →
      ∃ code, t.req = .verifyCode phone code ∧ VerifyAt E phone code t.log cm)
    (hok : readsHold E phone c l = true) (hs : (backend E).Step c l c') :
    OtpInv E phone deadline c'.state.redis c'.state.now c'.threads := by
  cases hs with
  | spawn r => exact hc.spawn r
  | env dt => exact hc.tick dt
  | @step ts i s β cm k t x hi hp hb =>
    change OtpInv E phone deadline s.redis s.now ts at hc
    obtain ⟨code, hreq, hat⟩ := hI t (List.mem_of_getElem? hi) hp
    have hadd (p : Thread Cmd Session Exn Job Outcome → Bool) := countP_set_add hi (p := p)
      (b := (backend E).advance x t cm k s)
    have hf := hadd (recorded E false)
    have hs := hadd (recorded E true)
    have hpf := hadd (pending E false)
    have hps := hadd (pending E true)
    have hreads : readsCounter t.prog = true → _ := fun h => by
      simpa only [readsHold, hi, h, Option.all_some, Bool.true_and] using hok
    simp only [recorded, pending, compared, matchesHash, hreq, presentedCode, show
      ((backend E).advance x t cm k s).log = t.log ++ [⟨β, cm, (cm.exec x t.sess s).1⟩] from rfl,
      show ((backend E).advance x t cm k s).req = t.req from rfl] at hf hs hpf hps
    generalize hts : ts.set i ((backend E).advance x t cm k s) = ts' at hf hs hpf hps ⊢
    rw [hp] at hreads
    clear hok hI hadd hp hb hi
    obtain ⟨req, prog, sess, log⟩ := t
    obtain rfl : req = _ := hreq
    change VerifyAt E phone code log cm at hat
    change OtpInv E phone deadline (cm.exec x sess s).2.2.redis
      (cm.exec x sess s).2.2.now ts'
    generalize hlog : log = log' at hat
    cases hat with
    | fetch =>
      subst hlog
      simp [readCounter] at hf hs hpf hps
      exact hc.read hf hs (hpf ▸ hc.failures) (hps ▸ hc.successes)
    | count h =>
      subst hlog
      simp [readCounter, fetchedHash] at hf hs hpf hps
      simp [readsCounter, matchesHash, presentedCode, fetchedHash, -List.countP_eq_zero] at hreads
      change OtpInv E phone deadline s.redis s.now ts'
      rw [show (Cmd.exec x (.redis (.get (.otpAttempts phone))) sess s).1 =
        s.redis.get s.now (.otpAttempts phone) from rfl] at hpf hps
      have hle := hc.failures
      have hle' := hc.successes
      rcases hreads with hmax | ⟨hcode, hnext⟩
      · rw [if_neg fun h => Nat.not_lt.mpr hmax h.1] at hpf hps
        exact hc.read hf hs (by omega) (by omega)
      · obtain ⟨hcounter, hrecorded⟩ := hc.counter_of_reads hcode
        by_cases hh : h = hashCode E code
        · simp only [hh, if_true, not_true_eq_false, and_false, if_false, and_true] at hnext hpf hps
          exact hc.read hf hs (by omega) (by split at hps <;> omega)
        · simp only [hh, not_false_eq_true, and_false, if_false, and_true] at hnext hpf hps
          exact hc.read hf hs (by split at hpf <;> omega) (by omega)
    | burn h a hb =>
      subst hlog
      simp [readCounter, fetchedHash] at hf hs hpf hps
      exact hc.del (by omega) (by omega) (Expiring.delAll_of_mem (by simp))
    | record h a ha hh =>
      subst hlog
      simp [readCounter, fetchedHash, ha, hh] at hf hs hpf hps
      exact hc.incr hf hpf hs hps
    | exhaust h a n ha hh =>
      subst hlog
      simp [readCounter, fetchedHash, ha, hh] at hf hs hpf hps
      exact hc.del (by omega) (by omega) (Expiring.delAll_of_mem (by simp))

/-- What `issue_code` leaves behind. -/
theorem issueCode_redis {w w₁ : World} {randbelow : Nat}
    (h : machine.runConst .ok (issueCode E phone randbelow []) .idle w =
      (.ok (code, []), .idle, w₁)) :
    w₁.redis (.otpCode phone) =
        some ⟨hashCode E code, some (w₁.now + seconds E.cfg.otpTtlSeconds)⟩ ∧
      w₁.redis (.otpAttempts phone) = some ⟨0, some (w₁.now + seconds E.cfg.otpTtlSeconds)⟩ := by
  rw [issueCode_run] at h
  split at h
  · cases h
  · cases h
    exact ⟨Redis.issue_otpCode, Redis.issue_otpAttempts⟩

/-- Where the calls start. -/
theorem OtpInv.start {w : World} {deadline : Time} {h : String}
    (hcode : w.redis (.otpCode phone) = some ⟨h, some deadline⟩)
    (hcounter : w.redis (.otpAttempts phone) = some ⟨0, some deadline⟩) :
    OtpInv E phone deadline w.redis w.now [] where
  code e he := by rw [hcode] at he; cases he; rfl
  counter _ _ := hcounter
  burnt h := absurd rfl h
  failures := Nat.zero_le _
  successes := Nat.zero_le _

theorem verifies_keeps {j : Job} (hj : readsHold E phone c (.spawn j) = true) :
    Keeps (VerifyAssertion E phone j) (VerifyEnding E j) [] [] (j.prog E) := by
  cases j with
  | verifyCode phone' code =>
    obtain rfl : phone' = phone := by simpa [readsHold, verifies] using hj
    exact verifyCode_keeps
  | _ => cases hj

/-- **A code is matched once, and mismatched no more often than the limit.** Any number of calls
run at once after `issue_code`, and whenever one of them compares, what it read still holds. -/
theorem verify_code_once {w₀ w : World} {randbelow : Nat}
    (hissue : machine.runConst .ok (issueCode E phone randbelow []) .idle w₀ =
      (.ok (code, []), .idle, w))
    (H : (backend E).Run (fun c l => readsHold E phone c l = true) ⟨w, []⟩ c) :
    c.threads.countP returnsTrue ≤ 1 ∧
      c.threads.countP (compared E false) ≤ E.cfg.otpMaxAttempts := by
  have hinv : OtpInv E phone (w.now + seconds E.cfg.otpTtlSeconds) c.state.redis c.state.now
      c.threads := by
    induction H with
    | refl => exact .start (issueCode_redis hissue).1 (issueCode_redis hissue).2
    | step H hok hs ih =>
      exact ih.step (fun t ht _ _ _ hp => run_keeps H (fun _ _ hj => (verifies_keeps hj).mono
        fun _ _ _ _ => trivial) ht hp) hok hs
  have hsplit (b : Bool) : c.threads.countP (compared E b) =
      c.threads.countP (recorded E b) + c.threads.countP (pending E b) := by
    rw [List.countP_eq_countP_filter_add _ _ (·.log.length == 2), List.countP_filter,
      List.countP_filter, Nat.add_comm]
    rfl
  constructor
  · refine le_trans (List.countP_mono_left fun t ht hret => ?_) (hsplit true ▸ hinv.successes)
    cases hp : t.prog with
    | pure o =>
      obtain rfl : o = .verified true := by
        cases o <;> simp_all [returnsTrue]
      have h := run_ends H (I := VerifyAssertion E phone) (Q := VerifyEnding E)
        (fun _ _ hj => verifies_keeps hj) ht hp rfl
      simp [compared, h]
    | _ => simp [returnsTrue, hp] at hret
  · exact hsplit false ▸ hinv.failures

end

/-! ## One after the other, and at once -/

def issueSample : Except Exn (String × List Write) × Session × World :=
  machine.runConst .ok (issueCode Sample.env "+4901" 0 []) .idle Sample.world

theorem issueSample_eq : issueSample = (.ok ("123456", []), .idle, issueSample.2.2) := rfl

def tryCode (code : String) : Label Choice Job ℕ := .spawn (.verifyCode "+4901" code)

/-- A wrong code, the right one, and the right one again. -/
def triesInTurn : List (Label Choice Job ℕ) :=
  tryCode "000000" :: Sample.steps 0 3 ++ tryCode "123456" :: Sample.steps 1 3 ++
  tryCode "123456" :: Sample.steps 2 1

/-- Two calls with the right code compare before either deletes it. -/
def matchesAtOnce : List (Label Choice Job ℕ) :=
  tryCode "123456" :: tryCode "123456" :: Sample.steps 0 2 ++ Sample.steps 1 2 ++
  Sample.steps 0 1 ++ Sample.steps 1 1

/-- Six calls with a wrong code compare before any of them is counted. -/
def guessesAtOnce : List (Label Choice Job ℕ) :=
  List.replicate 6 (tryCode "000000") ++ (List.range 6).flatMap fun i => Sample.steps i 2

theorem triesInTurn_once : ∃ c, (backend Sample.env).followIf (readsHold Sample.env "+4901")
      ⟨issueSample.2.2, []⟩ triesInTurn = some c ∧ c.threads.length = 3 ∧
    c.threads.countP returnsTrue ≤ 1 ∧
      c.threads.countP (compared Sample.env false) ≤ Sample.env.cfg.otpMaxAttempts := by
  have h : ((backend Sample.env).followIf (readsHold Sample.env "+4901")
      ⟨issueSample.2.2, []⟩ triesInTurn).any (·.threads.length = 3) = true := by decide +kernel
  obtain ⟨c, hc, hn⟩ := (Option.any_eq_true _ _).mp h
  exact ⟨c, hc, by simpa using hn,
    verify_code_once issueSample_eq (.of_followIf hc)⟩

theorem atOnce_not_once :
    (¬ ∀ c, (backend Sample.env).Run (fun c l => guarded (verifies "+4901") (fun _ _ => true) c l)
      ⟨issueSample.2.2, []⟩ c → c.threads.countP returnsTrue ≤ 1) ∧
    ¬ ∀ c, (backend Sample.env).Run (fun c l => guarded (verifies "+4901") (fun _ _ => true) c l)
      ⟨issueSample.2.2, []⟩ c →
      c.threads.countP (compared Sample.env false) ≤ Sample.env.cfg.otpMaxAttempts := by
  constructor <;> intro hevery
  · have h : ((backend Sample.env).followIf (guarded (verifies "+4901") fun _ _ => true)
        ⟨issueSample.2.2, []⟩ matchesAtOnce).any (2 ≤ ·.threads.countP returnsTrue) = true := by
      decide +kernel
    obtain ⟨c, hc, hn⟩ := (Option.any_eq_true _ _).mp h
    exact absurd (hevery c (.of_followIf hc)) (Nat.not_le.mpr (of_decide_eq_true hn))
  · have h : ((backend Sample.env).followIf (guarded (verifies "+4901") fun _ _ => true)
        ⟨issueSample.2.2, []⟩ guessesAtOnce).any
          (6 ≤ ·.threads.countP (compared Sample.env false)) = true := by decide +kernel
    obtain ⟨c, hc, hn⟩ := (Option.any_eq_true _ _).mp h
    exact absurd (hevery c (.of_followIf hc)) (Nat.not_le.mpr (of_decide_eq_true hn))

end Rawbin
