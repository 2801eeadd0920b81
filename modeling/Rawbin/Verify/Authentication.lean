import Rawbin.Verify.Lineages
import Rawbin.Verify.Provenance

/-!
# Who a request acts for

A request acts for the subject of its bearer token. If tokens are not forged, somebody has signed in
as this user before: with the password, with the code that was sent to the phone, or by registering.
A refresh only hands on what a sign-in has granted, and an access token is good for its lifetime.
-/

namespace Rawbin

/-- A token is refused from the second after the one in which it expires. -/
def Crypto.Expires (C : Crypto) : Prop :=
  ∀ now p q, C.jwtDecode now (C.jwtEncode p) = some q → now < p.exp + seconds 1

/-! ## Sign-ins -/

/-- The user has registered, has given the password, or has given the code. -/
inductive Enters (E : Env) (draws : Draws) : AuthRoute → Log → Uuid → Prop where
  | register (hrow : RegisteredRow E body draws row)
      (hinsert : .insertUser draws.id row ∈ executed log) :
    Enters E draws (.register body) log draws.id
  | login (h : PasswordOf E body log u) : Enters E draws (.login body) log u
  | verifyOtp (h : CodeOf E body log u) : Enters E draws (.verifyOtp body) log u

section
variable {E : Env} {log log' : Log} {u : Uuid}

theorem PasswordOf.mono {body : UserLoginRequest} (h : PasswordOf E body log u)
    (hl : log <+: log') :
    PasswordOf E body log' u := by
  obtain ⟨user, he, h⟩ := h.ofRow
  exact ⟨user, hl.subset he, h⟩

theorem CodeOf.mono {body : OTPVerifyIn} (h : CodeOf E body log u) (hl : log <+: log') :
    CodeOf E body log' u := by
  obtain ⟨user, he, h'⟩ := h.user
  exact ⟨hl.subset h.code, user, hl.subset he, h'⟩

theorem Enters.mono {draws : Draws} {route : AuthRoute} (h : Enters E draws route log u)
    (hl : log <+: log') : Enters E draws route log' u := by
  cases h with
  | register hrow hinsert => exact .register hrow (executed_mono hl hinsert)
  | login h => exact .login (h.mono hl)
  | verifyOtp h => exact .verifyOtp (h.mono hl)

end

/-- Somebody has signed in as the user, in this run or before it. -/
inductive SignedIn (E : Env) (w₀ : World) (ts : List JobThread) : Uuid → Prop where
  | before (h : w₀.db.refreshTokens.get? tokenId = some row) : SignedIn E w₀ ts row.userId
  | enters (ht : t ∈ ts) (hreq : t.req = .http (.auth route draws))
      (h : Enters E draws route t.log u) : SignedIn E w₀ ts u

theorem SignedIn.mono {E : Env} {w₀ : World} {ts ts' : List JobThread} {u : Uuid}
    (h : SignedIn E w₀ ts u) (hg : Continues ts ts') : SignedIn E w₀ ts' u := by
  cases h with
  | before h => exact .before h
  | enters ht hreq h =>
    obtain ⟨t', ht', hr, hl⟩ := hg _ ht
    exact .enters ht' (hr.trans hreq) (h.mono hl)

/-! ## Refresh tokens -/

/-- The statement inserts a refresh token of the user. -/
def Write.GivesToken (w : Write) (u : Uuid) : Prop :=
  ∃ id row, w = .insertRefreshToken id row ∧ row.userId = u

/-- A refresh token of the user that was found. -/
def Query.ShowsToken : {β : Type} → Query β → β → Uuid → Prop
  | _, .refreshTokenByHash _, found, u => ∃ id row, found = some (id, row) ∧ row.userId = u
  | _, _, _, _ => False

/-- Which users have a refresh token. -/
def tokenFacts : Facts Uuid where
  Has db u := ∃ id row, db.refreshTokens.get? id = some row ∧ row.userId = u
  Creates := Write.GivesToken
  Shows := Query.ShowsToken
  has_apply w db u h := by
    obtain ⟨id, row, hget, hu⟩ := h
    cases w with
    | insertRefreshToken id' row' =>
      rcases Table.get?_of_insert hget with hget | ⟨rfl, rfl⟩
      · exact .inl ⟨id, row, hget, hu⟩
      · exact .inr ⟨_, _, rfl, hu⟩
    | updateRefreshToken id' b =>
      obtain ⟨row', hget', rfl | rfl⟩ := Table.get?_of_update hget
      · exact .inl ⟨id, _, hget', hu⟩
      · exact .inl ⟨id, row', hget', hu⟩
    | _ => exact .inl ⟨id, row, hget, hu⟩
  has_of_shows q db u h := by
    cases q with
    | refreshTokenByHash hash =>
      obtain ⟨id, row, hfound, hu⟩ := h
      exact ⟨id, row, (Table.mem_select.mp (List.mem_of_mem_head? hfound)).1, hu⟩
    | _ => exact h.elim

section
variable {E : Env} {ok : Pool → Label Choice Job ℕ → Prop} {w₀ : World} {c : Pool} {t : JobThread}

/-- Who is authenticated has signed in, or has a token of someone who has. -/
theorem SignedIn.of_authenticates {route : AuthRoute} {draws : Draws} {log : Log}
    {before : List Write}
    {u : Uuid} (ht : t ∈ c.threads) (hreq : t.req = .http (.auth route draws))
    (hseen : tokenFacts.Seen (SignedIn E w₀ c.threads) t.log) (hl : log <+: t.log)
    (hbefore : ∀ w ∈ before, w ∈ executed t.log) (h : Authenticates E draws route log before u) :
    SignedIn E w₀ c.threads u := by
  cases h with
  | register hrow =>
    exact .enters ht hreq (.register hrow (hbefore _ (List.mem_singleton_self _)))
  | login h => exact .enters ht hreq (.login (h.mono hl))
  | verifyOtp h => exact .enters ht hreq (.verifyOtp (h.mono hl))
  | refresh h =>
    exact hseen _ (.refreshTokenByHash _) (some (_, _)) _ (hl.subset h.1) ⟨_, _, rfl, rfl⟩

theorem run_signedIn (H : (backend E).Run ok ⟨w₀, []⟩ c) :
    tokenFacts.Justified (SignedIn E w₀ c.threads) c := by
  refine Facts.run_justified (J := SignedIn E w₀) H ?_ (fun ts ts' u hg h => h.mono hg) ?_
  · rintro u ⟨id, row, hget, rfl⟩
    exact .before hget
  · rintro c H t ht w u hI hseen ⟨id, row, rfl, rfl⟩
    have hin (w' : Write) (hw' : w' ∈ t.sess.written) : w' ∈ executed t.log :=
      run_executed H ht hw'
    generalize t.sess.written = ws at hI hin
    cases hreq : t.req with
    | http r =>
      rw [hreq] at hI
      cases r with
      | user credentials route draws =>
        obtain ⟨user, _, h⟩ := hI
        cases h
      | auth route draws =>
        cases hI with
        | insertToken h hrow =>
          obtain ⟨now, iat, now', _, rfl⟩ := hrow
          exact .of_authenticates ht hreq hseen List.prefix_rfl hin h
    | _ =>
      rw [hreq] at hI
      exact hI.elim

/-! ## Pairs that were sent -/

/-- A pair that was sent was granted, after the statements of its request. -/
theorem run_granted (H : (backend E).Run ok ⟨w₀, []⟩ c) (ht : t ∈ c.threads) {r : Response}
    {pair : TokenResponse} (hr : r ∈ responses t.log) (hp : r.tokens = some pair) :
    ∃ log ws, log <+: t.log ∧ t.req.Grants E log ws pair ∧ ∀ w ∈ ws, w ∈ executed t.log := by
  induction H generalizing t with
  | refl => cases ht
  | @step c l c' H hok hs ih =>
    obtain ⟨i, hi⟩ := List.getElem?_of_mem ht
    rcases hs.getElem?_cases hi with ⟨hold, _⟩ | ⟨j, _, _, rfl⟩ |
      ⟨x, t, β, cm, k, rfl, hold, hprog, hb, rfl, hst⟩
    · exact ih (List.mem_of_getElem? hold) hr
    · cases hr
    · have ht := List.mem_of_getElem? hold
      have hl : t.log <+: t.log ++ [⟨β, cm, (cm.exec x t.sess c.state).1⟩] := List.prefix_append ..
      have hr : r ∈ responses (t.log ++ [⟨β, cm, (cm.exec x t.sess c.state).1⟩]) := hr
      rw [responses_snoc] at hr
      rcases List.mem_append.mp hr with hr | hr
      · obtain ⟨log, ws, hlog, hG, hws⟩ := ih ht hr
        exact ⟨log, ws, hlog.trans hl, hG, fun w hw => executed_mono hl (hws w hw)⟩
      · have hperf := run_performs H ht hprog
        refine ⟨t.log, t.sess.written, hl, ?_, fun w hw => executed_mono hl (run_executed H ht hw)⟩
        show t.req.Grants E t.log t.sess.written pair
        have hr := Option.mem_toList.mp hr
        cases hreq : t.req with
        | http req =>
          rw [hreq] at hperf
          exact (hperf.response r hr).2 pair hp
        | _ =>
          rw [hreq] at hperf
          cases hperf.2.symm.trans hr

/-- The pair was sent. -/
def Sent (ts : List JobThread) (pair : TokenResponse) : Prop :=
  ∃ t ∈ ts, ∃ r ∈ responses t.log, r.tokens = some pair

/-- Where a bearer token is from: it was sent, or it is older than the run, or it is no access
token. -/
inductive Known (E : Env) (w₀ : World) (ts : List JobThread) (token : String) : Prop where
  | sent (h : Sent ts pair) (htoken : pair.accessToken = token)
  | before (h : w₀.db.refreshTokens.get? tokenId = some row)
      (hsub : E.crypto.Subject row.userId token)
  | useless (h : ∀ now p, decodeToken E.crypto now token = some p → p.type ≠ .access)

theorem Known.mono {ts ts' : List JobThread} {token : String} (h : Known E w₀ ts token)
    (hg : Continues ts ts') : Known E w₀ ts' token := by
  cases h with
  | sent h htoken =>
    obtain ⟨t, ht, r, hr, hp⟩ := h
    obtain ⟨t', ht', _, hl⟩ := hg t ht
    exact .sent ⟨t', ht', r, (hl.filterMap _).subset hr, hp⟩ htoken
  | before h hsub => exact .before h hsub
  | useless h => exact .useless h

def Job.credentials : Job → Option String
  | .http (.user credentials _ _) => some credentials
  | _ => none

/-- Nobody presents a token that he has not got. -/
def Unforged (E : Env) (w₀ : World) (c : Pool) : Label Choice Job ℕ → Prop
  | .spawn j => ∀ token, j.credentials = some token → Known E w₀ c.threads token
  | _ => True

theorem run_known (H : (backend E).Run (Unforged E w₀) ⟨w₀, []⟩ c) (ht : t ∈ c.threads)
    {token : String} (htoken : t.req.credentials = some token) : Known E w₀ c.threads token := by
  induction H generalizing t with
  | refl => cases ht
  | step H hok hs ih =>
    obtain ⟨i, hi⟩ := List.getElem?_of_mem ht
    rcases hs.getElem?_cases hi with ⟨hold, _⟩ | ⟨j, rfl, _, rfl⟩ |
      ⟨x, t, β, cm, k, rfl, hold, hprog, hb, rfl, hst⟩
    · exact (ih (List.mem_of_getElem? hold) htoken).mono (.of_step hs)
    · exact (hok token htoken).mono (.of_step hs)
    · exact (ih (List.mem_of_getElem? hold) htoken).mono (.of_step hs)

/-- **Authentication.** If tokens are not forged, then however requests are interleaved a request
that is let in acts for a user as whom somebody has signed in, and its token, unless it is older
than the run, was granted to this user less than its lifetime and a second before. -/
theorem authentication_provenance (hjwt : E.crypto.Jwt) (hexp : E.crypto.Expires)
    (H : (backend E).Run (Unforged E w₀) ⟨w₀, []⟩ c) (ht : t ∈ c.threads) {credentials : String}
    {route : Route} {draws : Draws} {user : CurrentUser}
    (hreq : t.req = .http (.user credentials route draws)) (hacts : Acts E credentials t.log user) :
    SignedIn E w₀ c.threads user.id ∧
    ((∃ id row, w₀.db.refreshTokens.get? id = some row ∧ row.userId = user.id ∧
        E.crypto.Subject user.id credentials) ∨
      ∃ t' ∈ c.threads, ∃ r ∈ responses t'.log, ∃ pair granted now, r.tokens = some pair ∧
        pair.accessToken = credentials ∧ (⟨_, .utcnow, granted⟩ : Event Cmd) ∈ t'.log ∧
        (⟨_, .utcnow, now⟩ : Event Cmd) ∈ t.log ∧
        now < granted + minutes E.cfg.accessTokenExpireMinutes + seconds 1) := by
  obtain ⟨now, payload, hnow, hdecode, htype, hsub⟩ := hacts.token
  have hknown : Known E w₀ c.threads credentials := run_known H ht (by rw [hreq]; rfl)
  cases hknown with
  | useless h => exact absurd htype (h now payload hdecode)
  | @before tokenId row h hsubject =>
    have hid : row.userId = user.id := by
      obtain ⟨p, rfl, hp⟩ := hsubject
      exact hp.symm.trans ((hjwt.decode now p payload hdecode).1.symm.trans hsub)
    exact ⟨hid ▸ .before h, .inl ⟨tokenId, row, h, hid, hid ▸ hsubject⟩⟩
  | @sent pair h htoken =>
    obtain ⟨t', ht', r, hr, hp⟩ := h
    obtain ⟨log, ws, hl, hG, hws⟩ := run_granted H ht' hr hp
    cases hreq' : t'.req with
    | http req =>
      rw [hreq'] at hG
      cases req with
      | user => exact hG.elim
      | auth route' draws' =>
        obtain ⟨before, u, row, rfl, hauth, hpair⟩ := hG
        obtain ⟨granted, iat, hgranted, haccess⟩ := hpair.access
        have hdecode : E.crypto.jwtDecode now
            (E.crypto.jwtEncode (accessPayload E.cfg u granted iat draws'.accessJti)) =
              some payload := by
          rw [← haccess, htoken]
          exact hdecode
        obtain rfl : u = user.id := (hjwt.decode _ _ _ hdecode).1.symm.trans hsub
        refine ⟨.of_authenticates ht' hreq' ((run_signedIn H).seen t' ht') hl
          (fun w hw => hws w (List.mem_append_left _ hw)) hauth, .inr ?_⟩
        exact ⟨t', ht', r, hr, pair, granted, now, hp, htoken, hl.subset hgranted, hnow,
          hexp now _ payload hdecode⟩
    | _ =>
      rw [hreq'] at hG
      exact hG.elim

end

/-! ## Tokens that expire -/

namespace Sample

def typeLetter : TokenType → Char
  | .access => 'a'
  | .refresh => 'r'

/-- Three numbers in unary. -/
def unary (a b c : Nat) : List Char :=
  List.replicate a '|' ++ '.' :: (List.replicate b '|' ++ '.' :: List.replicate c '|')

def readUnary (cs : List Char) : Nat × Nat × Nat :=
  let rest := (cs.dropWhile (· = '|')).drop 1
  ((cs.takeWhile (· = '|')).length, (rest.takeWhile (· = '|')).length,
    ((rest.dropWhile (· = '|')).drop 1).length)

/-- A token that spells out the second in which it expires as well. -/
def datedEncode (p : Payload) : String :=
  String.ofList (typeLetter p.type :: unary p.sub p.jti (p.exp / seconds 1).toNat)

def datedDecode (now : Time) (token : String) : Option Payload :=
  match token.toList with
  | c :: cs =>
    let (sub, jti, exp) := readUnary cs
    if exp = 0 ∨ exp < now / seconds 1 then none
    else if c = 'a' then some ⟨sub, .access, seconds exp, now, jti⟩
    else if c = 'r' then some ⟨sub, .refresh, seconds exp, now, jti⟩
    else none
  | [] => none

def datedEnv : Env :=
  { env with
    cfg := { accessTokenExpireMinutes := 1, refreshTokenExpireDays := 0 }
    crypto := { crypto with jwtEncode := datedEncode, jwtDecode := datedDecode } }

theorem readUnary_unary (a b c : Nat) : readUnary (unary a b c) = (a, b, c) := by
  simp only [readUnary, unary, takeWhile_replicate, dropWhile_replicate, List.drop_succ_cons,
    List.drop_zero, List.length_replicate]

theorem lt_of_seconds_le {now exp : Int} (hpos : (exp / 1000000).toNat ≠ 0)
    (h : now / 1000000 ≤ (exp / 1000000).toNat) : now < exp + 1000000 := by
  omega

theorem datedDecode_datedEncode {now : Time} {p q : Payload}
    (h : datedDecode now (datedEncode p) = some q) :
    (q.sub = p.sub ∧ q.type = p.type ∧ q.jti = p.jti) ∧ now < p.exp + seconds 1 := by
  simp only [datedDecode, datedEncode, String.toList_ofList, readUnary_unary] at h
  split at h
  · cases h
  · rename_i hexp
    have hlt : now < p.exp + seconds 1 := by
      obtain ⟨hpos, hle⟩ := not_or.mp hexp
      exact lt_of_seconds_le hpos (Int.not_lt.mp hle)
    refine ⟨?_, hlt⟩
    cases hp : p.type with
    | access =>
      rw [hp] at h
      cases h
      exact ⟨rfl, rfl, rfl⟩
    | refresh =>
      rw [hp] at h
      cases h
      exact ⟨rfl, rfl, rfl⟩

theorem dated_jwt : datedEnv.crypto.Jwt where
  encode p q h := by
    have h : typeLetter p.type :: unary p.sub p.jti (p.exp / seconds 1).toNat =
        typeLetter q.type :: unary q.sub q.jti (q.exp / seconds 1).toNat :=
          String.ofList_injective h
    obtain ⟨ht, hu⟩ := List.cons.inj h
    have hread := congrArg readUnary hu
    rw [readUnary_unary, readUnary_unary] at hread
    obtain ⟨hsub, hrest⟩ := Prod.mk.inj hread
    refine ⟨hsub, ?_, (Prod.mk.inj hrest).1⟩
    revert ht
    cases p.type <;> cases q.type <;> decide
  decode _ _ _ h := (datedDecode_datedEncode h).1

/-- Alice logs in and registers her phone with the token that she got. -/
def loginThenPush : List (Label Choice Job Nat) :=
  .spawn (.http (.auth (.login ⟨"alice@rawbin.io", "password"⟩) (draws 3))) :: steps 0 9 ++
  .spawn (.http (.user (datedEncode ⟨1, .access, seconds 60, 0, 3⟩)
    (.updatePushToken ⟨"fcm-token-1"⟩)
    (draws 4))) :: steps 1 2

end Sample

/-- The token that a request presents was sent to somebody. -/
def presentsSent (c : Pool) : Label Choice Job ℕ → Bool
  | .spawn j => j.credentials.all fun token => c.threads.any fun t =>
    (responses t.log).any fun r => r.tokens.any (·.accessToken = token)
  | _ => true

theorem Unforged.of_presentsSent {E : Env} {w₀ : World} {c : Pool} {l : Label Choice Job ℕ}
    (h : presentsSent c l = true) : Unforged E w₀ c l := by
  cases l with
  | spawn j =>
    intro token htoken
    rw [presentsSent, htoken, Option.all_some] at h
    obtain ⟨t, ht, h⟩ := List.any_eq_true.mp h
    obtain ⟨r, hr, h⟩ := List.any_eq_true.mp h
    obtain ⟨pair, hp, h⟩ := (Option.any_eq_true _ _).mp h
    exact .sent ⟨t, ht, r, hr, hp⟩ (of_decide_eq_true h)
  | _ => trivial

/-- A user changes no other user. -/
theorem Job.acts_of_updateUser {E : Env} {j : Job} {log : Log} {ws : List Write} {id : Uuid}
    {patch : UserPatch} (h : j.Issues E log ws (.updateUser id patch)) :
    ∃ credentials route draws user, j = .http (.user credentials route draws) ∧
      Acts E credentials log user ∧ user.id = id := by
  cases j with
  | http r =>
    cases r with
    | user credentials route draws =>
      obtain ⟨user, hacts, h⟩ := h
      refine ⟨credentials, route, draws, user, rfl, hacts, ?_⟩
      cases h <;> rfl
    | auth => cases h
  | _ => exact h.elim

/-- Alice's second request is let in because she has logged in, with a token that is not a minute
and a second old. -/
theorem loginThenPush_authenticated : ∃ c t, ∃ user : CurrentUser, ∃ credentials,
    (backend Sample.datedEnv).followIf presentsSent
      ⟨Sample.world, []⟩ Sample.loginThenPush = some c ∧
    c.threads[1]? = some t ∧ user.id = 1 ∧
    SignedIn Sample.datedEnv Sample.world c.threads user.id ∧
    ((∃ id row, Sample.world.db.refreshTokens.get? id = some row ∧ row.userId = user.id ∧
        Sample.datedEnv.crypto.Subject user.id credentials) ∨
      ∃ t' ∈ c.threads, ∃ r ∈ responses t'.log, ∃ pair granted now, r.tokens = some pair ∧
        pair.accessToken = credentials ∧ (⟨_, .utcnow, granted⟩ : Event Cmd) ∈ t'.log ∧
        (⟨_, .utcnow, now⟩ : Event Cmd) ∈ t.log ∧
        now < granted + minutes Sample.datedEnv.cfg.accessTokenExpireMinutes + seconds 1) := by
  have h : ((backend Sample.datedEnv).followIf presentsSent ⟨Sample.world, []⟩
      Sample.loginThenPush).any (·.threads[1]?.any fun t => nextStatement t.prog =
        some (.updateUser 1 { firebasePushToken := some "fcm-token-1" })) =
          true := by decide +kernel
  obtain ⟨c, hc, h⟩ := (Option.any_eq_true _ _).mp h
  obtain ⟨t, ht, h⟩ := (Option.any_eq_true _ _).mp h
  have hnext := of_decide_eq_true h
  have H := System.Run.of_followIf hc
  have hmem := List.mem_of_getElem? ht
  cases hp : t.prog with
  | pure | raise => rw [hp] at hnext; cases hnext
  | cmd cm k =>
    rw [hp] at hnext
    obtain ⟨credentials, route, draws, user, hreq, hacts, hid⟩ :=
      Job.acts_of_updateUser (run_issues H hmem hp hnext)
    exact ⟨c, t, user, credentials, hc, ht, hid, authentication_provenance Sample.dated_jwt
      (fun now p q h => (Sample.datedDecode_datedEncode h).2)
      (H.mono fun _ _ => .of_presentsSent) hmem hreq hacts⟩

end Rawbin
