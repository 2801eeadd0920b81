import Rawbin.Verify.Lineages
import Rawbin.Verify.MembershipViews
import Rawbin.Verify.Statements
import Rawbin.Verify.ThresholdBounds

/-!
# Safe and idempotent methods

A GET changes nothing, whatever runs beside it, waits for nobody and makes nobody wait. A PUT or a
DELETE that is repeated, because the client has not got the response, changes nothing more.
-/

namespace Rawbin

/-! ## GET -/

/-- Nothing is written, neither to the database nor to Redis. -/
def ReadsOnly : Assertion := fun _ ws c => ws = [] ∧ c.statement = none ∧ c.isRedis = false

theorem Within.readsOnly {R : α → Prop} {p : Prog Cmd Exn α} {log : Log}
    (h : Within Cmd.reads R p) :
    Keeps ReadsOnly (fun _ ws r => ws = [] ∧ ∀ a, r = .ok a → R a) log [] p := by
  induction p generalizing log with
  | pure a =>
    refine .pure ⟨rfl, fun a' ha => ?_⟩
    cases ha
    exact h
  | raise e =>
    refine .raise ⟨rfl, fun a ha => ?_⟩
    cases ha
  | cmd c k ih =>
    obtain ⟨hc, hk⟩ := h
    have hquiet : c.statement = none ∧ c.isRedis = false := by
      cases c with
      | select | utcnow => exact ⟨rfl, rfl⟩
      | _ => cases hc
    exact .quiet hquiet.1 ⟨rfl, hquiet⟩ fun b => ih b (hk b)

theorem getCurrentUser_within {E : Env} {credentials : String} :
    (getCurrentUser E credentials).Within Cmd.reads fun _ => True := by
  refine (Handler.Within.single rfl).bind fun now _ => ?_
  cases decodeToken E.crypto now credentials with
  | none => exact .raise _
  | some payload =>
    refine .branch (.raise _) ((Handler.Within.single rfl).bind fun user _ => ?_)
    cases user with
    | none => exact .raise _
    | some user => exact .branch (.pure trivial) (.raise _)

/-- The job is a GET request. -/
def Job.gets : Job → Bool
  | .http (.user _ route _) => route.method = .get
  | _ => false

theorem Job.readsOnly {E : Env} {j : Job} (hj : j.gets = true) :
    Keeps ReadsOnly (fun _ ws _ => ws = []) [] [] (j.prog E) := by
  cases j with
  | http r =>
    cases r with
    | auth => cases hj
    | user credentials route draws =>
      have hroute : ((Request.user credentials route draws).handle E).Within Cmd.reads
          fun response => response.tokens = none :=
        getCurrentUser_within.bind fun user _ => Route.within_reads (of_decide_eq_true hj)
      refine .bind (R := fun _ ws _ => ws = []) ?_ (fun log ws b h => .pure h) fun log ws e h => h
      refine getDb_keeps (hroute []).readsOnly (fun log ws e hR => ?_)
        fun log ws response pending hR => ?_
      · obtain ⟨rfl, _⟩ := hR
        exact .rollback ⟨rfl, rfl, rfl⟩ (.respond ⟨rfl, rfl, rfl⟩ (.pure rfl))
      · obtain ⟨rfl, hR⟩ := hR
        obtain ⟨rfl, _⟩ := hR _ rfl
        exact .respond ⟨rfl, rfl, rfl⟩ (.commit ⟨rfl, rfl, rfl⟩ (.pure rfl))
  | _ => cases hj

/-- What changes nothing when the transaction has executed nothing. -/
theorem Cmd.exec_of_readsOnly {c : Cmd β} {log : Log} {t : Session} (h : ReadsOnly log t.written c)
    (x : Choice) (w : World) : (c.exec x t w).2.2 = w := by
  obtain ⟨ht, _, hr⟩ := h
  rcases c.exec_world x t w with h | ⟨_, h⟩ | ⟨h, _⟩
  · exact h
  · rw [h, Session.view_of_nil ht]
  · cases hr.symm.trans h

theorem Cmd.not_blocked {c : Cmd β} (h : c.statement = none) (ts : List Session) :
    c.blocked ts = false := by
  induction c with
  | execute => cases h
  | attempt c ih => exact ih h
  | _ => rfl

/-- **GET is safe.** However requests are interleaved, no command of a GET request changes the
database or Redis, none of them has to wait, and the request holds no lock. -/
theorem gets_safe {E : Env} {ok : Pool → Label Choice Job ℕ → Prop} {w₀ : World} {c : Pool}
    {t : JobThread} (H : (backend E).Run ok ⟨w₀, []⟩ c) (ht : t ∈ c.threads)
    (hget : t.req.gets = true) : t.sess.written = [] ∧
      ∀ (β : Type) (cm : Cmd β) (k : β → Prog Cmd Exn Outcome), t.prog = .cmd cm k →
        (∀ x w, ((backend E).exec x cm t.sess w).2.2 = w) ∧
        ∀ ts, (backend E).blocked cm ts = false := by
  have h := H.always (I := fun j {_} log (t : Session) c => j.gets = true →
      ReadsOnly log t.written c)
    (Q := fun j _ (t : Session) _ => j.gets = true → t.written = [])
      (fun _ h => (nomatch h)) ?_ t ht
  · cases hp : t.prog with
    | pure | raise =>
      rw [hp] at h
      refine ⟨h hget, fun β cm k hk => ?_⟩
      cases hk
    | cmd cm k =>
      rw [hp] at h
      have hcm : ReadsOnly t.log t.sess.written cm := h.1 hget
      refine ⟨hcm.1, fun β cm' k' hk => ?_⟩
      cases hk
      exact ⟨fun x w => cm.exec_of_readsOnly hcm x w, cm.not_blocked hcm.2.1⟩
  · intro c j _
    by_cases hj : j.gets = true
    · exact ((Job.readsOnly hj) .idle rfl).imp (fun _ _ _ _ h _ => h) fun _ _ _ h _ => h
    · exact .of_forall (fun _ _ _ _ h => absurd h hj) fun _ _ _ h => absurd h hj

/-! ## PUT and DELETE -/

/-- The state has what the route asks for in the name of `u`. -/
def Route.Done (u : Uuid) (w : World) : Route → Prop
  | .putDeviceConfig d body =>
    w.db.deviceConfigs.get? d = some body ∧ w.redis (.alertConfig d) = none
  | .updatePushToken body =>
    ∀ user, w.db.users.get? u = some user → user.firebasePushToken = some body.token
  | .removeMember d v => w.db.userDevices.contains (v, d) = false
  | _ => False

/-- The route has failed without an effect, or the state has what it asks for. -/
def Route.Outcome (route : Route) (u : Uuid) (w : World) (response : Response)
    (w' : World) : Prop :=
  (response.isSuccess = false ∧ w' = w) ∨ (response.isSuccess = true ∧ route.Done u w')

theorem Redis.delAll_of_none {r : Redis} {k : RedisKey} (h : r k = none) : r.delAll [k] = r := by
  funext k'
  by_cases hk : k' ∈ [k]
  · rw [Expiring.delAll_of_mem hk, List.mem_singleton.mp hk, h]
  · exact Expiring.delAll_of_notMem hk

section
variable {E : Env} {w : World} {u d v : Uuid} {credentials : String} {draws : Draws}

theorem Authenticated.subject (hjwt : E.crypto.Jwt) (hsub : E.crypto.Subject u credentials)
    {u' : Uuid} {user : User} (h : Authenticated E credentials u' user w) : u' = u := by
  obtain ⟨p, rfl, rfl⟩ := hsub
  obtain ⟨payload, hp, _, rfl, _⟩ := h
  exact (hjwt.decode _ _ _ hp).1

/-! ### The first request -/

theorem putDeviceConfig_outcome {body : DeviceConfigIn} :
    let route : Route := .putDeviceConfig d body
    let r := serve E (.user credentials route draws) w
    route.Outcome u w r.1 r.2 := by
  intro route
  by_cases h : ∃ u user device, Authenticated E credentials u user w ∧ DeviceMember d u device w
  · obtain ⟨u, user, device, hu, hm⟩ := h
    obtain ⟨hresponse, hput⟩ := putDeviceConfig_serve hu hm body draws
    refine .inr ⟨by rw [hresponse]; rfl, hput.row, ?_⟩
    rw [hput.redis]
    exact Expiring.delAll_of_mem (List.mem_singleton_self _)
  · refine .inl (serve_ends (P := fun response w' => response.isSuccess = false ∧ w' = w) ?_)
    refine getCurrentUser_ends rfl (fun _ _ => ⟨rfl, rfl⟩) fun t u user ht hu => ?_
    refine assertDeviceMember_ends ht (fun _ _ => ⟨rfl, rfl⟩) fun t device ht hm => ?_
    exact absurd ⟨u, user, device, hu, hm⟩ h

/-- What the route leaves of the row of an authenticated user. -/
theorem updatePushToken_ends {Q : Except Exn (Response × List Write) → Session → World → Prop}
    {t : Session} {user : User} {body : PushTokenIn} (ht : t.written = [])
    (huser : w.db.users.get? u = some user)
    (hsame : ∀ t', user.firebasePushToken = some body.token → t'.view w.db = w.db →
      Q (.ok (⟨204, .empty, []⟩, [])) t' w)
    (hnew : ∀ t', user.firebasePushToken ≠ some body.token →
      t'.view w.db = (Write.updateUser u { firebasePushToken := some body.token }).apply w.db →
      Q (.ok (⟨204, .empty, []⟩, [])) t' w) :
    Ends Q t w (updatePushToken body ⟨u, user⟩ []) := by
  have hexists : w.db.users.contains u = true := Table.contains_of_get? huser
  have hviolates : (Write.updateUser u { firebasePushToken := some body.token }).violates w.db =
      none := by
    simp [Write.violates, hexists, Db.phoneTaken]
  rw [updatePushToken, updateUser]
  by_cases htoken : user.firebasePushToken = some body.token
  · rw [if_pos htoken]
    refine when_ends (fun h => absurd rfl h) fun _ => flush_ends (fun t' hf => ?_) fun t' e hf => ?_
    · exact hsame t' htoken ((Except.ok.inj hf).symm.trans (Session.view_of_nil ht _))
    · cases hf
  · rw [if_neg htoken]
    refine when_ends (fun _ => flush_ends (fun t' hf => ?_) fun t' e hf => ?_) fun h => ?_
    · rw [Session.view_of_nil ht] at hf
      exact hnew t' htoken (Write.of_flushed_one hf).2
    · rw [Session.view_of_nil ht] at hf
      cases hviolates.symm.trans (Write.of_flushed_one_error hf)
    · exact absurd (congrArg UserPatch.firebasePushToken (not_not.mp h)) (by rintro ⟨⟩)

theorem updatePushToken_outcome (hjwt : E.crypto.Jwt) (hsub : E.crypto.Subject u credentials)
    {body : PushTokenIn} :
    let route : Route := .updatePushToken body
    let r := serve E (.user credentials route draws) w
    route.Outcome u w r.1 r.2 := by
  intro route
  refine serve_ends (P := route.Outcome u w) ?_
  refine getCurrentUser_ends rfl (fun _ _ => .inl ⟨rfl, rfl⟩) fun t u' user ht hu => ?_
  cases hu.subject hjwt hsub
  obtain ⟨_, _, _, _, huser, _⟩ := hu
  refine updatePushToken_ends ht huser (fun t' htoken hview => ?_) fun t' _ hview => ?_
  · refine .inr ⟨rfl, fun user' huser' => ?_⟩
    have hdb : (w.settle t' []).db = w.db := hview
    rw [hdb] at huser'
    cases huser.symm.trans huser'
    exact htoken
  · refine .inr ⟨rfl, fun user' huser' => ?_⟩
    have hdb : (w.settle t' []).db =
        (Write.updateUser u { firebasePushToken := some body.token }).apply w.db := hview
    rw [hdb] at huser'
    obtain ⟨_, _, rfl⟩ := Option.map_eq_some_iff.mp ((Table.get?_update_self ..).symm.trans huser')
    rfl

theorem removeMember_outcome :
    let route : Route := .removeMember d v
    let r := serve E (.user credentials route draws) w
    route.Outcome u w r.1 r.2 := by
  intro route
  refine serve_ends (P := route.Outcome u w) ?_
  refine getCurrentUser_ends rfl (fun t _ => .inl ⟨rfl, rfl⟩) fun t caller user ht _ => ?_
  refine assertDeviceMember_ends ht (fun t _ => .inl ⟨rfl, rfl⟩) fun t device ht _ => ?_
  refine select_ends ht fun t ht => raiseIf_ends (fun _ => .inl ⟨rfl, rfl⟩) fun _ => ?_
  refine select_ends ht fun t ht => ?_
  cases hlink : (Query.userDevice d v).eval w.db with
  | none =>
    refine .inr ⟨rfl, ?_⟩
    show (w.settle t []).db.userDevices.contains (v, d) = false
    have hnone : w.db.userDevices.get? (v, d) = none := hlink
    rw [World.settle_nil ht, Table.contains, hnone]
    rfl
  | some link =>
    refine .inr ⟨rfl, ?_⟩
    show (w.settle t [.deleteUserDevice v d]).db.userDevices.contains (v, d) = false
    rw [World.settle_one ht rfl]
    exact Bool.eq_false_iff.mpr fun h => ((Table.contains_delete ..).mp h).2 rfl

/-! ### The request that repeats it -/

theorem putDeviceConfig_repeated {body : DeviceConfigIn}
    (h : (Route.putDeviceConfig d body).Done u w) :
    (serve E (.user credentials (.putDeviceConfig d body) draws) w).2 = w := by
  obtain ⟨hrow, hcache⟩ := h
  refine serve_ends (P := fun _ w' => w' = w) ?_
  refine getCurrentUser_ends rfl (fun t _ => rfl) fun t caller user ht _ => ?_
  refine assertDeviceMember_ends ht (fun t _ => rfl) fun t device ht _ => ?_
  refine select_ends ht fun t ht => ?_
  have hcfg : (Query.deviceConfig d).eval w.db = some body := hrow
  rw [hcfg]
  have hpatch : DeviceConfigPatch.between body body = {} := by
    simp [DeviceConfigPatch.between, changed]
  refine when_ends (fun h => absurd hpatch h) fun _ =>
    flush_ends (fun t' hf => ?_) fun t' e hf => ?_
  · have hview : t'.view w.db = w.db :=
      (Except.ok.inj hf).symm.trans (Session.view_of_nil ht _)
    refine redis_ends ?_
    show { w with db := t'.view w.db, redis := w.redis.delAll [.alertConfig d] } = w
    rw [hview, Redis.delAll_of_none hcache]
  · cases hf

theorem updatePushToken_repeated (hjwt : E.crypto.Jwt) (hsub : E.crypto.Subject u credentials)
    {body : PushTokenIn} (h : (Route.updatePushToken body).Done u w) :
    (serve E (.user credentials (.updatePushToken body) draws) w).2 = w := by
  refine serve_ends (P := fun _ w' => w' = w) ?_
  refine getCurrentUser_ends rfl (fun _ _ => rfl) fun t u' user ht hu => ?_
  cases hu.subject hjwt hsub
  obtain ⟨_, _, _, _, huser, _⟩ := hu
  refine updatePushToken_ends ht huser (fun t' _ hview => ?_) fun t' hne _ => ?_
  · show { w with db := t'.view w.db } = w
    rw [hview]
  · exact absurd (h user huser) hne

theorem removeMember_repeated (h : (Route.removeMember d v).Done u w) :
    (serve E (.user credentials (.removeMember d v) draws) w).2 = w := by
  refine serve_ends (P := fun _ w' => w' = w) ?_
  refine getCurrentUser_ends rfl (fun t _ => rfl) fun t caller user ht _ => ?_
  refine assertDeviceMember_ends ht (fun t _ => rfl) fun t device ht _ => ?_
  refine select_ends ht fun t ht => raiseIf_ends (fun _ => rfl) fun _ => ?_
  refine select_ends ht fun t ht => ?_
  have hnone : (Query.userDevice d v).eval w.db = none :=
    Table.get?_eq_none_iff.mpr (Table.contains_eq_false_iff.mp h)
  rw [hnone]
  exact World.settle_nil ht

theorem Route.repeated (hjwt : E.crypto.Jwt) (hsub : E.crypto.Subject u credentials) {route : Route}
    (h : route.Done u w) : (serve E (.user credentials route draws) w).2 = w := by
  cases route with
  | putDeviceConfig => exact putDeviceConfig_repeated h
  | updatePushToken => exact updatePushToken_repeated hjwt hsub h
  | removeMember => exact removeMember_repeated h
  | _ => exact h.elim

/-- **PUT and DELETE are idempotent.** A request fails without an effect, or it succeeds; then, at
whatever time the same user repeats it, with whatever token, it changes nothing more. -/
theorem puts_idempotent (hjwt : E.crypto.Jwt) {route : Route} {credentials' : String}
    (hmethod : route.method = .put ∨ route.method = .delete)
    (hsub : E.crypto.Subject u credentials) (hsub' : E.crypto.Subject u credentials')
    (draws' : Draws) (later : Time) :
    let r := serve E (.user credentials route draws) w
    let w' := { r.2 with now := later }
    (r.1.isSuccess = false ∧ r.2 = w) ∨
      (r.1.isSuccess = true ∧ (serve E (.user credentials' route draws') w').2 = w') := by
  have houtcome : route.Outcome u w (serve E (.user credentials route draws) w).1
      (serve E (.user credentials route draws) w).2 := by
    cases route with
    | putDeviceConfig => exact putDeviceConfig_outcome
    | updatePushToken => exact updatePushToken_outcome hjwt hsub
    | removeMember => exact removeMember_outcome
    | _ => rcases hmethod with h | h <;> cases h
  intro r w'
  refine houtcome.imp_right (And.imp_right fun hdone => Route.repeated hjwt hsub' ?_)
  cases route <;> exact hdone

end

/-! ## Alice at device 7 -/

def Sample.listConfig : Job := Sample.request 1 (.getDeviceConfig 7) 10

/-- A GET between a PUT's statement and its commit. -/
def readDuringPut : List (Label Choice Job Nat) :=
  .spawn (Sample.request 1 (.putDeviceConfig 7 ⟨some 60, none, none, none, none, none, none⟩) 9) ::
    .spawn Sample.listConfig :: Sample.steps 0 6 ++ Sample.steps 1 3

theorem readDuringPut_safe : ∃ c t,
    (backend Sample.env).followIf (fun _ _ => true) ⟨Sample.deviceWorld, []⟩ readDuringPut =
      some c ∧ c.threads[1]? = some t ∧ t.sess.written = [] ∧
    ∀ (β : Type) (cm : Cmd β) (k : β → Prog Cmd Exn Outcome), t.prog = .cmd cm k →
      (∀ x w, ((backend Sample.env).exec x cm t.sess w).2.2 = w) ∧
      ∀ ts, (backend Sample.env).blocked cm ts = false := by
  have h : ((backend Sample.env).followIf (fun _ _ => true) ⟨Sample.deviceWorld, []⟩
      readDuringPut).any (·.threads[1]?.any fun t => t.req.gets) = true := by decide +kernel
  obtain ⟨c, hc, h⟩ := (Option.any_eq_true _ _).mp h
  obtain ⟨t, ht, hget⟩ := (Option.any_eq_true _ _).mp h
  exact ⟨c, t, hc, ht, gets_safe (.of_followIf hc) (List.mem_of_getElem? ht) hget⟩

theorem alice_subject :
    Sample.env.crypto.Subject 1 (Sample.jwtEncode ⟨1, .access, 0, 0, 0⟩) :=
  ⟨⟨1, .access, 0, 0, 0⟩, rfl, rfl⟩

/-- Alice stores a configuration twice, the second time an hour later. -/
theorem putTwice_idempotent :
    let put : Route := .putDeviceConfig 7 ⟨some 60, none, none, none, none, none, none⟩
    let token := Sample.jwtEncode ⟨1, .access, 0, 0, 0⟩
    let r := serve Sample.env (.user token put (Sample.draws 0)) Sample.deviceWorld
    let w' := { r.2 with now := hours 1 }
    (r.1.isSuccess = false ∧ r.2 = Sample.deviceWorld) ∨
      (r.1.isSuccess = true ∧ (serve Sample.env (.user token put (Sample.draws 1)) w').2 = w') :=
  puts_idempotent Sample.jwt (.inl rfl) alice_subject alice_subject (Sample.draws 1) (hours 1)

end Rawbin
