import Rawbin.Verify.Sequential

/-!
# The pairing handshake

The state of a handshake is split: the pairing flag is a column of the device, the nonce an
expiring key of Redis. Beside the world a run keeps the list of the challenges that were issued;
the stored nonce of a device is that of its latest challenge, until a confirm consumes it.
-/

namespace Rawbin

/-- A challenge that was issued: when its nonce was stored, and the number of confirms that
presented it with success. -/
structure Challenge where
  nonce : String
  storedAt : Time
  confirms : Nat

/-- A world, and the challenges that were issued up to now, the latest one first. -/
structure Handshake where
  world : World
  issued : List (Uuid × Challenge)

def Route.inHandshake : Route → Bool
  | .pairingChallenge _ | .pairingConfirm _ | .provisionDeviceSecret _ _ | .shareDevice _ _
  | .removeMember _ _ => true
  | _ => false

inductive HandshakeEvent where
  | request (credentials : String) (route : Route) (draws : Draws)
  | tick (dt : Nat)

def HandshakeEvent.inHandshake : HandshakeEvent → Bool
  | .request _ route _ => route.inHandshake
  | .tick _ => true

/-- Count a confirm for the latest challenge of the device. -/
def countConfirm (d : Uuid) : List (Uuid × Challenge) → List (Uuid × Challenge)
  | [] => []
  | (d', c) :: issued =>
    if d' = d then (d', { c with confirms := c.confirms + 1 }) :: issued
    else (d', c) :: countConfirm d issued

/-- The latest challenge of a device in a list. -/
def latestIn (issued : List (Uuid × Challenge)) (d : Uuid) : Option Challenge :=
  (issued.find? fun e => e.1 = d).map Prod.snd

namespace Handshake

/-- What a response says about challenges. -/
def record (issued : List (Uuid × Challenge)) (now : Time) (response : Response) :
    List (Uuid × Challenge) :=
  match response.body with
  | .challenge c => (c.deviceId, ⟨c.nonce, now, 0⟩) :: issued
  | .confirm c => countConfirm c.deviceId issued
  | _ => issued

/-- The latest challenge of a device. -/
def latest (h : Handshake) (d : Uuid) : Option Challenge := latestIn h.issued d

/-- The same at another instant. -/
def atTime (h : Handshake) (now : Time) : Handshake :=
  { h with world := { h.world with now := now } }

end Handshake

def HandshakeEvent.apply (E : Env) : HandshakeEvent → Handshake → Handshake
  | .request credentials route draws, h =>
    let r := serve E (.user credentials route draws) h.world
    ⟨r.2, Handshake.record h.issued h.world.now r.1⟩
  | .tick dt, h => { h with world := h.world.tick dt }

/-- Time passes, or a confirm is turned down. -/
def HandshakeEvent.Rejected (E : Env) (h : Handshake) : HandshakeEvent → Prop
  | .request credentials (.pairingConfirm body) draws =>
    (serve E (.user credentials (.pairingConfirm body) draws) h.world).1.status ≠ 200
  | .request _ _ _ => False
  | .tick _ => True

/-- The confirm comes from a member of the device while it is unpaired, its response is right, and
it presents the nonce of the latest challenge of this device: in time, and for the first time. -/
def CorrectConfirm (E : Env) (h : Handshake) (credentials : String) (body : PairingConfirmRequest) :
    Prop :=
  ∃ u user device c, Authenticated E credentials u user h.world ∧
    DeviceMember body.deviceId u device h.world ∧ device.isPaired = false ∧
    h.latest body.deviceId = some c ∧ c.nonce = body.nonce ∧
    h.world.now < c.storedAt + seconds E.cfg.pairingChallengeTtlSeconds ∧ c.confirms = 0 ∧
    verifyDeviceHmac E.crypto device.deviceSecretEnc body.nonce body.hmacResponse = .ok true

/-! ## The routes -/

section
variable {E : Env} {w : World} {credentials : String} {draws : Draws}

/-- The confirm would be accepted, by what is stored. -/
def Confirmable (E : Env) (w : World) (credentials : String)
    (body : PairingConfirmRequest) : Prop :=
  ∃ u user device, Authenticated E credentials u user w ∧ DeviceMember body.deviceId u device w ∧
    device.isPaired = false ∧
    w.redis.get w.now (.challenge body.deviceId) = some body.nonce ∧
    verifyDeviceHmac E.crypto device.deviceSecretEnc body.nonce body.hmacResponse = .ok true

theorem Confirmable.update_violates {body : PairingConfirmRequest}
    (h : Confirmable E w credentials body) (patch : DevicePatch) :
    (Write.updateDevice body.deviceId patch).violates w.db = none := by
  obtain ⟨_, _, device, _, hm, _⟩ := h
  rw [Write.violates, Table.contains_of_get? hm.1]
  rfl

/-- A response that cannot be compared is not accepted. -/
theorem verifyDeviceHmac_status {C : Crypto} {secretEnc nonce response : String} {e : Exn}
    (h : verifyDeviceHmac C secretEnc nonce response = .error e) : e.response.status ≠ 200 := by
  rw [verifyDeviceHmac] at h
  split at h
  · cases h
  · rw [compareDigest] at h
    split at h <;> cases h
    nofun

/-- What becomes of a confirm. -/
inductive ConfirmOutcome (E : Env) (w : World) (credentials : String)
    (body : PairingConfirmRequest) :
    Response → World → Prop where
  | accepted (confirm : PairingConfirmResponse) (h : Confirmable E w credentials body)
    (hd : confirm.deviceId = body.deviceId) (hnow : w'.now = w.now)
    (hredis : w'.redis = w.redis.delAll [.challenge body.deviceId])
    (hpaired : (w'.db.devices.get? body.deviceId).all fun device => device.isPaired) :
    ConfirmOutcome E w credentials body ⟨200, .confirm confirm, []⟩ w'
  | rejected (e : Exn) (h : ¬ Confirmable E w credentials body) (he : e.response.status ≠ 200) :
    ConfirmOutcome E w credentials body e.response w

namespace ConfirmOutcome

variable {body : PairingConfirmRequest} {response : Response} {w' : World}

theorem confirmable (h : ConfirmOutcome E w credentials body response w')
    (hs : response.status = 200) : Confirmable E w credentials body := by
  cases h with
  | accepted confirm h => exact h
  | rejected e h he => exact absurd hs he

theorem consumed (h : ConfirmOutcome E w credentials body response w')
    (hs : response.status = 200) : w'.redis (.challenge body.deviceId) = none ∧
      (w'.db.devices.get? body.deviceId).all (fun device => device.isPaired) = true := by
  cases h with
  | accepted confirm h hd hnow hredis hpaired =>
    refine ⟨?_, hpaired⟩
    rw [hredis]
    exact Expiring.delAll_of_mem (List.mem_singleton_self _)
  | rejected e h he => exact absurd hs he

theorem rejected_eq (h : ConfirmOutcome E w credentials body response w')
    (hs : response.status ≠ 200) : w' = w := by
  cases h with
  | accepted => exact absurd rfl hs
  | rejected => rfl

theorem status (h : ConfirmOutcome E w credentials body response w')
    (hc : Confirmable E w credentials body) : response.status = 200 := by
  cases h with
  | accepted => rfl
  | rejected e h he => exact absurd hc h

end ConfirmOutcome

/-- What the route of a confirm comes to, before the end of its transaction. -/
inductive ConfirmEnds (E : Env) (w : World) (credentials : String) (body : PairingConfirmRequest) :
    Except Exn (Response × List Write) → Session → World → Prop where
  | accepted (confirm : PairingConfirmResponse) (t : Session)
    (h : Confirmable E w credentials body) (hd : confirm.deviceId = body.deviceId)
    (ht : t.written = []) :
    ConfirmEnds E w credentials body (.ok (⟨200, .confirm confirm, []⟩,
      [.updateDevice body.deviceId { isPaired := some true }])) t
      { w with redis := w.redis.delAll [.challenge body.deviceId] }
  | rejected (e : Exn) (t : Session) (h : ¬ Confirmable E w credentials body)
    (he : e.response.status ≠ 200) : ConfirmEnds E w credentials body (.error e) t w

theorem ConfirmEnds.refused {body : PairingConfirmRequest} {status : ℕ} {detail : String}
    (t : Session) (h : ¬ Confirmable E w credentials body) (hs : status ≠ 200) :
    ConfirmEnds E w credentials body (.error (.httpException status detail)) t w :=
  .rejected _ t h hs

theorem pairingConfirm_ends (body : PairingConfirmRequest) :
    Ends (ConfirmEnds E w credentials body) .idle w
      ((Request.user credentials (.pairingConfirm body) draws).handle E []) := by
  refine getCurrentUser_ends rfl (fun t hnone => ?_) fun t u user ht hauth => ?_
  · exact .rejected _ t (fun ⟨u, user, _, hauth, _⟩ => hnone u user hauth) (by decide)
  refine assertDeviceMember_ends ht (fun t hnone => ?_) fun t device ht hm => ?_
  · refine .refused t (fun ⟨u', user', device, hauth', hm, _⟩ => ?_) (by decide)
    obtain ⟨rfl, rfl⟩ := hauth.unique hauth'
    exact hnone device hm
  have honly (h : Confirmable E w credentials body) : device.isPaired = false ∧
      w.redis.get w.now (.challenge body.deviceId) = some body.nonce ∧
      verifyDeviceHmac E.crypto device.deviceSecretEnc body.nonce body.hmacResponse = .ok true := by
    obtain ⟨u', user', device', hauth', hm', h⟩ := h
    obtain ⟨rfl, rfl⟩ := hauth.unique hauth'
    cases hm.1.symm.trans hm'.1
    exact h
  refine raiseIf_ends (fun hpaired => ?_) fun hpaired => redis_ends ?_
  · refine .refused t (fun h => ?_) (by decide)
    cases hpaired.symm.trans (honly h).1
  simp only [RedisCmd.exec]
  cases hget : w.redis.get w.now (.challenge body.deviceId) with
  | none =>
    refine .refused t (fun h => ?_) (by decide)
    cases hget.symm.trans (honly h).2.1
  | some nonce =>
    refine raiseIf_ends (fun hne => ?_) fun heq =>
      ofExcept_ends (fun e he => ?_) fun verified hv => ?_
    · refine .refused t (fun h => hne ?_) (by decide)
      exact Option.some.inj (hget.symm.trans (honly h).2.1)
    · refine .rejected e t (fun h => ?_) (verifyDeviceHmac_status he)
      cases he.symm.trans (honly h).2.2
    refine raiseIf_ends (fun hbad => ?_) fun hgood => ?_
    · refine .refused t (fun h => ?_) (by decide)
      cases hv.symm.trans (honly h).2.2
      cases hbad
    obtain rfl : nonce = body.nonce := not_not.mp heq
    obtain rfl : verified = true := by simpa using hgood
    have hfalse : device.isPaired = false := Bool.eq_false_iff.mpr hpaired
    refine when_ends (fun _ => redis_ends (utcnow_ends ?_)) fun hsame => absurd ?_ hsame
    · have hpatch : ({ isPaired := changed device.isPaired true } : DevicePatch) =
          { isPaired := some true } := by
        rw [hfalse]
        rfl
      simp only [hpatch]
      exact .accepted _ t ⟨u, user, device, hauth, hm, hfalse, hget, hv⟩ rfl ht
    · rw [hfalse]
      intro hpatch
      cases hpatch

theorem pairingConfirm_outcome (body : PairingConfirmRequest) :
    ConfirmOutcome E w credentials body
      (serve E (.user credentials (.pairingConfirm body) draws) w).1
      (serve E (.user credentials (.pairingConfirm body) draws) w).2 := by
  refine serve_ends (P := ConfirmOutcome E w credentials body)
    ((pairingConfirm_ends body).mono fun res t w' h => ?_)
  cases h with
  | rejected e t h he => exact .rejected e h he
  | accepted confirm t h hd ht =>
    refine .accepted confirm h hd (World.settle_now ..) (World.settle_redis ..) ?_
    rw [World.settle_one (w := { w with redis := w.redis.delAll _ }) ht (h.update_violates _)]
    obtain ⟨_, _, device, _, hm, _⟩ := h
    show ((w.db.devices.update body.deviceId _).get? body.deviceId).all _ = true
    rw [Table.get?_update_self, hm.1]
    rfl

/-- Nothing happens to challenges. -/
structure Quiet (w : World) (response : Response) (w' : World) : Prop where
  now : w'.now = w.now
  redis : w'.redis = w.redis
  record : ∀ issued now, Handshake.record issued now response = issued

theorem Quiet.error (e : Exn) : Quiet w e.response w :=
  ⟨rfl, rfl, fun _ _ => by cases e <;> rfl⟩

theorem ConfirmOutcome.rejected_quiet {body : PairingConfirmRequest} {response : Response}
    {w' : World}
    (h : ConfirmOutcome E w credentials body response w') (hs : response.status ≠ 200) :
    Quiet w response w' := by
  cases h with
  | accepted => exact absurd rfl hs
  | rejected e => exact .error e

theorem Quiet.settle {response : Response} (h : ∀ issued now,
    Handshake.record issued now response = issued) (t : Session) (pending : List Write) :
    Quiet w response (w.settle t pending) := ⟨World.settle_now .., World.settle_redis .., h⟩

/-- What becomes of a challenge. -/
inductive ChallengeOutcome (E : Env) (w : World) : Response → World → Prop where
  | issued (c : PairingChallengeResponse) (hnow : w'.now = w.now)
    (hredis : w'.redis = w.redis.set (.challenge c.deviceId) c.nonce
      (some (w.now + seconds E.cfg.pairingChallengeTtlSeconds))) :
    ChallengeOutcome E w ⟨201, .challenge c, []⟩ w'
  | rejected (e : Exn) : ChallengeOutcome E w e.response w

theorem challengedDevice_ends {Q : Except Exn γ → Session → World → Prop} {t : Session}
    {body : PairingChallengeRequest} {user : CurrentUser}
    {k : Uuid × List Write → Prog Cmd Exn γ} (herr : ∀ t' e, Q (.error e) t' w)
    (hok : ∀ t' r, Ends Q t' w (k r)) :
    Ends Q t w ((challengedDevice E body user draws []).bind k) := by
  refine query_ends ?_
  cases (Query.deviceByHardwareUid body.hardwareUid).eval (t.view w.db) with
  | none =>
    refine Machine.Ends.cmd ?_
    simp only [Prog.pure_bind, Handler.bind_apply, Prog.bind_assoc, Handler.add_apply]
    refine flush_ends (fun t' _ => ?_) fun t' e _ => herr t' e
    exact addMember_ends herr fun t' _ => hok t' _
  | some found =>
    obtain ⟨id, device⟩ := found
    simp only [Prog.pure_bind, Handler.bind_apply, Prog.bind_assoc]
    refine query_ends (raiseIf_ends (fun _ => herr _ _) fun _ => ?_)
    exact when_ends (fun _ => when_ends (fun _ => hok _ _) fun _ => hok _ _) fun _ => hok _ _

theorem pairingChallenge_outcome (body : PairingChallengeRequest) :
    ChallengeOutcome E w (serve E (.user credentials (.pairingChallenge body) draws) w).1
      (serve E (.user credentials (.pairingChallenge body) draws) w).2 := by
  refine serve_ends (P := ChallengeOutcome E w) ?_
  refine getCurrentUser_ends rfl (fun _ _ => .rejected _) fun t u user _ _ => ?_
  refine challengedDevice_ends (fun _ e => .rejected e) fun t r => ?_
  exact utcnow_ends (redis_ends
    (.issued ⟨r.1, draws.tokenHex, _⟩ (World.settle_now ..) (World.settle_redis ..)))

theorem provision_quiet (d : Uuid) (secret : String) :
    Quiet w (serve E (.user credentials (.provisionDeviceSecret d secret) draws) w).1
      (serve E (.user credentials (.provisionDeviceSecret d secret) draws) w).2 := by
  refine serve_ends (P := Quiet w) ?_
  refine getCurrentUser_ends rfl (fun _ _ => .error _) fun t u user ht _ => ?_
  refine assertDeviceMember_ends ht (fun _ _ => .error _) fun t device ht _ => ?_
  exact when_ends (fun _ => .settle (fun _ _ => rfl) ..) fun _ => .settle (fun _ _ => rfl) ..

theorem shareDevice_quiet (d : Uuid) (body : DeviceShareRequest) :
    Quiet w (serve E (.user credentials (.shareDevice d body) draws) w).1
      (serve E (.user credentials (.shareDevice d body) draws) w).2 := by
  refine serve_ends (P := Quiet w) ?_
  refine getCurrentUser_ends rfl (fun _ _ => .error _) fun t u user ht _ => ?_
  refine assertDeviceMember_ends ht (fun _ _ => .error _) fun t device ht _ => query_ends ?_
  cases (Query.userByEmail body.email).eval (t.view w.db) with
  | none => exact .error _
  | some target =>
    simp only [Prog.pure_bind, Handler.bind_apply]
    refine addMember_ends (fun _ e => .error e) fun t _ => query_ends ?_
    exact .settle (fun _ _ => rfl) ..

theorem removeMember_quiet (d v : Uuid) :
    Quiet w (serve E (.user credentials (.removeMember d v) draws) w).1
      (serve E (.user credentials (.removeMember d v) draws) w).2 := by
  refine serve_ends (P := Quiet w) ?_
  refine getCurrentUser_ends rfl (fun _ _ => .error _) fun t u user ht _ => ?_
  refine assertDeviceMember_ends ht (fun _ _ => .error _) fun t device ht _ => query_ends ?_
  refine raiseIf_ends (fun _ => .error _) fun _ => query_ends ?_
  cases (Query.userDevice d v).eval _ with
  | none => exact .settle (fun _ _ => rfl) ..
  | some link => exact .settle (fun _ _ => rfl) ..

end

/-! ## Challenges -/

section
variable {E : Env} {h : Handshake} {d d' : Uuid}

theorem latestIn_cons (c : Challenge) (issued : List (Uuid × Challenge)) :
    latestIn ((d', c) :: issued) d = if d' = d then some c else latestIn issued d := by
  rw [latestIn, List.find?_cons]
  split <;> rename_i h
  · rw [if_pos (of_decide_eq_true h)]
    rfl
  · rw [if_neg (of_decide_eq_false h)]
    rfl

theorem mem_of_latestIn {issued : List (Uuid × Challenge)} {c : Challenge}
    (h : latestIn issued d = some c) : (d, c) ∈ issued := by
  obtain ⟨e, he, rfl⟩ := Option.map_eq_some_iff.mp h
  have hd : e.1 = d := by simpa using List.find?_some he
  exact hd ▸ List.mem_of_find?_eq_some he

theorem latestIn_countConfirm (issued : List (Uuid × Challenge)) :
    latestIn (countConfirm d issued) d' = if d' = d
      then (latestIn issued d).map fun c => { c with confirms := c.confirms + 1 }
      else latestIn issued d' := by
  induction issued with
  | nil => split <;> rfl
  | cons e issued ih =>
    obtain ⟨id, c⟩ := e
    rw [countConfirm]
    by_cases hid : id = d
    · subst hid
      simp only [if_true, latestIn_cons, Option.map_some]
      by_cases hd : id = d'
      · rw [if_pos hd, if_pos hd.symm]
      · rw [if_neg hd, if_neg (Ne.symm hd), if_neg hd]
    · simp only [if_neg hid, latestIn_cons, ih]
      by_cases hd : id = d'
      · subst hd
        rw [if_pos rfl, if_neg hid, if_pos rfl]
      · simp only [if_neg hd]

/-- A confirm is counted for the latest challenge. -/
theorem mem_countConfirm {issued : List (Uuid × Challenge)} (he : e ∈ countConfirm d issued) :
    e ∈ issued ∨ ∃ c, latestIn issued d = some c ∧ e.2.confirms = c.confirms + 1 := by
  induction issued with
  | nil => cases he
  | cons e' issued ih =>
    obtain ⟨id, c⟩ := e'
    rw [countConfirm] at he
    rw [latestIn_cons]
    split at he <;> rename_i hid
    · rcases List.mem_cons.mp he with rfl | he
      · exact .inr ⟨c, if_pos hid, rfl⟩
      · exact .inl (List.mem_cons_of_mem _ he)
    · rcases List.mem_cons.mp he with rfl | he
      · exact .inl List.mem_cons_self
      · rw [if_neg hid]
        exact (ih he).imp_left (List.mem_cons_of_mem _)

/-- What Redis holds for a device with this latest challenge. -/
def storedNonce (ttl : Nat) : Option Challenge → Option (Entry Time String)
  | some c => if c.confirms = 0 then some ⟨c.nonce, some (c.storedAt + seconds ttl)⟩ else none
  | none => none

theorem storedNonce_eq_some_iff {ttl : Nat} {latest : Option Challenge} {e : Entry Time String} :
    storedNonce ttl latest = some e ↔ ∃ c, latest = some c ∧ c.confirms = 0 ∧
      e = ⟨c.nonce, some (c.storedAt + seconds ttl)⟩ := by
  cases latest with
  | none => simp [storedNonce]
  | some c => simp [storedNonce, eq_comm]

/-- The stored nonce is that of the latest challenge until it is consumed, and no challenge is
consumed twice. -/
structure Handshake.Tracked (E : Env) (h : Handshake) : Prop where
  stored : ∀ d, h.world.redis (.challenge d) =
    storedNonce E.cfg.pairingChallengeTtlSeconds (latestIn h.issued d)
  once : ∀ e ∈ h.issued, e.2.confirms ≤ 1

namespace Handshake.Tracked

theorem confirmable_iff (ht : h.Tracked E) {credentials : String} {body : PairingConfirmRequest} :
    Confirmable E h.world credentials body ↔ CorrectConfirm E h credentials body := by
  have hget : (h.world.redis.get h.world.now (.challenge body.deviceId) : Option String) =
      some body.nonce ↔ ∃ c, h.latest body.deviceId = some c ∧ c.confirms = 0 ∧
        c.nonce = body.nonce ∧
        h.world.now < c.storedAt + seconds E.cfg.pairingChallengeTtlSeconds := by
    rw [Expiring.get_eq_some_iff]
    constructor
    · rintro ⟨e, he, hv, hd⟩
      rw [ht.stored, storedNonce_eq_some_iff] at he
      obtain ⟨c, hc, h0, rfl⟩ := he
      exact ⟨c, hc, h0, hv, hd _ rfl⟩
    · rintro ⟨c, hc, h0, hv, hd⟩
      refine ⟨⟨c.nonce, some _⟩, ?_, hv, fun _ hm => Option.some.inj hm ▸ hd⟩
      rw [ht.stored, storedNonce_eq_some_iff]
      exact ⟨c, hc, h0, rfl⟩
  constructor
  · rintro ⟨u, user, device, hauth, hm, hp, hn, hv⟩
    obtain ⟨c, hc, h0, hcn, hd⟩ := hget.mp hn
    exact ⟨u, user, device, c, hauth, hm, hp, hc, hcn, hd, h0, hv⟩
  · rintro ⟨u, user, device, c, hauth, hm, hp, hc, hcn, hd, h0, hv⟩
    exact ⟨u, user, device, hauth, hm, hp, hget.mpr ⟨c, hc, h0, hcn, hd⟩, hv⟩

theorem accepts (ht : h.Tracked E) {credentials : String} {body : PairingConfirmRequest}
    {draws : Draws} (hc : CorrectConfirm E h credentials body) :
    (serve E (.user credentials (.pairingConfirm body) draws) h.world).1.status = 200 :=
  (pairingConfirm_outcome body).status (ht.confirmable_iff.mpr hc)

/-- Nothing happened to challenges. -/
theorem quiet (ht : h.Tracked E) {response : Response} {w' : World}
    (hq : Quiet h.world response w') :
    (Handshake.mk w' (record h.issued h.world.now response)).Tracked E := by
  rw [hq.record]
  exact ⟨fun d => hq.redis ▸ ht.stored d, ht.once⟩

theorem challenge (ht : h.Tracked E) {response : Response} {w' : World}
    (ho : ChallengeOutcome E h.world response w') :
    (Handshake.mk w' (record h.issued h.world.now response)).Tracked E := by
  cases ho with
  | rejected e => exact ht.quiet (.error e)
  | issued c hnow hredis =>
    refine ⟨fun d => ?_, fun e he => ?_⟩
    · show w'.redis (.challenge d) = storedNonce _ (latestIn ((c.deviceId, _) :: h.issued) d)
      rw [hredis, latestIn_cons]
      split
      · subst d
        exact Expiring.set_self
      · rename_i hne
        rw [Expiring.set_ne fun h => hne (RedisKey.challenge.inj h).symm]
        exact ht.stored d
    · rcases List.mem_cons.mp he with rfl | he
      · exact Nat.zero_le 1
      · exact ht.once e he

theorem confirm (ht : h.Tracked E) {credentials : String} {body : PairingConfirmRequest}
    {response : Response} {w' : World}
      (ho : ConfirmOutcome E h.world credentials body response w') :
    (Handshake.mk w' (record h.issued h.world.now response)).Tracked E := by
  cases ho with
  | rejected e => exact ht.quiet (.error e)
  | accepted c hok hd hnow hredis hpaired =>
    obtain ⟨_, _, _, c₀, _, _, _, hlatest, _, _, h0, _⟩ := ht.confirmable_iff.mp hok
    have hlatest : latestIn h.issued body.deviceId = some c₀ := hlatest
    refine ⟨fun d => ?_, fun e he => ?_⟩
    · show w'.redis (.challenge d) = storedNonce _ (latestIn (countConfirm c.deviceId h.issued) d)
      rw [hredis, hd, latestIn_countConfirm]
      split
      · subst d
        rw [Expiring.delAll_of_mem (List.mem_singleton_self _), hlatest]
        rfl
      · rename_i hne
        rw [Expiring.delAll_of_notMem fun h =>
          hne (RedisKey.challenge.inj (List.mem_singleton.mp h))]
        exact ht.stored d
    · have he : e ∈ countConfirm c.deviceId h.issued := he
      rw [hd] at he
      rcases mem_countConfirm he with he | ⟨c, hc, he⟩
      · exact ht.once e he
      · cases hlatest.symm.trans hc
        omega

theorem step (ht : h.Tracked E) {e : HandshakeEvent} (he : e.inHandshake = true) :
    (e.apply E h).Tracked E := by
  cases e with
  | tick dt => exact ⟨ht.stored, ht.once⟩
  | request credentials route draws =>
    cases route with
    | pairingChallenge body => exact ht.challenge (pairingChallenge_outcome body)
    | pairingConfirm body => exact ht.confirm (pairingConfirm_outcome body)
    | provisionDeviceSecret d secret => exact ht.quiet (provision_quiet d secret)
    | shareDevice d body => exact ht.quiet (shareDevice_quiet d body)
    | removeMember d v => exact ht.quiet (removeMember_quiet d v)
    | _ => cases he

end Handshake.Tracked

theorem run_tracked {w₀ : World} (h₀ : ∀ d, w₀.redis (.challenge d) = none)
    (H : Reach (HandshakeEvent.apply E) (fun _ e => e.inHandshake = true) ⟨w₀, []⟩ h) :
    h.Tracked E := by
  refine H.invariant (P := Handshake.Tracked E) ⟨h₀, ?_⟩ fun _ e ht he => ht.step he
  intro e he
  cases he

/-- Confirms that are turned down change nothing. -/
theorem run_rejected {h' : Handshake}
    (H : Reach (HandshakeEvent.apply E) (HandshakeEvent.Rejected E) h h') :
    h' = h.atTime h'.world.now := by
  refine H.invariant (P := fun h' => h' = h.atTime h'.world.now) rfl fun h' e ih he => ?_
  cases e with
  | tick dt =>
    rw [ih]
    rfl
  | request credentials route draws =>
    cases route with
    | pairingConfirm body =>
      have ho : ConfirmOutcome E h'.world credentials body
        (serve E (.user credentials (.pairingConfirm body) draws) h'.world).1 _ :=
          pairingConfirm_outcome body
      have hstep : (HandshakeEvent.request credentials (.pairingConfirm body) draws).apply E h' =
          h' := by
        show Handshake.mk _ (Handshake.record _ _ _) = h'
        rw [(ho.rejected_quiet he).record, ho.rejected_eq he]
      rw [hstep]
      exact ih
    | _ => cases he

/-- **The handshake.** In every run of handshake requests, the next confirm is accepted iff it is
correct; it then consumes the nonce, which has been issued for no other device if no nonce is drawn
twice. A confirm that is turned down leaves the world as it is, and after any number of them a
correct one is still accepted. -/
theorem confirm_iff {w₀ : World} (h₀ : ∀ d, w₀.redis (.challenge d) = none)
    (H : Reach (HandshakeEvent.apply E) (fun _ e => e.inHandshake = true) ⟨w₀, []⟩ h)
    (credentials : String) (body : PairingConfirmRequest) (draws : Draws) :
    let r := serve E (.user credentials (.pairingConfirm body) draws) h.world
    (r.1.status = 200 ↔ CorrectConfirm E h credentials body) ∧
    (r.1.status = 200 → r.2.redis (.challenge body.deviceId) = none ∧
      (r.2.db.devices.get? body.deviceId).all (fun device => device.isPaired) = true ∧
      ((h.issued.map fun e => e.2.nonce).Nodup → ∀ e ∈ h.issued, e.2.nonce = body.nonce →
        e.1 = body.deviceId)) ∧
    (r.1.status ≠ 200 → r.2 = h.world) ∧
    (∀ e ∈ h.issued, e.2.confirms ≤ 1) ∧
    ∀ h', Reach (HandshakeEvent.apply E) (HandshakeEvent.Rejected E) h h' →
      ∀ credentials body draws, CorrectConfirm E (h.atTime h'.world.now) credentials body →
        (serve E (.user credentials (.pairingConfirm body) draws) h'.world).1.status = 200 := by
  intro r
  have ht := run_tracked h₀ H
  refine ⟨⟨fun hs => ?_, ht.accepts⟩, fun hs => ?_, fun hs => ?_, ht.once, ?_⟩
  · have ho : ConfirmOutcome E h.world credentials body r.1 r.2 := pairingConfirm_outcome body
    exact ht.confirmable_iff.mp (ho.confirmable hs)
  · have ho : ConfirmOutcome E h.world credentials body r.1 r.2 := pairingConfirm_outcome body
    obtain ⟨hredis, hpaired⟩ := ho.consumed hs
    refine ⟨hredis, hpaired, fun hnd e he hn => ?_⟩
    obtain ⟨_, _, _, c, _, _, _, hlatest, hc, _⟩ := ht.confirmable_iff.mp (ho.confirmable hs)
    have hmem := mem_of_latestIn hlatest
    have heq : e = (body.deviceId, c) :=
      List.inj_on_of_nodup_map hnd he hmem (hn.trans hc.symm)
    rw [heq]
  · have ho : ConfirmOutcome E h.world credentials body r.1 r.2 := pairingConfirm_outcome body
    exact ho.rejected_eq hs
  · intro h' H' credentials body draws hc
    have hw : h'.world = (h.atTime h'.world.now).world := congrArg Handshake.world (run_rejected H')
    have ht' : (h.atTime h'.world.now).Tracked E := ⟨ht.stored, ht.once⟩
    rw [hw]
    exact ht'.accepts hc

end

/-! ## A device that is paired -/

/-- Alice challenges device 7. -/
def challengeUid : HandshakeEvent :=
  .request (Sample.jwtEncode ⟨1, .access, 0, 0, 0⟩) (.pairingChallenge ⟨"uid", "bin"⟩)
    (Sample.draws 0)

/-- The confirm after the challenge is accepted, so it is correct. -/
theorem challengeUid_confirmed :
    CorrectConfirm Sample.env (challengeUid.apply Sample.env ⟨Sample.deviceWorld, []⟩)
      (Sample.jwtEncode ⟨1, .access, 0, 0, 0⟩) ⟨7, "nonce", ".nonce"⟩ := by
  have H : Reach (HandshakeEvent.apply Sample.env) (fun _ e => e.inHandshake = true)
      ⟨Sample.deviceWorld, []⟩ (challengeUid.apply Sample.env ⟨Sample.deviceWorld, []⟩) :=
    Reach.refl.step (e := challengeUid) rfl
  have h₀ (d : Uuid) : Sample.deviceWorld.redis (.challenge d) = none := rfl
  refine (confirm_iff h₀ H _ ⟨7, "nonce", ".nonce"⟩ (Sample.draws 0)).1.mp ?_
  decide +kernel

end Rawbin
