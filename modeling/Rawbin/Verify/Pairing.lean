import Rawbin.Verify.LocalAssertions

/-!
# A paired device and the secret it was verified under

Challenge, confirm and provision run in transactions of their own. Confirm reads the secret,
waits for Redis and commits `is_paired` alone; provision commits the new secret and, only if the
flag that it read was set, the cleared flag.
-/

namespace Rawbin

/-- The rows of the device that a job has read by its id. -/
def deviceRows (d : Uuid) (log : Log) : List Device :=
  log.filterMap fun
    | ⟨_, .select (.deviceById d'), some row⟩ => if d' = d then some row else none
    | _ => none

/-- The job is a confirm that read this secret, found its nonce stored, verified its response
under the two and went on to consume the challenge. -/
def HmacVerified (E : Env) (j : Job) (log : Log) (d : Uuid) (secretEnc : String) : Prop :=
  ∃ credentials body draws, j = .http (.user credentials (.pairingConfirm body) draws) ∧
    body.deviceId = d ∧ (∃ row ∈ deviceRows d log, row.deviceSecretEnc = secretEnc) ∧
    ⟨_, .redis (.get (.challenge d)), some body.nonce⟩ ∈ log ∧
    ⟨_, .redis (.delete [.challenge d]), ()⟩ ∈ log ∧
    verifyDeviceHmac E.crypto secretEnc body.nonce body.hmacResponse = .ok true

theorem HmacVerified.mono {E : Env} {log log' : Log} (h : log <+: log')
    (H : HmacVerified E j log d s) : HmacVerified E j log' d s := by
  obtain ⟨credentials, body, draws, hj, hd, ⟨row, hrow, hs⟩, hn, hdel, hv⟩ := H
  exact ⟨credentials, body, draws, hj, hd,
    ⟨row, (h.filterMap _).subset hrow, hs⟩, h.subset hn, h.subset hdel, hv⟩

theorem deviceRows_extends {log log' : Log} (h : log.Extends log') (d : Uuid) :
    deviceRows d log' = deviceRows d log := by
  obtain ⟨es, rfl, hes⟩ := h
  have hnil : deviceRows d es = [] := by
    refine List.filterMap_eq_nil_iff.mpr fun e he => ?_
    have hsel := hes e he
    split
    · cases hsel
    · rfl
  rw [deviceRows, List.filterMap_append]
  exact (congrArg _ hnil).trans (List.append_nil _)

/-! ## What the three routes commit -/

/-- The statement neither pairs a device nor touches a secret. -/
def Harmless : Write → Prop
  | .insertDevice _ row => row.isPaired = false
  | .updateDevice _ patch => patch.isPaired = none ∧ patch.deviceSecretEnc = none
  | .insertUserDevice .. => True
  | _ => False

/-- A statement that pairs a device comes from a confirm that verified the secret it read. -/
def PairsVerified (E : Env) (j : Job) (log : Log) : Write → Prop
  | .updateDevice d patch => patch.isPaired = some true → patch.deviceSecretEnc = none ∧
    ∀ row ∈ deviceRows d log, HmacVerified E j log d row.deviceSecretEnc
  | _ => False

def PairingWrites (E : Env) (j : Job) (log : Log) (ws : List Write) : Prop :=
  (∀ w ∈ ws, Harmless w) ∨ ∃ w, ws = [w] ∧ PairsVerified E j log w

section
variable {E : Env} {j : Job} {user : CurrentUser} {draws : Draws} {log : Log}

theorem leaves_harmless {pending : List Write} (h : ∀ w ∈ pending, Harmless w) :
    Leaves (PairingWrites E j) log [] (.ok (response, pending)) :=
  .of_pending fun _ _ _ hsub => .inl fun w hw => h w (hsub.subset hw)

theorem leaves_single {w : Write} (h : ∀ log', log.Extends log' → PairsVerified E j log' w) :
    Leaves (PairingWrites E j) log [] (.ok (response, [w])) :=
  .of_pending_one (fun _ _ => .inl fun _ h => absurd h List.not_mem_nil)
    fun log' hl => .inr ⟨w, rfl, h log' hl⟩

theorem leaves_nothing : Leaves (PairingWrites E j) log [] (.ok (response, [])) :=
  leaves_harmless fun _ h => absurd h List.not_mem_nil

/-- Rule for a confirm: what it leaves pending is the flag, and that only after it has verified its
response under the secret that it read. -/
theorem pairingConfirm_rule {I : Assertion} {Ok : Log → List Write → Prop}
    {body : PairingConfirmRequest} (hj : j = .http (.user credentials (.pairingConfirm body) draws))
    (hI : ∀ log {β} (c : Cmd β), c.plain = true → c.isCommit = false → I log [] c)
    (hnone : ∀ log', Ok log' [])
    (hpair : ∀ log' device, deviceRows body.deviceId log' =
        deviceRows body.deviceId log ++ [device] →
      HmacVerified E j log' body.deviceId device.deviceSecretEnc →
      Ok log' [.updateDevice body.deviceId { isPaired := changed device.isPaired true }]) :
    Keeps I (Leaves Ok) log [] (pairingConfirm E body user []) := by
  refine assertDeviceMember_keeps ⟨fun _ _ _ => hI _ _ rfl rfl, fun _ => hI _ _ rfl rfl⟩
    (fun _ => Leaves.error) fun device link => raiseIf_keeps Leaves.error fun _ => ?_
  refine .redis (hI _ _ rfl rfl) fun nonce => ?_
  cases nonce with
  | none => exact .raise Leaves.error
  | some storedNonce =>
    refine raiseIf_keeps Leaves.error fun hn => ofExcept_keeps (fun _ _ => Leaves.error)
      fun verified hv => raiseIf_keeps Leaves.error fun htrue => ?_
    obtain rfl : verified = true := by simpa using htrue
    obtain rfl : storedNonce = body.nonce := by simpa using hn
    refine when_keeps (fun _ => ?_) fun _ => ?_
    · refine .redis (hI _ _ rfl rfl) fun _ => .utcnow (hI _ _ rfl rfl) fun now => .pure ?_
      refine .of_pending_one (fun _ _ => hnone _) fun log' hl => ?_
      have hrows : deviceRows body.deviceId log' = deviceRows body.deviceId log ++ [device] := by
        rw [deviceRows_extends hl]
        simp [deviceRows]
      refine hpair log' device hrows (.mono hl.isPrefix ?_)
      refine ⟨_, body, draws, hj, rfl, ⟨device, ?_, rfl⟩, ?_, ?_, hv⟩
      · simp [deviceRows]
      · simp
      · simp
    · exact .redis (hI _ _ rfl rfl) fun _ => .utcnow (hI _ _ rfl rfl) fun _ =>
        .pure (.of_executed fun _ _ => hnone _)

theorem pairingConfirm_keeps {body : PairingConfirmRequest}
    (hj : j = .http (.user credentials (.pairingConfirm body) draws))
    (hlog : deviceRows body.deviceId log = []) :
    Keeps (AtCommit (PairingWrites E j)) (Leaves (PairingWrites E j)) log []
      (pairingConfirm E body user []) := by
  refine pairingConfirm_rule hj (fun _ _ _ => .plain)
    (fun _ => .inl fun _ h => absurd h List.not_mem_nil) fun log' device hrows hv => ?_
  refine .inr ⟨_, rfl, fun _ => ⟨rfl, fun row hrow => ?_⟩⟩
  rw [hrows, hlog] at hrow
  exact List.mem_singleton.mp hrow ▸ hv

theorem provisionDeviceSecret_keeps {d : Uuid} {secret : String} :
    Keeps (AtCommit (PairingWrites E j)) (Leaves (PairingWrites E j)) log []
      (provisionDeviceSecret E d secret user draws []) := by
  refine assertDeviceMember_keeps AtCommit.routine.reads (fun _ => Leaves.error)
    fun device link => when_keeps (fun _ => .pure ?_) fun _ => .pure leaves_nothing
  refine leaves_single fun _ _ h => ?_
  simp only [changed] at h
  split at h <;> cases h

/-- A statement of a challenge: the new device with the secret `UNPROVISIONED`, its first member, or
another name for the device. -/
def ChallengeWrite (E : Env) (body : PairingChallengeRequest) (draws : Draws) : Write → Prop
  | .insertDevice _ row => ∃ createdAt, row = newDevice body.hardwareUid body.displayName
      (encryptDeviceSecret E.crypto draws.fernetIv "UNPROVISIONED") createdAt
  | .updateDevice _ patch => ∃ name, patch = { displayName := name }
  | .insertUserDevice .. => True
  | _ => False

/-- Rule for a challenge: whatever part of its statements takes effect, they are of this kind. -/
theorem pairingChallenge_rule {I : Assertion} {Ok : Log → List Write → Prop}
    {body : PairingChallengeRequest}
    (hI : ∀ log ws {β} (c : Cmd β), c.plain = true → c.isCommit = false → I log ws c)
    (hok : ∀ log' ws, (∀ w ∈ ws, ChallengeWrite E body draws w) → Ok log' ws) :
    Keeps I (Leaves Ok) log [] (pairingChallenge E body user draws []) := by
  have hrest (log : Log) (ws : List Write) (id : Uuid) (pending : List Write)
      (h : ∀ w ∈ ws ++ pending, ChallengeWrite E body draws w) :
      Keeps I (Leaves Ok) log ws ((do
        let now ← Handler.utcnow
        let expiresAt := now + seconds E.cfg.pairingChallengeTtlSeconds
        Handler.redis (.setex (.challenge id) E.cfg.pairingChallengeTtlSeconds draws.tokenHex)
        pure ⟨201, .challenge ⟨id, draws.tokenHex, expiresAt⟩, []⟩ : Handler Response) pending) :=
    .utcnow (hI _ _ _ rfl rfl) fun _ => .redis (hI _ _ _ rfl rfl) fun _ =>
      .pure (.of_pending fun log' sub _ hsub => hok _ _ fun w hw =>
        h w ((hsub.append_left ws).subset hw))
  rw [pairingChallenge, Handler.bind_apply]
  refine .select (hI _ _ _ rfl rfl) fun db => ?_
  cases (Query.deviceByHardwareUid body.hardwareUid).eval db with
  | none =>
    refine .txnow (hI _ _ _ rfl rfl) fun createdAt => ?_
    refine .execute (hI _ _ _ rfl rfl) (fun e => .raise Leaves.error) (fun _ h => nomatch h) ?_
    simp only [Prog.pure_bind, Handler.bind_apply, Prog.bind_assoc]
    refine addMember_keeps (fun _ _ c => hI _ _ c) (fun _ _ => Leaves.error)
      (fun _ _ => hrest _ _ _ _ ?_) fun _ _ => hrest _ _ _ _ ?_
    all_goals simp [ChallengeWrite]
  | some found =>
    obtain ⟨id, device⟩ := found
    simp only [Prog.pure_bind, Handler.bind_apply, Prog.bind_assoc]
    refine isMember_keeps (hI _ _ _ rfl rfl) fun link => raiseIf_keeps Leaves.error fun _ => ?_
    refine when_keeps (fun _ => when_keeps (fun _ => hrest _ _ _ _ ?_) fun _ => hrest _ _ _ _ ?_)
      fun _ => hrest _ _ _ _ ?_
    all_goals simp [ChallengeWrite]

theorem ChallengeWrite.harmless {body : PairingChallengeRequest} {w : Write}
    (h : ChallengeWrite E body draws w) : Harmless w := by
  cases w with
  | insertDevice id row =>
    obtain ⟨_, rfl⟩ := h
    rfl
  | updateDevice id patch =>
    obtain ⟨_, rfl⟩ := h
    exact ⟨rfl, rfl⟩
  | insertUserDevice => trivial
  | _ => exact h.elim

theorem pairingChallenge_keeps {body : PairingChallengeRequest} :
    Keeps (AtCommit (PairingWrites E j)) (Leaves (PairingWrites E j)) log []
      (pairingChallenge E body user draws []) :=
  pairingChallenge_rule (fun _ _ _ _ => .plain) fun _ _ h => .inl fun w hw => (h w hw).harmless

end

/-! ## Runs -/

section
variable {E : Env}

/-- The requests of the pairing handshake. -/
def isPairingJob : Job → Bool
  | .http (.user _ (.pairingChallenge _) _) => true
  | .http (.user _ (.pairingConfirm _) _) => true
  | .http (.user _ (.provisionDeviceSecret _ _) _) => true
  | _ => false

/-- The commit of this statement does not separate the flag from its secret: the secret that a
confirm read is still the stored one, and a provision that leaves the flag out finds it false. -/
def keepsSecret (db : Db) (log : Log) : Write → Bool
  | .updateDevice d patch =>
    (db.devices.get? d).all fun row =>
      (patch.isPaired ≠ some true ||
        (deviceRows d log).any (·.deviceSecretEnc = row.deviceSecretEnc)) &&
      (patch.deviceSecretEnc = none || patch.isPaired = some false || !row.isPaired)
  | _ => true

def commitsKeepSecret (w : World) (t : Thread Cmd Session Exn Job Outcome) : Bool :=
  !atCommit t.prog || t.sess.written.all (keepsSecret w.db t.log)

theorem isPairingJob_cases {P : Job → Prop} {j : Job} (hj : isPairingJob j = true)
    (hchallenge : ∀ credentials body draws,
      P (.http (.user credentials (.pairingChallenge body) draws)))
    (hconfirm : ∀ credentials body draws,
      P (.http (.user credentials (.pairingConfirm body) draws)))
    (hprovision : ∀ credentials d secret draws,
      P (.http (.user credentials (.provisionDeviceSecret d secret) draws))) : P j := by
  cases j with
  | http r =>
    cases r with
    | user credentials route draws =>
      cases route with
      | pairingChallenge body => exact hchallenge credentials body draws
      | pairingConfirm body => exact hconfirm credentials body draws
      | provisionDeviceSecret d secret => exact hprovision credentials d secret draws
      | _ => cases hj
    | auth => cases hj
  | _ => cases hj

theorem pairing_keeps {j : Job} (hj : isPairingJob j = true) :
    Keeps (AtCommit (PairingWrites E j)) (fun _ _ _ => True) [] [] (j.prog E) := by
  refine isPairingJob_cases (P := fun j =>
    Keeps (AtCommit (PairingWrites E j)) (fun _ _ _ => True) [] [] (j.prog E)) hj ?_ ?_ ?_
  · intro credentials body draws
    exact Request.keeps_of_route fun _ _ _ _ _ _ => pairingChallenge_keeps
  · intro credentials body draws
    exact Request.keeps_of_route fun _ _ _ _ _ _ => pairingConfirm_keeps rfl rfl
  · intro credentials d secret draws
    exact Request.keeps_of_route fun _ _ _ _ _ _ => provisionDeviceSecret_keeps

/-- A harmless statement leaves every paired device with the secret that it had. -/
theorem Harmless.apply {w : Write} (h : Harmless w) {db : Db}
    (hd : (w.apply db).devices.get? d = some row) (hp : row.isPaired = true) :
    ∃ row₀, db.devices.get? d = some row₀ ∧ row₀.isPaired = true ∧
      row₀.deviceSecretEnc = row.deviceSecretEnc := by
  cases w with
  | insertDevice id new =>
    rcases Table.get?_of_insert hd with hd | ⟨rfl, rfl⟩
    · exact ⟨row, hd, hp, rfl⟩
    · exact absurd hp (by rw [h]; nofun)
  | updateDevice id patch =>
    simp only [Write.apply, Table.get?_update] at hd
    split at hd
    · subst d
      obtain ⟨row₀, h₀, rfl⟩ := Option.map_eq_some_iff.mp hd
      refine ⟨row₀, h₀, ?_, ?_⟩
      · simpa [DevicePatch.apply, h.1] using hp
      · simp [DevicePatch.apply, h.2]
    · exact ⟨row, hd, hp, rfl⟩
  | insertUserDevice => exact ⟨row, hd, hp, rfl⟩
  | _ => exact h.elim

theorem harmless_view {ws : List Write} (h : ∀ w ∈ ws, Harmless w) {db : Db}
    (hd : (ws.foldl (fun db w => w.apply db) db).devices.get? d = some row)
    (hp : row.isPaired = true) :
    ∃ row₀, db.devices.get? d = some row₀ ∧ row₀.isPaired = true ∧
      row₀.deviceSecretEnc = row.deviceSecretEnc := by
  induction ws generalizing db with
  | nil => exact ⟨row, hd, hp, rfl⟩
  | cons w ws ih =>
    obtain ⟨row₁, h₁, hp₁, hs₁⟩ := ih (fun w hw => h w (List.mem_cons_of_mem _ hw)) hd
    obtain ⟨row₀, h₀, hp₀, hs₀⟩ := (h w List.mem_cons_self).apply h₁ hp₁
    exact ⟨row₀, h₀, hp₀, hs₀.trans hs₁⟩

/-- What a commit of the three routes does to a device that is paired afterwards. -/
theorem PairingWrites.view {j : Job} {log : Log} {ws : List Write} (h : PairingWrites E j log ws)
    {db : Db} (hg : ws.all (keepsSecret db log) = true)
    (hd : (ws.foldl (fun db w => w.apply db) db).devices.get? d = some row)
    (hp : row.isPaired = true) :
    HmacVerified E j log d row.deviceSecretEnc ∨
      ∃ row₀, db.devices.get? d = some row₀ ∧ row₀.isPaired = true ∧
        row₀.deviceSecretEnc = row.deviceSecretEnc := by
  rcases h with h | ⟨w, rfl, h⟩
  · exact .inr (harmless_view h hd hp)
  cases w with
  | updateDevice id patch =>
    simp only [List.foldl_cons, List.foldl_nil, Write.apply, Table.get?_update] at hd
    split at hd
    · subst d
      obtain ⟨row₀, h₀, rfl⟩ := Option.map_eq_some_iff.mp hd
      simp only [List.all_cons, List.all_nil, keepsSecret, h₀, Option.all_some] at hg
      obtain ⟨hc, hv⟩ : (patch.isPaired = some true →
          ∃ r ∈ deviceRows id log, r.deviceSecretEnc = row₀.deviceSecretEnc) ∧
          (patch.deviceSecretEnc = none ∨ patch.isPaired = some false ∨ row₀.isPaired = false) := by
        simp only [Bool.and_true, Bool.and_eq_true, Bool.or_eq_true, decide_eq_true_eq,
          List.any_eq_true, Bool.not_eq_true', or_assoc] at hg
        refine ⟨fun hpair => hg.1.resolve_left (not_not_intro hpair), hg.2⟩
      by_cases hpair : patch.isPaired = some true
      · obtain ⟨hnone, hver⟩ := h hpair
        obtain ⟨r, hr, hs⟩ := hc hpair
        refine .inl ?_
        simp only [DevicePatch.apply, hnone, Option.getD_none]
        exact hs ▸ hver r hr
      · have hpaired : patch.isPaired = none ∧ row₀.isPaired = true := by
          simp only [DevicePatch.apply] at hp
          cases hq : patch.isPaired with
          | none => simpa [hq] using hp
          | some b => cases b <;> simp_all
        have hsecret : patch.deviceSecretEnc = none := by simpa [hpaired] using hv
        exact .inr ⟨row₀, h₀, hpaired.2, by simp [DevicePatch.apply, hsecret]⟩
    · exact .inr ⟨row, hd, hp, rfl⟩
  | _ => exact h.elim

/-- **A paired device was verified under its secret.** In a run of the pairing handshake whose
commits find the secret that a confirm read and the flag that a provision left out, every paired
device has been verified by some confirm under exactly the secret that is stored. -/
theorem paired_hmac_verified {w₀ : World}
    (h₀ : ∀ d row, w₀.db.devices.get? d = some row → row.isPaired = false)
    (H : (backend E).Run (fun c l => guarded isPairingJob commitsKeepSecret c l = true) ⟨w₀, []⟩ c)
    (hd : c.state.db.devices.get? d = some row) (hp : row.isPaired = true) :
    ∃ t ∈ c.threads, HmacVerified E t.req t.log d row.deviceSecretEnc := by
  induction H generalizing row with
  | refl => exact absurd hp (by rw [h₀ d row hd]; nofun)
  | @step c l c' H hok hs ih =>
    have hkeep := fun h => hs.exists_thread (P := fun j log => HmacVerified E j log d
      row.deviceSecretEnc) (fun _ _ _ hl hv => hv.mono hl) h
    rcases step_db_cases hs with hdb | ⟨i, x, t, rfl, hi, β, cm, k, hprog, hc, hdb⟩
    · exact hkeep (ih (hdb ▸ hd) hp)
    · rw [hdb] at hd
      have ht := List.mem_of_getElem? hi
      have hw := (run_keeps H (I := fun j => AtCommit (PairingWrites E j))
        (fun _ _ hj => pairing_keeps hj) ht hprog).2 hc
      have hg : t.sess.written.all (keepsSecret c.state.db t.log) = true := by
        simpa [guarded, hi, commitsKeepSecret, hprog, atCommit, hc] using hok
      rcases hw.view hg hd hp with hv | ⟨row₀, hd₀, hp₀, hs₀⟩
      · exact hkeep ⟨t, ht, hv⟩
      · exact hkeep (hs₀ ▸ ih hd₀ hp₀)

end

/-! ## A handshake, and a race -/

/-- Alice registers device 7 and provisions the secret A. -/
def provisioned : List (Label Choice Job Nat) :=
  .spawn (Sample.request 1 (.pairingChallenge ⟨"uid", "bin"⟩) 7) :: Sample.steps 0 12 ++
  .spawn (Sample.request 1 (.provisionDeviceSecret 7 "A") 0) :: Sample.steps 1 7

/-- The handshake: Alice confirms with a response under A. -/
def handshake : List (Label Choice Job Nat) :=
  provisioned ++
  .spawn (Sample.request 1 (.pairingConfirm ⟨7, "nonce", "a.nonce"⟩) 0) :: Sample.steps 2 10

/-- The race: before the confirm commits, Alice provisions the secret B. The provision reads a
cleared flag, so its UPDATE names the secret only. -/
def provisionRace : List (Label Choice Job Nat) :=
  provisioned ++
  .spawn (Sample.request 1 (.pairingConfirm ⟨7, "nonce", "a.nonce"⟩) 0) :: Sample.steps 2 8 ++
  .spawn (Sample.request 1 (.provisionDeviceSecret 7 "B") 0) :: Sample.steps 3 7 ++
  Sample.steps 2 2

theorem world_unpaired (d : Uuid) (row : Device)
    (h : Sample.world.db.devices.get? d = some row) : row.isPaired = false := by cases h

theorem handshake_hmac_verified : ∃ c row,
    (backend Sample.env).followIf (guarded isPairingJob commitsKeepSecret) ⟨Sample.world, []⟩
      handshake = some c ∧ c.state.db.devices.get? 7 = some row ∧ row.isPaired = true ∧
    ∃ t ∈ c.threads, HmacVerified Sample.env t.req t.log 7 row.deviceSecretEnc := by
  have h : (((backend Sample.env).followIf (guarded isPairingJob commitsKeepSecret)
      ⟨Sample.world, []⟩ handshake).bind fun c => c.state.db.devices.get? 7).any
      (·.isPaired) = true := by decide +kernel
  obtain ⟨row, hrow, hp⟩ := (Option.any_eq_true _ _).mp h
  obtain ⟨c, hc, hd⟩ := Option.bind_eq_some_iff.mp hrow
  exact ⟨c, row, hc, hd, hp, paired_hmac_verified world_unpaired (.of_followIf hc) hd hp⟩

theorem provision_race_unverified : ¬ ∀ c d row,
    (backend Sample.env).Run (fun c l => guarded isPairingJob (fun _ _ => true) c l = true)
      ⟨Sample.world, []⟩ c → c.state.db.devices.get? d = some row → row.isPaired = true →
    ∃ t ∈ c.threads, HmacVerified Sample.env t.req t.log d row.deviceSecretEnc := by
  intro hevery
  have h : ((backend Sample.env).followIf (guarded isPairingJob fun _ _ => true)
      ⟨Sample.world, []⟩ provisionRace).any (fun c => (c.state.db.devices.get? 7).any fun row =>
        row.isPaired && c.threads.all fun t =>
          (deviceRows 7 t.log).all (·.deviceSecretEnc ≠ row.deviceSecretEnc)) = true := by
    decide +kernel
  obtain ⟨c, hc, h⟩ := (Option.any_eq_true _ _).mp h
  obtain ⟨row, hd, h⟩ := (Option.any_eq_true _ _).mp h
  obtain ⟨hp, hall⟩ := Bool.and_eq_true_iff.mp h
  obtain ⟨t, ht, _, _, _, _, _, ⟨row', hrow, hs⟩, _⟩ := hevery c 7 row (.of_followIf hc) hd hp
  have := List.all_eq_true.mp (List.all_eq_true.mp hall t ht) row' hrow
  simp [hs] at this

end Rawbin
