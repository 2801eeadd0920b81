import Rawbin.Verify.Pairing
import Rawbin.Verify.Sequential

/-!
# A device that was never provisioned

A challenge creates the device with the encryption of a constant for its secret, and a confirm
does not ask where the secret comes from. Whoever computes the HMAC of the nonce under this
constant can confirm the device.
-/

namespace Rawbin

/-- The secret is the one with which `pairing_challenge` creates a device. -/
def Unprovisioned (C : Crypto) (secretEnc : String) : Prop :=
  ∃ iv, secretEnc = encryptDeviceSecret C iv "UNPROVISIONED"

/-- The response is the HMAC of the nonce under this constant, in any case of the letters. -/
def answersConstant (C : Crypto) (body : PairingConfirmRequest) : Bool :=
  match compareDigest (pyLower C (computeDeviceHmac C "UNPROVISIONED" body.nonce))
      (pyLower C body.hmacResponse) with
  | .ok equal => equal
  | .error _ => false

/-- `decrypt` inverts `encrypt`. -/
def Crypto.Decrypts (C : Crypto) : Prop := ∀ iv s, C.fernetDecrypt (C.fernetEncrypt iv s) = some s

theorem Unprovisioned.answers {C : Crypto} (hC : C.Decrypts) {body : PairingConfirmRequest}
    (h : Unprovisioned C s) (hv : verifyDeviceHmac C s body.nonce body.hmacResponse = .ok true) :
    answersConstant C body = true := by
  obtain ⟨iv, rfl⟩ := h
  simp only [verifyDeviceHmac, decryptDeviceSecret, encryptDeviceSecret, hC iv] at hv
  rw [answersConstant, hv]

/-! ## Which devices are provisioned -/

def confirmBody : Job → Option PairingConfirmRequest
  | .http (.user _ (.pairingConfirm body) _) => some body
  | _ => none

def provisions (d : Uuid) : Job → Bool
  | .http (.user _ (.provisionDeviceSecret d' _) _) => d' = d
  | _ => false

/-- The job was a provision of the device, and it has committed. -/
def hasProvisioned (d : Uuid) (j : Job) (log : Log) : Bool :=
  provisions d j && log.any (·.cmd.isCommit)

/-- The secret of the device has been provisioned in this run. -/
def provisionedIn (c : Pool) (d : Uuid) : Bool :=
  c.threads.any fun t => hasProvisioned d t.req t.log

theorem provisionedIn_iff {c : Pool} :
    provisionedIn c d = true ↔ ∃ t ∈ c.threads, hasProvisioned d t.req t.log = true :=
  List.any_eq_true

theorem hasProvisioned_mono {j : Job} {log log' : Log} (hl : log <+: log')
    (h : hasProvisioned d j log = true) : hasProvisioned d j log' = true := by
  simp only [hasProvisioned, Bool.and_eq_true, List.any_eq_true] at h ⊢
  exact ⟨h.1, h.2.imp fun _ he => ⟨hl.subset he.1, he.2⟩⟩

/-! ## What the three routes commit -/

/-- A new device has the constant for a secret; after that only a provision changes the secret,
and only a confirm that verified its response sets the flag. -/
def SecretWrite (E : Env) (j : Job) (log : Log) : Write → Prop
  | .insertDevice _ row => row.isPaired = false ∧ Unprovisioned E.crypto row.deviceSecretEnc
  | .updateDevice d patch => provisions d j = true ∨ patch.deviceSecretEnc = none ∧
    (patch.isPaired = some true → ∃ s, HmacVerified E j log d s)
  | .insertUserDevice .. => True
  | _ => False

def SecretWrites (E : Env) (j : Job) (log : Log) (ws : List Write) : Prop :=
  ∀ w ∈ ws, SecretWrite E j log w

/-- A confirm reads before it writes. -/
def SecretAssertion (E : Env) (j : Job) : Assertion := fun log ws c =>
  AtCommit (SecretWrites E j) log ws c ∧
    ((confirmBody j).isSome = true → c.isSelect = true → ws = [])

theorem SecretWrite.mono {E : Env} {log log' : Log} (h : log <+: log') (H : SecretWrite E j log w) :
    SecretWrite E j log' w := by
  cases w with
  | insertDevice | insertUserDevice => exact H
  | updateDevice d patch =>
    exact H.imp_right fun H => ⟨H.1, fun hp => (H.2 hp).imp fun _ hv => hv.mono h⟩
  | _ => exact H.elim

section
variable {E : Env} {j : Job} {user : CurrentUser} {draws : Draws} {log : Log}

theorem SecretAssertion.plain {c : Cmd β} (hp : c.plain = true) (hc : c.isCommit = false)
    (hs : (confirmBody j).isSome = true → c.isSelect = true → ws = []) :
    SecretAssertion E j log ws c := ⟨.plain hp hc, hs⟩

theorem SecretAssertion.routine : Assertion.Routine (SecretAssertion E j) where
  select _ _ _ := .plain rfl rfl fun _ _ => rfl
  execute _ _ _ := .plain rfl rfl nofun
  utcnow _ _ := .plain rfl rfl nofun
  txnow _ _ := .plain rfl rfl nofun
  respond _ _ _ := .plain rfl rfl nofun
  rollback _ _ := .plain rfl rfl nofun

/-- Pending statements that keep the secrets, at the end of a route that has executed such
statements. -/
theorem leaves_secrets {log : Log} {ws pending : List Write} (hws : SecretWrites E j log ws)
    (h : SecretWrites E j log pending) :
    Leaves (SecretWrites E j) log ws (.ok (response, pending)) := by
  refine .of_pending fun log' sub hl hsub w hw => ?_
  rcases List.mem_append.mp hw with hw | hw
  · exact (hws w hw).mono hl.isPrefix
  · exact (h w (hsub.subset hw)).mono hl.isPrefix

theorem SecretWrites.nil {log : Log} : SecretWrites E j log [] := fun _ h => nomatch h

theorem SecretWrites.single {log : Log} {w : Write} (h : SecretWrite E j log w) :
    SecretWrites E j log [w] := fun _ hw => List.mem_singleton.mp hw ▸ h

theorem pairingConfirm_secrets {body : PairingConfirmRequest}
    (hj : j = .http (.user credentials (.pairingConfirm body) draws)) :
    Keeps (SecretAssertion E j) (Leaves (SecretWrites E j)) log []
      (pairingConfirm E body user []) :=
  pairingConfirm_rule hj (fun _ _ _ hp hc => .plain hp hc fun _ _ => rfl) (fun _ => .nil)
    fun _ _ _ hv => .single (.inr ⟨rfl, fun _ => ⟨_, hv⟩⟩)

theorem provisionDeviceSecret_secrets {d : Uuid} {secret : String} (hj : provisions d j = true) :
    Keeps (SecretAssertion E j) (Leaves (SecretWrites E j)) log []
      (provisionDeviceSecret E d secret user draws []) :=
  assertDeviceMember_keeps SecretAssertion.routine.reads (fun _ => Leaves.error) fun _ _ =>
    when_keeps (fun _ => .pure (leaves_secrets .nil (.single (.inl hj))))
      fun _ => .pure (leaves_secrets .nil .nil)

theorem ChallengeWrite.secretWrite {body : PairingChallengeRequest} {w : Write}
    (h : ChallengeWrite E body draws w) : SecretWrite E j log w := by
  cases w with
  | insertDevice id row =>
    obtain ⟨_, rfl⟩ := h
    exact ⟨rfl, draws.fernetIv, rfl⟩
  | updateDevice id patch =>
    obtain ⟨_, rfl⟩ := h
    exact .inr ⟨rfl, nofun⟩
  | insertUserDevice => trivial
  | _ => exact h.elim

theorem pairingChallenge_secrets {body : PairingChallengeRequest} (hj : confirmBody j = none) :
    Keeps (SecretAssertion E j) (Leaves (SecretWrites E j)) log []
      (pairingChallenge E body user draws []) := by
  refine pairingChallenge_rule (fun _ _ _ _ hp hc => .plain hp hc fun h => ?_)
    fun _ _ h w hw => (h w hw).secretWrite
  rw [hj] at h
  cases h

theorem pairing_secrets {j : Job} (hj : isPairingJob j = true) :
    Keeps (SecretAssertion E j) (fun _ _ _ => True) [] [] (j.prog E) := by
  have hcommit {j : Job} (log : Log) (ws : List Write) (h : SecretWrites E j log ws) :
      SecretAssertion E j log ws .commit := ⟨⟨rfl, fun _ => h⟩, nofun⟩
  refine isPairingJob_cases (P := fun j =>
    Keeps (SecretAssertion E j) (fun _ _ _ => True) [] [] (j.prog E)) hj ?_ ?_ ?_
  · intro credentials body draws
    exact Request.keeps_of_routine SecretAssertion.routine hcommit
      fun _ _ _ _ _ _ => pairingChallenge_secrets rfl
  · intro credentials body draws
    exact Request.keeps_of_routine SecretAssertion.routine hcommit
      fun _ _ _ _ _ _ => pairingConfirm_secrets rfl
  · intro credentials d secret draws
    exact Request.keeps_of_routine SecretAssertion.routine hcommit
      fun _ _ _ _ _ _ => provisionDeviceSecret_secrets (decide_eq_true rfl)

end

/-! ## Runs -/

/-- The device is as `pairing_challenge` creates it, but for its name. -/
def FreshDevice (C : Crypto) (row : Device) : Prop :=
  row.isPaired = false ∧ Unprovisioned C row.deviceSecretEnc

/-- The steps in question: the three requests start, and a confirm of this device that answers
under the constant commits only after a provision. -/
def keepsConstant (E : Env) (d : Uuid) (c : Pool) : Label Choice Job ℕ → Bool
  | .spawn j => isPairingJob j
  | .step i _ => c.threads[i]?.all fun t => !atCommit t.prog || (confirmBody t.req).all fun body =>
    body.deviceId ≠ d || !answersConstant E.crypto body || provisionedIn c d
  | .env _ => true

section
variable {E : Env} {d : Uuid}

theorem mem_deviceRows {log : Log} :
    row ∈ deviceRows d log ↔ ⟨_, .select (.deviceById d), some row⟩ ∈ log := by
  rw [deviceRows, List.mem_filterMap]
  constructor
  · rintro ⟨e, he, hrow⟩
    split at hrow
    · simp only [Option.ite_none_right_eq_some, Option.some.injEq] at hrow
      obtain ⟨rfl, rfl⟩ := hrow
      exact he
    · cases hrow
  · exact fun he => ⟨_, he, if_pos rfl⟩

/-- A statement that neither provisions the device nor confirms it leaves it fresh. -/
theorem SecretWrite.apply {w : Write} (h : SecretWrite E j log w) (hj : provisions d j = false)
    (hno : ∀ s, ¬ HmacVerified E j log d s) {db : Db}
    (hdb : ∀ row, db.devices.get? d = some row → FreshDevice E.crypto row) (row : Device)
    (hd : (w.apply db).devices.get? d = some row) : FreshDevice E.crypto row := by
  cases w with
  | insertDevice id new =>
    rcases Table.get?_of_insert hd with hd | ⟨rfl, rfl⟩
    · exact hdb row hd
    · exact h
  | updateDevice id patch =>
    simp only [Write.apply, Table.get?_update] at hd
    split at hd
    · subst d
      obtain ⟨row₀, h₀, rfl⟩ := Option.map_eq_some_iff.mp hd
      obtain ⟨hsecret, hpair⟩ := h.resolve_left (by rw [hj]; exact Bool.false_ne_true)
      obtain ⟨hp₀, hs₀⟩ := hdb row₀ h₀
      constructor
      · show patch.isPaired.getD row₀.isPaired = false
        cases hp : patch.isPaired with
        | none => exact hp₀
        | some b =>
          cases b with
          | false => rfl
          | true => exact (hno _ (hpair hp).choose_spec).elim
      · show Unprovisioned E.crypto (patch.deviceSecretEnc.getD row₀.deviceSecretEnc)
        rw [hsecret]
        exact hs₀
    · exact hdb row hd
  | insertUserDevice => exact hdb row hd
  | _ => exact h.elim

theorem SecretWrites.view {ws : List Write} (h : SecretWrites E j log ws)
    (hj : provisions d j = false) (hno : ∀ s, ¬ HmacVerified E j log d s) {db : Db}
    (hdb : ∀ row, db.devices.get? d = some row → FreshDevice E.crypto row) :
    ∀ row, (ws.foldl (fun db w => w.apply db) db).devices.get? d = some row →
      FreshDevice E.crypto row := by
  induction ws generalizing db with
  | nil => exact hdb
  | cons w ws ih =>
    exact ih (fun w hw => h w (List.mem_cons_of_mem _ hw))
      ((h w List.mem_cons_self).apply hj hno hdb)

/-- What is known of a device while no provision of it has committed. -/
structure StillFresh (E : Env) (d : Uuid) (c : Pool) : Prop where
  stored : ∀ row, c.state.db.devices.get? d = some row → FreshDevice E.crypto row
  read : ∀ t ∈ c.threads, (confirmBody t.req).isSome = true →
    ∀ row ∈ deviceRows d t.log, Unprovisioned E.crypto row.deviceSecretEnc

/-- A confirm that has verified its response answers under the constant. -/
theorem StillFresh.answers {c : Pool} (hC : E.crypto.Decrypts) (h : StillFresh E d c)
    (ht : t ∈ c.threads) (hv : HmacVerified E t.req t.log d s) :
    ∃ body, confirmBody t.req = some body ∧ body.deviceId = d ∧
      answersConstant E.crypto body = true := by
  obtain ⟨_, body, _, hj, hd, ⟨row, hrow, rfl⟩, _, _, hv⟩ := hv
  have hbody : confirmBody t.req = some body := by rw [hj, confirmBody]
  refine ⟨body, hbody, hd, Unprovisioned.answers hC ?_ hv⟩
  exact h.read t ht (by rw [hbody]; rfl) row hrow

theorem provisionedIn_step {c c' : Pool} (hs : (backend E).Step c l c')
    (h : provisionedIn c d = true) : provisionedIn c' d = true :=
  provisionedIn_iff.mpr (hs.exists_thread (P := fun j log => hasProvisioned d j log = true)
    (fun _ _ _ hl => hasProvisioned_mono hl) (provisionedIn_iff.mp h))

/-- A provision that commits is on record. -/
theorem provisionedIn_of_commit {c c' : Pool} {cm : Cmd β} {k : β → Prog Cmd Exn Outcome}
    (hs : (backend E).Step c (.step i x) c') (hi : c.threads[i]? = some t) (hp : t.prog = .cmd cm k)
    (hc : cm.isCommit = true) (hj : provisions d t.req = true) : provisionedIn c' d = true := by
  refine provisionedIn_iff.mpr ⟨_, List.mem_of_getElem? (hs.getElem?_advance hi hp), ?_⟩
  have hcommitted : (t.log ++ [⟨β, cm, (cm.exec x t.sess c.state).1⟩] : Log).any
      (·.cmd.isCommit) = true :=
    List.any_eq_true.mpr ⟨_, List.mem_append_right _ (List.mem_singleton_self _), hc⟩
  exact Bool.and_eq_true_iff.mpr ⟨hj, hcommitted⟩

/-- One step: a commit leaves the device fresh unless it is a provision, and a confirm reads what
is committed. -/
theorem StillFresh.step {c c' : Pool} {w₀ : World} (hC : E.crypto.Decrypts)
    (H : (backend E).Run (fun c l => keepsConstant E d c l = true) ⟨w₀, []⟩ c)
    (h : StillFresh E d c) (hno : provisionedIn c d = false) (hok : keepsConstant E d c l = true)
    (hs : (backend E).Step c l c') : provisionedIn c' d = true ∨ StillFresh E d c' := by
  have hlocal {t : Thread Cmd Session Exn Job Outcome} (ht : t ∈ c.threads) {β : Type} {cm : Cmd β}
      {k : β → Prog Cmd Exn Outcome} (hp : t.prog = .cmd cm k) :
      SecretAssertion E t.req t.log t.sess.written cm :=
    run_keeps (I := SecretAssertion E) H (fun _ _ hj => pairing_secrets hj) ht hp
  have hread : ∀ t ∈ c'.threads, (confirmBody t.req).isSome = true →
      ∀ row ∈ deviceRows d t.log, Unprovisioned E.crypto row.deviceSecretEnc := by
    intro t' ht' hj row hrow
    rcases step_read hs ht' (mem_deviceRows.mp hrow) fun t ht hreq _ _ _ hp =>
      (hlocal ht hp).2 (hreq ▸ hj) with ⟨t, ht, hreq, he⟩ | hstored
    · exact h.read t ht (hreq ▸ hj) row (mem_deviceRows.mpr he)
    · exact (h.stored row hstored).2
  rcases step_db_cases hs with hdb | ⟨i, x, t, rfl, hi, β, cm, k, hp, hc, hdb⟩
  · exact .inr ⟨hdb ▸ h.stored, hread⟩
  · have ht := List.mem_of_getElem? hi
    cases hj : provisions d t.req with
    | true => exact .inl (provisionedIn_of_commit hs hi hp hc hj)
    | false =>
      refine .inr ⟨fun row hd => ?_, hread⟩
      rw [hdb] at hd
      refine ((hlocal ht hp).1.2 hc).view hj (fun s hv => ?_) h.stored row hd
      -- the confirm would answer under the constant, which this step excludes
      obtain ⟨body, hbody, hd, hanswers⟩ := h.answers hC ht hv
      simp [keepsConstant, hi, hp, atCommit, hc, hbody, hd, hanswers, hno] at hok

theorem run_fresh {c : Pool} {w₀ : World} (hC : E.crypto.Decrypts)
    (hnew : w₀.db.devices.get? d = none)
    (H : (backend E).Run (fun c l => keepsConstant E d c l = true) ⟨w₀, []⟩ c) :
    provisionedIn c d = true ∨ StillFresh E d c := by
  induction H with
  | refl =>
    refine .inr ⟨fun row hd => ?_, fun _ ht => absurd ht List.not_mem_nil⟩
    cases hnew.symm.trans hd
  | @step c l c' H hok hs ih =>
    cases hno : provisionedIn c d with
    | true => exact .inl (provisionedIn_step hs hno)
    | false => exact (ih.resolve_left (by rw [hno]; nofun)).step hC H hno hok hs

/-- **A paired device was provisioned.** In a run of the pairing requests from a world without the
device, in which no confirm commits that answers under the constant before a provision of the
device has committed, the device is paired only after such a provision. -/
theorem paired_provisioned {c : Pool} {w₀ : World} (hC : E.crypto.Decrypts)
    (hnew : w₀.db.devices.get? d = none)
    (H : (backend E).Run (fun c l => keepsConstant E d c l = true) ⟨w₀, []⟩ c)
    (hd : c.state.db.devices.get? d = some row) (hp : row.isPaired = true) :
    provisionedIn c d = true := by
  refine (run_fresh hC hnew H).resolve_right fun h => ?_
  cases (h.stored row hd).1.symm.trans hp

end

/-! ## What a client can compute -/

/-- What can be computed from the constant of the source and the nonces at hand. -/
inductive Computable (C : Crypto) (nonces : List String) : String → Prop where
  | constant : Computable C nonces "UNPROVISIONED"
  | nonce : n ∈ nonces → Computable C nonces n
  | hmac : Computable C nonces key → Computable C nonces msg →
    Computable C nonces (computeDeviceHmac C key msg)

/-- The nonces that challenges with these credentials have been answered. -/
def receivedNonces (credentials : String) (c : Pool) : List String :=
  c.threads.flatMap fun t => match t.req with
    | .http (.user credentials' (.pairingChallenge _) _) =>
      if credentials' = credentials then t.log.filterMap fun e => match e.cmd.response with
        | some ⟨_, .challenge challenge, _⟩ => some challenge.nonce
        | _ => none
      else []
    | _ => []

/-- The three requests, with responses that their clients can compute. -/
def FromClients (E : Env) (c : Pool) : Label Choice Job ℕ → Prop
  | .spawn (.http (.user credentials (.pairingConfirm body) _)) =>
    Computable E.crypto (receivedNonces credentials c) body.hmacResponse
  | .spawn j => isPairingJob j = true
  | _ => True

namespace Sample

theorem crypto_decrypts : crypto.Decrypts := fun _ s => by
  show some (String.ofList (("f" ++ s).toList.drop 1)) = some s
  rw [String.toList_append]
  simp

/-- Alice registers device 7, and answers the challenge under the constant. -/
def constantHandshake : List (Label Choice Job ℕ) :=
  .spawn (request 1 (.pairingChallenge ⟨"uid", "bin"⟩) 7) :: steps 0 12 ++
  .spawn (request 1 (.pairingConfirm
    ⟨7, "nonce", computeDeviceHmac crypto "UNPROVISIONED" "nonce"⟩) 0) :: steps 1 10

/-- A test for the steps of this run: the response is the HMAC of a received nonce. -/
def fromClients (c : Pool) : Label Choice Job ℕ → Bool
  | .spawn (.http (.user credentials (.pairingConfirm body) _)) =>
    body.hmacResponse = computeDeviceHmac crypto "UNPROVISIONED" body.nonce &&
      (receivedNonces credentials c).contains body.nonce
  | .spawn j => isPairingJob j
  | _ => true

theorem fromClients_sound (c : Pool) (l : Label Choice Job ℕ) (h : fromClients c l = true) :
    FromClients env c l := by
  rw [fromClients.eq_def] at h
  split at h
  · obtain ⟨hresponse, hnonce⟩ := Bool.and_eq_true_iff.mp h
    show Computable _ _ _
    rw [of_decide_eq_true hresponse]
    exact .hmac .constant (.nonce (List.contains_iff_mem.mp hnonce))
  all_goals
    rw [FromClients.eq_def]
    split <;> simp_all

end Sample

/-- The handshake with a provision pairs the device. -/
theorem handshake_provisioned : ∃ c row,
    (backend Sample.env).followIf (keepsConstant Sample.env 7) ⟨Sample.world, []⟩ handshake =
      some c ∧ c.state.db.devices.get? 7 = some row ∧ row.isPaired = true ∧
    provisionedIn c 7 = true := by
  have h : (((backend Sample.env).followIf (keepsConstant Sample.env 7)
      ⟨Sample.world, []⟩ handshake).bind fun c => c.state.db.devices.get? 7).any
      (·.isPaired) = true := by decide +kernel
  obtain ⟨row, hrow, hp⟩ := (Option.any_eq_true _ _).mp h
  obtain ⟨c, hc, hd⟩ := Option.bind_eq_some_iff.mp hrow
  exact ⟨c, row, hc, hd, hp,
    paired_provisioned Sample.crypto_decrypts rfl (.of_followIf hc) hd hp⟩

/-- A device that nobody provisioned is paired by a response that its client can compute. -/
theorem constantHandshake_unprovisioned : ¬ ∀ (E : Env) (w₀ : World) (d : Uuid) (c : Pool) row,
    E.crypto.Decrypts → w₀.db.devices.get? d = none →
    (backend E).Run (FromClients E) ⟨w₀, []⟩ c → c.state.db.devices.get? d = some row →
    row.isPaired = true → provisionedIn c d = true := by
  intro hevery
  have h : ((backend Sample.env).followIf Sample.fromClients ⟨Sample.world, []⟩
      Sample.constantHandshake).any (fun c => (c.state.db.devices.get? 7).any (·.isPaired) &&
        !provisionedIn c 7) = true := by
    decide +kernel
  obtain ⟨c, hc, h⟩ := (Option.any_eq_true _ _).mp h
  obtain ⟨hrow, hno⟩ := Bool.and_eq_true_iff.mp h
  obtain ⟨row, hd, hp⟩ := (Option.any_eq_true _ _).mp hrow
  have hrun := (System.Run.of_followIf hc).mono Sample.fromClients_sound
  rw [hevery Sample.env Sample.world 7 c row Sample.crypto_decrypts rfl hrun hd hp] at hno
  cases hno

end Rawbin
