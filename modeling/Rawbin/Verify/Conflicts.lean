import Rawbin.Verify.Acknowledged
import Rawbin.Verify.ActiveCycle

/-!
# Two requests for the same key

`register`, `patch_me`, `pairing_challenge`, `share_device`, `create_cycle` and `put_device_config`
look for a row before they insert or change one. The constraints of the database agree with what
they look for, so a statement is rejected only when the answer has changed in the meantime; and
nothing catches the IntegrityError.
-/

namespace Rawbin

/-- The keys of the rows that a lookup found. -/
def found : {β : Type} → Query β → β → List Uuid
  | _, .userById id, user => (user.map fun _ => id).toList
  | _, .userByEmail _, user => (user.map Prod.fst).toList
  | _, .usersByEmailOrPhone .., users => users.map Prod.fst
  | _, .userIdByPhoneExcept .., id => id.toList
  | _, .deviceById id, device => (device.map fun _ => id).toList
  | _, .deviceByHardwareUid _, device => (device.map Prod.fst).toList
  | _, .member .., id => id.toList
  | _, .deviceConfig d, config => (config.map fun _ => d).toList
  | _, .activeCycles _, cycles => cycles.map Prod.fst
  | _, _, _ => []

/-- A lookup that was made finds the same rows in this database. -/
def stillFinds (db : Db) : Event Cmd → Bool
  | ⟨_, .select q, a⟩ => found q (q.eval db) = found q a
  | _ => true

/-- The keys that the request has drawn are new. -/
def drawnNew (db : Db) : Write → Bool
  | .insertUser id _ => !db.users.contains id
  | .insertRefreshToken id row => !db.refreshTokens.contains id && !db.hashTaken row.tokenHash
  | .insertDevice id _ => !db.devices.contains id
  | .insertCompostCycle id _ => !db.compostCycles.contains id
  | _ => true

/-- The requests that look before they write, with bodies that their schemas accept. -/
def contends (E : Env) : Job → Bool
  | .http (.auth (.register body) draws) =>
    body.phone ≠ some "" && (hashPassword E.crypto draws.bcryptSalt body.password).toBool
  | .http (.user _ (.patchMe _) _) => true
  | .http (.user _ (.pairingChallenge _) _) => true
  | .http (.user _ (.shareDevice _ _) _) => true
  | .http (.user _ (.createCycle _ _) _) => true
  | .http (.user _ (.putDeviceConfig _ _) _) => true
  | _ => false

/-- A statement finds what its request has looked up as it was, and its new keys are new. -/
def findsSame (w : World) (t : Thread Cmd Session Exn Job Outcome) : Bool :=
  (nextStatement t.prog).all fun wr => drawnNew w.db wr && t.log.all (stillFinds w.db)

/-- A success, or an error of the client. -/
def Response.isProper (r : Response) : Bool :=
  r.isSuccess || (400 ≤ r.status && r.status < 500)

/-- More than one active cycle was found. -/
def severalActive : Event Cmd → Bool
  | ⟨_, .select (.activeCycles _), cycles⟩ => 1 < cycles.length
  | _ => false

def asksActive : {β : Type} → Cmd β → Bool
  | _, .select (.activeCycles _) => true
  | _, _ => false

/-- Something happened that no handler expects. -/
def Unexpected (log : Log) : Prop := ∃ e ∈ log, failed e = true ∨ severalActive e = true

/-! ## One request -/

/-- The constraints let the statement pass if its request would still find what it found. -/
def Passes (log : Log) (ws : List Write) (wr : Write) : Prop :=
  ∀ db, drawnNew db wr = true → (∀ e ∈ log, stillFinds db e = true) →
    wr.violates (ws.foldl (fun db w => w.apply db) db) = none

def writesCycles : Write → Bool
  | .insertCompostCycle .. => true
  | .updateCompostCycle .. => true
  | _ => false

/-- The request executes one INSERT of a cycle, or no statement about cycles. -/
def CycleWrites (ws : List Write) : Prop :=
  (∃ id row, ws = [.insertCompostCycle id row]) ∨ ∀ w ∈ ws, writesCycles w = false

structure Looks (log : Log) (ws : List Write) (c : Cmd β) : Prop where
  plain : c.plain = true
  passes : ∀ wr, c.statement = some wr → Passes log ws wr
  active : asksActive c = true → ws = []
  cycles : CycleWrites ws
  proper : ∀ r, c.response = some r → r.isProper = true ∨ Unexpected log

/-- How a route ends. -/
def LooksEnding : Ending (Response × List Write) := fun log ws r =>
  CycleWrites ws ∧ match r with
    | .ok (response, pending) => response.isProper = true ∧
      ∀ log' sub, log.Extends log' → sub.Sublist pending → CycleWrites (ws ++ sub) ∧
        ∀ w ∈ pending, Passes log' (ws ++ sub) w
    | .error e => e.response.isProper = true ∨ Unexpected log

/-! ## The constraints -/

section
variable {log : Log} {db : Db} {ws : List Write}

theorem found_eq {q : Query β} {a : β} (h : ∀ e ∈ log, stillFinds db e = true)
    (hmem : (⟨β, .select q, a⟩ : Event Cmd) ∈ log) : found q (q.eval db) = found q a :=
  of_decide_eq_true (h _ hmem)

/-- A user that the request has loaded. -/
def UserLoaded (log : Log) (id : Uuid) : Prop :=
  ∃ user, (⟨_, .select (.userById id), some user⟩ : Event Cmd) ∈ log ∨
    ∃ email, (⟨_, .select (.userByEmail email), some (id, user)⟩ : Event Cmd) ∈ log

theorem UserLoaded.contains {id : Uuid} (hu : UserLoaded log id)
    (h : ∀ e ∈ log, stillFinds db e = true) : db.users.contains id = true := by
  obtain ⟨user, hmem | ⟨email, hmem⟩⟩ := hu
  · have hf := found_eq h hmem
    cases hget : db.users.get? id with
    | none => simp [found, Query.eval, hget] at hf
    | some user => exact Table.contains_of_get? hget
  · have hf := found_eq h hmem
    simp only [found, Query.eval] at hf
    cases hl : db.users.select fun _ u => u.email = email with
    | nil => simp [hl] at hf
    | cons e l =>
      have hid : e.1 = id := by simpa [hl] using hf
      have hget : db.users.get? e.1 = some e.2 :=
        (Table.mem_select.mp (hl ▸ List.mem_cons_self : e ∈ db.users.select _)).1
      exact hid ▸ Table.contains_of_get? hget

theorem device_found {id : Uuid} {device : Device} (h : ∀ e ∈ log, stillFinds db e = true)
    (hmem : (⟨_, .select (.deviceById id), some device⟩ : Event Cmd) ∈ log) :
    db.devices.contains id = true := by
  have hf := found_eq h hmem
  cases hget : db.devices.get? id with
  | none => simp [found, Query.eval, hget] at hf
  | some user => exact Table.contains_of_get? hget

theorem insertUser_passes {id : Uuid} {row : User} (hphone : row.phone ≠ some "")
    (hmem : (⟨_, .select (.usersByEmailOrPhone row.email (row.phone.filter (· ≠ ""))), []⟩ :
      Event Cmd) ∈ log) : Passes log [] (.insertUser id row) := by
  intro db hnew h
  have hf : (db.users.select fun _ u => u.email = row.email ||
      ((row.phone.filter (· ≠ "")).isSome && u.phone = row.phone.filter (· ≠ ""))) = [] :=
    List.map_eq_nil_iff.mp (found_eq h hmem)
  have hemail : db.emailTaken row.email = false := by
    rw [Db.emailTaken, Table.select_eq_nil_of_imp hf fun _ _ hp => by simp [of_decide_eq_true hp]]
    rfl
  have hfree : db.phoneTaken row.phone none = false := by
    cases hp : row.phone with
    | none => rfl
    | some phone =>
      have hne : phone ≠ "" := fun h => hphone (hp.trans (congrArg some h))
      have hfilter : (some phone).filter (· ≠ "") = some phone := by simp [hne]
      rw [hp, hfilter] at hf
      rw [Db.phoneTaken, Table.select_eq_nil_of_imp hf fun _ _ h => ?_]
      · rfl
      · simpa using Or.inr (by simpa using h)
  have hid : db.users.contains id = false := by simpa [drawnNew] using hnew
  exact Write.insertUser_violates_iff.mpr ⟨hid, hemail, hfree⟩

theorem insertRefreshToken_passes {id u : Uuid} {user : User} {row : RefreshToken}
    (hu : row.userId = u) : Passes log [.insertUser u user] (.insertRefreshToken id row) := by
  intro db hnew _
  have hcontains : (db.users.insert u user).contains row.userId = true := by
    rw [hu, Table.contains_insert]
    simp
  obtain ⟨hid, hhash⟩ : db.refreshTokens.contains id = false ∧
    db.hashTaken row.tokenHash = false := by
    simpa [drawnNew] using hnew
  exact Write.insertRefreshToken_violates_iff.mpr ⟨hid, hhash, hcontains⟩

theorem updateUser_passes {id : Uuid} {patch : UserPatch} (hu : UserLoaded log id)
    (hphone : ∀ phone, patch.phone = some phone →
      (⟨_, .select (.userIdByPhoneExcept phone id), none⟩ : Event Cmd) ∈ log) :
    Passes log [] (.updateUser id patch) := by
  intro db _ h
  have hfree : db.phoneTaken patch.phone (some id) = false := by
    cases hp : patch.phone with
    | none => rfl
    | some phone =>
      have hf := found_eq h (hphone phone hp)
      simp only [found, Query.eval, Option.toList_none, Option.toList_eq_nil_iff,
        Option.map_eq_none_iff, List.head?_eq_none_iff] at hf
      rw [Db.phoneTaken, Table.select_eq_nil_of_imp hf fun _ _ h => by simpa using h]
      rfl
  simp [Write.violates, hu.contains h, hfree]

theorem insertDevice_passes {id : Uuid} {row : Device}
    (hmem : (⟨_, .select (.deviceByHardwareUid row.hardwareUid), none⟩ : Event Cmd) ∈ log) :
    Passes log [] (.insertDevice id row) := by
  intro db hnew h
  have hf := found_eq h hmem
  simp only [found, Query.eval, Option.map_none, Option.toList_none, Option.toList_eq_nil_iff,
    Option.map_eq_none_iff, List.head?_eq_none_iff] at hf
  have hfree : db.hardwareUidTaken row.hardwareUid = false := by
    rw [Db.hardwareUidTaken, hf]
    rfl
  have hid : db.devices.contains id = false := by simpa [drawnNew] using hnew
  exact Write.insertDevice_violates_iff.mpr ⟨hid, hfree⟩

/-- A link to a device that the request has loaded, or has just inserted. -/
theorem insertUserDevice_passes {u d : Uuid} {row : UserDevice} (hu : UserLoaded log u)
    (hmember : (⟨_, .select (.member d u), none⟩ : Event Cmd) ∈ log)
    (hd : (ws = [] ∧ ∃ device, (⟨_, .select (.deviceById d), some device⟩ : Event Cmd) ∈ log) ∨
      ∃ device, ws = [.insertDevice d device]) : Passes log ws (.insertUserDevice u d row) := by
  intro db _ h
  have hlink : db.userDevices.contains (u, d) = false := by
    have hf := found_eq h hmember
    simp only [found, Query.eval, Option.toList_none, Option.toList_eq_nil_iff] at hf
    simpa using hf
  have huser := hu.contains h
  rcases hd with ⟨rfl, device, hmem⟩ | ⟨device, rfl⟩
  · exact Write.insertUserDevice_violates_iff.mpr ⟨hlink, huser, device_found h hmem⟩
  · have hdevice : (db.devices.insert d device).contains d = true := by
      rw [Table.contains_insert]
      simp
    exact Write.insertUserDevice_violates_iff.mpr ⟨hlink, huser, hdevice⟩

theorem updateDevice_passes {id : Uuid} {uid : String} {device : Device} {patch : DevicePatch}
    (hmem : (⟨_, .select (.deviceByHardwareUid uid), some (id, device)⟩ : Event Cmd) ∈ log)
    (hws : ws = [] ∨ ws = [.updateDevice id patch]) : Passes log ws (.updateDevice id patch) := by
  intro db _ h
  have hcontains : db.devices.contains id = true := by
    have hf := found_eq h hmem
    simp only [found, Query.eval] at hf
    cases hl : db.devices.select fun _ d => d.hardwareUid = uid with
    | nil => simp [hl] at hf
    | cons e l =>
      have hid : e.1 = id := by simpa [hl] using hf
      have hget : db.devices.get? e.1 = some e.2 :=
        (Table.mem_select.mp (hl ▸ List.mem_cons_self : e ∈ db.devices.select _)).1
      exact hid ▸ Table.contains_of_get? hget
  rcases hws with rfl | rfl
  · simp [Write.violates, hcontains]
  · simp [Write.violates, Write.apply, Table.contains_update, hcontains]

theorem deviceConfig_passes {d : Uuid} (cfg : Option DeviceConfig) (device : Device)
    (hdevice : (⟨_, .select (.deviceById d), some device⟩ : Event Cmd) ∈ log)
    (hmem : (⟨_, .select (.deviceConfig d), cfg⟩ : Event Cmd) ∈ log) {wr : Write}
    (hwr : (cfg = none ∧ ∃ row, wr = .insertDeviceConfig d row) ∨
      (cfg.isSome = true ∧ ∃ patch, wr = .updateDeviceConfig d patch)) : Passes log [] wr := by
  intro db _ h
  have hf := found_eq h hmem
  simp only [found, Query.eval] at hf
  rcases hwr with ⟨rfl, row, rfl⟩ | ⟨hs, patch, rfl⟩
  · have hnone : db.deviceConfigs.contains d = false := by simpa [Table.contains] using hf
    simp [Write.violates, hnone, device_found h hdevice]
  · obtain ⟨cfg, rfl⟩ := Option.isSome_iff_exists.mp hs
    have hsome : db.deviceConfigs.contains d = true := by
      cases hget : db.deviceConfigs.get? d with
      | none => simp [hget] at hf
      | some cfg => exact Table.contains_of_get? hget
    simp [Write.violates, hsome]

theorem insertCompostCycle_passes {id : Uuid} {row : CompostCycle} (device : Device)
    (hdevice : (⟨_, .select (.deviceById row.deviceId), some device⟩ : Event Cmd) ∈ log)
    (hmem : (⟨_, .select (.activeCycles row.deviceId), []⟩ : Event Cmd) ∈ log) :
    Passes log [] (.insertCompostCycle id row) := by
  intro db hnew h
  have hf : (Query.activeCycles row.deviceId).eval db = [] :=
    List.map_eq_nil_iff.mp (found_eq h hmem)
  have hfree : db.activeTaken row.deviceId none = false := by
    rw [Db.activeCycles_eq] at hf
    rw [Db.activeTaken, Table.select_eq_nil_of_imp hf fun _ _ h => by simpa using h]
    rfl
  have hid : db.compostCycles.contains id = false := by simpa [drawnNew] using hnew
  exact Write.insertCompostCycle_violates_iff.mpr ⟨hid, device_found h hdevice, fun _ => hfree⟩

end

/-! ## The routes -/

section
variable {E : Env} {log : Log} {ws : List Write} {user : CurrentUser} {draws : Draws}

theorem CycleWrites.nil : CycleWrites [] := .inr fun _ h => nomatch h

theorem Looks.quiet {c : Cmd β} (hc : c.plain = true) (hs : c.statement = none)
    (hr : c.response = none) (hws : CycleWrites ws) (ha : asksActive c = true → ws = []) :
    Looks log ws c where
  plain := hc
  passes wr h := by
    cases hs.symm.trans h
  active := ha
  cycles := hws
  proper r h := by
    cases hr.symm.trans h

theorem Looks.execute {wr : Write} (hpass : Passes log ws wr) (hws : CycleWrites ws) :
    Looks log ws (.execute wr) where
  plain := rfl
  passes wr' h := by
    cases h
    exact hpass
  active h := by
    cases h
  cycles := hws
  proper r h := by
    cases h

theorem Looks.respond {r : Response} (hws : CycleWrites ws)
    (hr : r.isProper = true ∨ Unexpected log) : Looks log ws (.respond r) where
  plain := rfl
  passes wr h := by
    cases h
  active h := by
    cases h
  cycles := hws
  proper r' h := by
    cases h
    exact hr

theorem Looks.reads : Assertion.Reads Looks where
  select _ _ _ := .quiet rfl rfl rfl .nil fun _ => rfl
  utcnow _ := .quiet rfl rfl rfl .nil nofun

/-- A statement that passes; if it does not, the route ends. -/
theorem looks_execute {Q : Ending γ} {wr : Write} {k : Except Exn Unit → Prog Cmd Exn γ}
    (hpass : Passes log ws wr) (hnoop : ∀ db, wr.noop db = false) (hws : CycleWrites ws)
    (herr : ∀ e, Keeps Looks Q (log ++ [⟨_, .execute wr, .error e⟩]) ws (k (.error e)))
    (hok : Keeps Looks Q (log ++ [⟨_, .execute wr, .ok ()⟩]) (ws ++ [wr]) (k (.ok ()))) :
    Keeps Looks Q log ws (.cmd (.execute wr) k) := by
  refine .execute (.execute hpass hws) herr (fun db hn => ?_) hok
  rw [hnoop] at hn
  cases hn

theorem LooksEnding.unexpected {wr : Write} (hws : CycleWrites ws) :
    LooksEnding (log ++ [⟨_, .execute wr, .error e⟩]) ws (.error e) :=
  ⟨hws, .inr ⟨_, List.mem_append_right _ (List.mem_singleton_self _), .inl rfl⟩⟩

theorem LooksEnding.refused (he : e.response.isProper = true) : LooksEnding log [] (.error e) :=
  ⟨.nil, .inl he⟩

theorem LooksEnding.done {response : Response} (hws : CycleWrites ws)
    (hr : response.isProper = true) :
    LooksEnding log ws (.ok (response, [])) := by
  refine ⟨hws, hr, fun log' sub _ hsub => ?_⟩
  rw [List.sublist_nil.mp hsub, List.append_nil]
  exact ⟨hws, fun _ h => nomatch h⟩

theorem register_looks {body : UserRegisterRequest} (hphone : body.phone ≠ some "")
    (hhash : (hashPassword E.crypto draws.bcryptSalt body.password).toBool = true) :
    Keeps Looks LooksEnding [] [] (register E body draws []) := by
  refine .select (Looks.reads.select ..) fun db => ?_
  refine raiseIf_keeps (.refused rfl) fun hempty => ?_
  have hnone : (Query.usersByEmailOrPhone body.email (body.phone.filter (· ≠ ""))).eval db =
      [] := by
    simpa using hempty
  rw [hnone]
  refine ofExcept_keeps (fun e he => ?_) fun hash _ => ?_
  · rw [he] at hhash
    cases hhash
  have hq {ws : List Write} (hws : ∀ w ∈ ws, writesCycles w = false) {log : Log} {β : Type}
      {c : Cmd β} (hc : c.plain = true) (hs : c.statement = none) (hr : c.response = none)
      (ha : asksActive c = false) : Looks log ws c :=
    .quiet hc hs hr (.inr hws) fun h => absurd h (by rw [ha]; nofun)
  refine .txnow (.quiet rfl rfl rfl .nil nofun) fun createdAt => ?_
  refine looks_execute (insertUser_passes hphone (by simp)) (fun _ => rfl) .nil
    (fun _ => .raise (.unexpected .nil)) ?_
  have hws : ∀ w ∈ [Write.insertUser draws.id ⟨body.email, body.phone, hash, body.displayName,
      none, true, createdAt⟩], writesCycles w = false := List.forall_mem_singleton.mpr rfl
  refine .utcnow (hq hws rfl rfl rfl rfl) fun _ => .utcnow (hq hws rfl rfl rfl rfl) fun _ => ?_
  refine .utcnow (hq hws rfl rfl rfl rfl) fun _ => .utcnow (hq hws rfl rfl rfl rfl) fun _ => ?_
  refine .utcnow (hq hws rfl rfl rfl rfl) fun _ => ?_
  refine looks_execute (insertRefreshToken_passes rfl) (fun _ => rfl) (.inr hws)
    (fun _ => .raise (.unexpected (.inr hws))) (.pure (.done (.inr ?_) rfl))
  exact List.forall_mem_cons.mpr ⟨rfl, List.forall_mem_singleton.mpr rfl⟩

theorem UserLoaded.mono {log' : Log} {id : Uuid} (h : UserLoaded log id) (hl : log ⊆ log') :
    UserLoaded log' id := by
  obtain ⟨user, hmem | ⟨email, hmem⟩⟩ := h
  · exact ⟨user, .inl (hl hmem)⟩
  · exact ⟨user, .inr ⟨email, hl hmem⟩⟩

theorem updateUser_looks {patch : UserPatch} {response : Response} (hu : UserLoaded log user.id)
    (hphone : ∀ phone, patch.phone = some phone →
      (⟨_, .select (.userIdByPhoneExcept phone user.id), none⟩ : Event Cmd) ∈ log)
    (hr : response.isProper = true) : Keeps Looks LooksEnding log [] ((do
      updateUser user.id patch
      Handler.flush
      pure response : Handler Response) []) := by
  refine when_keeps (fun _ => ?_) fun _ => .pure (.done .nil hr)
  refine looks_execute (updateUser_passes hu hphone) (fun _ => rfl) .nil
    (fun _ => .raise (.unexpected .nil)) (.pure (.done (.inr ?_) hr))
  exact List.forall_mem_singleton.mpr rfl

theorem patchMe_looks {body : UserPatchIn} (hu : UserLoaded log user.id) :
    Keeps Looks LooksEnding log [] (patchMe body user []) := by
  have hphone {k : Option String × List Write → Prog Cmd Exn (Response × List Write)}
      (hnone : Keeps Looks LooksEnding log [] (k (none, [])))
      (hsome : ∀ phone, Keeps Looks LooksEnding
        (log ++ [⟨_, .select (.userIdByPhoneExcept phone user.id), none⟩]) []
          (k (some phone, []))) :
      Keeps Looks LooksEnding log [] ((newPhone body user []).bind k) := by
    rw [newPhone]
    cases body.phone with
    | none => exact hnone
    | some phone =>
      refine ite_keeps (fun _ => hnone) fun _ => .select (Looks.reads.select ..) fun db => ?_
      simp only [Prog.pure_bind, Handler.bind_apply, Prog.bind_assoc]
      refine raiseIf_keeps (.refused rfl) fun hclash => ?_
      rw [Option.not_isSome_iff_eq_none.mp hclash]
      exact hsome phone
  refine hphone (updateUser_looks hu (fun phone h => ?_) rfl) fun phone => ?_
  · cases h
  refine updateUser_looks (hu.mono (List.subset_append_left ..)) (fun phone' h => ?_) rfl
  cases h
  exact List.mem_append_right _ (List.mem_singleton_self _)

/-- `add_member` on a device that the request has loaded, or has just inserted. -/
theorem addMember_looks {d u : Uuid} {k : Bool × List Write → Prog Cmd Exn (Response × List Write)}
    (hu : UserLoaded log u)
    (hd : (ws = [] ∧ ∃ device, (⟨_, .select (.deviceById d), some device⟩ : Event Cmd) ∈ log) ∨
      ∃ device, ws = [.insertDevice d device])
    (h : ∀ log' ws' b, CycleWrites ws' → Keeps Looks LooksEnding log' ws' (k (b, []))) :
    Keeps Looks LooksEnding log ws ((DeviceAccess.addMember d u []).bind k) := by
  have hws : ∀ w ∈ ws, writesCycles w = false := by
    rcases hd with ⟨rfl, _⟩ | ⟨device, rfl⟩
    · exact List.forall_mem_nil _
    · exact List.forall_mem_singleton.mpr rfl
  rw [DeviceAccess.addMember, Handler.bind_apply, Prog.bind_assoc]
  refine isMember_keeps (.quiet rfl rfl rfl (.inr hws) (absurd · Bool.false_ne_true)) fun link => ?_
  cases link with
  | some _ => exact h _ _ false (.inr hws)
  | none =>
    refine .txnow (.quiet rfl rfl rfl (.inr hws) (absurd · Bool.false_ne_true)) fun now => ?_
    refine looks_execute (insertUserDevice_passes (hu.mono ?_) ?_ ?_) (fun _ => rfl) (.inr hws)
      (fun _ => .raise (.unexpected (.inr hws))) (h _ _ true (.inr fun w hw => ?_))
    · rw [List.append_assoc]
      exact List.subset_append_left ..
    · simp
    · rcases hd with ⟨hws, device, hmem⟩ | hd
      · exact .inl ⟨hws, device, by simp [hmem]⟩
      · exact .inr hd
    · rcases List.mem_append.mp hw with hw | hw
      · exact hws w hw
      · rw [List.mem_singleton.mp hw]
        rfl

theorem shareDevice_looks {d : Uuid} {body : DeviceShareRequest} :
    Keeps Looks LooksEnding log [] (shareDevice d body user []) := by
  refine assertDeviceMember_keeps Looks.reads (fun _ => .refused rfl) fun device link => ?_
  refine .select (Looks.reads.select ..) fun db => ?_
  cases (Query.userByEmail body.email).eval db with
  | none => exact .raise (.refused rfl)
  | some found =>
    refine addMember_looks ⟨found.2, .inr ⟨body.email, by simp⟩⟩ (.inl ⟨rfl, device, by simp⟩) ?_
    intro log' ws' b hws
    exact .select (.quiet rfl rfl rfl hws nofun) fun _ => .pure (.done hws rfl)

theorem challengedDevice_looks {body : PairingChallengeRequest} (hu : UserLoaded log user.id)
    {k : Uuid × List Write → Prog Cmd Exn (Response × List Write)}
    (h : ∀ log' ws' id pending, CycleWrites ws' → (pending = [] ∨ ws' = [] ∧ ∃ uid device patch,
      (⟨_, .select (.deviceByHardwareUid uid), some (id, device)⟩ : Event Cmd) ∈ log' ∧
      pending = [.updateDevice id patch]) → Keeps Looks LooksEnding log' ws' (k (id, pending))) :
    Keeps Looks LooksEnding log [] ((challengedDevice E body user draws []).bind k) := by
  refine .select (Looks.reads.select ..) fun db => ?_
  cases (Query.deviceByHardwareUid body.hardwareUid).eval db with
  | none =>
    refine .txnow (.quiet rfl rfl rfl .nil nofun) fun createdAt => ?_
    refine looks_execute (insertDevice_passes (by simp [newDevice])) (fun _ => rfl) .nil
      (fun _ => .raise (.unexpected .nil)) ?_
    simp only [Prog.pure_bind, Handler.bind_apply, Prog.bind_assoc]
    refine addMember_looks (hu.mono ?_) (.inr ⟨_, rfl⟩) fun log' ws' _ hws =>
      h _ _ _ _ hws (.inl rfl)
    simp only [List.append_assoc]
    exact List.subset_append_left ..
  | some found =>
    obtain ⟨id, device⟩ := found
    simp only [Prog.pure_bind, Handler.bind_apply, Prog.bind_assoc]
    refine isMember_keeps (Looks.reads.select ..) fun link =>
      raiseIf_keeps (.refused rfl) fun _ => ?_
    refine when_keeps (fun _ => when_keeps (fun _ => ?_) fun _ => ?_) fun _ => ?_
    · exact h _ _ _ _ .nil (.inr ⟨rfl, body.hardwareUid, device, _, by simp, rfl⟩)
    · exact h _ _ _ _ .nil (.inl rfl)
    · exact h _ _ _ _ .nil (.inl rfl)

theorem pairingChallenge_looks {body : PairingChallengeRequest} (hu : UserLoaded log user.id) :
    Keeps Looks LooksEnding log [] (pairingChallenge E body user draws []) := by
  refine challengedDevice_looks hu fun log' ws' id pending hws hp => ?_
  refine .utcnow (.quiet rfl rfl rfl hws nofun) fun now => ?_
  refine .redis (.quiet rfl rfl rfl hws nofun) fun _ => .pure ?_
  rcases hp with rfl | ⟨rfl, uid, device, patch, hmem, rfl⟩
  · exact .done hws rfl
  · refine ⟨.nil, rfl, fun log'' sub hl hsub => ?_⟩
    have hmem' := hl.subset (List.mem_append_left _ (List.mem_append_left _ hmem))
    have hsub := List.sublist_singleton.mp hsub
    refine ⟨.inr ?_, List.forall_mem_singleton.mpr (updateDevice_passes hmem' hsub)⟩
    rcases hsub with rfl | rfl
    · exact fun _ h => nomatch h
    · exact List.forall_mem_singleton.mpr rfl

theorem createCycle_looks {d : Uuid} {body : CompostCycleCreate} :
    Keeps Looks LooksEnding log [] (createCycle d body user draws []) := by
  refine assertDeviceMember_keeps Looks.reads (fun _ => .refused rfl) fun device link => ?_
  refine .select (Looks.reads.select ..) fun db => ?_
  generalize (Query.activeCycles d).eval db = cycles
  match cycles with
  | _ :: _ :: _ =>
    refine .raise ⟨.nil, .inr ⟨_, List.mem_append_right _ (List.mem_singleton_self _), .inr ?_⟩⟩
    simp [severalActive]
  | [_] => exact .raise (.refused rfl)
  | [] =>
    refine orNow_keeps (Looks.reads.utcnow _) fun log' startedAt hlog => ?_
    refine .txnow (.quiet rfl rfl rfl .nil nofun) fun now => ?_
    refine looks_execute (insertCompostCycle_passes device ?_ ?_) (fun _ => rfl) .nil
      (fun _ => .raise (.unexpected .nil)) (.pure (.done (.inl ⟨_, _, rfl⟩) rfl))
    · exact List.mem_append_left _ (hlog.subset (by simp))
    · exact List.mem_append_left _ (hlog.subset (by simp))

theorem putDeviceConfig_looks {d : Uuid} {body : DeviceConfigIn} :
    Keeps Looks LooksEnding log [] (putDeviceConfig d body user []) := by
  refine assertDeviceMember_keeps Looks.reads (fun _ => .refused rfl) fun device link => ?_
  refine .select (Looks.reads.select ..) fun db => ?_
  have hdelete {log : Log} {ws : List Write} (hws : ∀ w ∈ ws, writesCycles w = false) :
      Keeps Looks LooksEnding log ws ((do
        Handler.redis (.delete [.alertConfig d])
        pure ⟨200, .config ⟨d, effectiveThresholds (some body), true⟩, []⟩ :
          Handler Response) []) :=
    .redis (.quiet rfl rfl rfl (.inr hws) nofun) fun _ => .pure (.done (.inr hws) rfl)
  have hflush {log : Log} {wr : Write} (hpass : Passes log [] wr) (hnoop : ∀ db, wr.noop db = false)
      (hwr : writesCycles wr = false) : Keeps Looks LooksEnding log [] ((do
        Handler.flush
        Handler.redis (.delete [.alertConfig d])
        pure ⟨200, .config ⟨d, effectiveThresholds (some body), true⟩, []⟩ : Handler Response)
          [wr]) :=
    looks_execute hpass hnoop .nil (fun _ => .raise (.unexpected .nil))
      (hdelete (List.forall_mem_singleton.mpr hwr))
  cases (Query.deviceConfig d).eval db with
  | none =>
    exact hflush (deviceConfig_passes none device (by simp) (by simp) (.inl ⟨rfl, _, rfl⟩))
      (fun _ => rfl) rfl
  | some cfg =>
    refine when_keeps (fun _ => ?_) fun _ => hdelete fun _ h => nomatch h
    exact hflush (deviceConfig_passes (some cfg) device (by simp) (by simp) (.inr ⟨rfl, _, rfl⟩))
      (fun _ => rfl) rfl

/-- What the rest of the request does with the outcome of its route. -/
theorem getDb_looks {route : Handler Response} (h : Keeps Looks LooksEnding [] [] (route [])) :
    Keeps Looks (fun _ ws _ => CycleWrites ws) [] [] (getDb route) := by
  refine getDb_keeps h (fun log ws e he => ?_) fun log ws response pending hok => ?_
  · refine .rollback (.quiet rfl rfl rfl he.1 nofun) (.respond (.respond .nil ?_) (.pure .nil))
    exact he.2.imp_right fun ⟨e', hmem, h⟩ => ⟨e', List.mem_append_left _ hmem, h⟩
  · obtain ⟨hws, hr, hpending⟩ := hok
    refine .respond (.respond hws (.inl hr)) ?_
    have hext {log' : Log} (hl : (log ++ [⟨_, .respond response, ()⟩] : Log).Extends log') :
        log.Extends log' := ((Log.Extends.refl log).snoc rfl).trans hl
    refine .bind (R := fun _ ws _ => CycleWrites ws) (finish_keeps ?_ ?_ ?_)
      (fun _ _ _ h => .pure h) fun _ _ _ h => h
    · intro log' sub w hl hsub hw
      obtain ⟨hws', hpass⟩ := hpending log' sub (hext hl) hsub
      exact .execute (hpass w hw) hws'
    · intro log' sub hl hsub
      exact .commit (.quiet rfl rfl rfl (hpending log' sub (hext hl) hsub).1 nofun) (.pure .nil)
    · intro log' sub hl hsub
      exact .rollback (.quiet rfl rfl rfl (hpending log' sub (hext hl) hsub).1 nofun) (.pure .nil)

theorem contends_looks {j : Job} (hj : contends E j = true) :
    Keeps Looks (fun _ ws _ => CycleWrites ws) [] [] (j.prog E) := by
  have hjob {r : Request} (h : Keeps Looks LooksEnding [] [] (r.handle E [])) :
      Keeps Looks (fun _ ws _ => CycleWrites ws) [] [] (Job.prog E (.http r)) :=
    (getDb_looks h).bind (fun _ _ _ h => .pure h) fun _ _ _ h => h
  have huser {credentials : String} {route : Route} {draws : Draws}
      (h : ∀ log user, UserLoaded log user.id →
        Keeps Looks LooksEnding log [] (route.handle E user draws [])) :
      Keeps Looks (fun _ ws _ => CycleWrites ws) [] []
        (Job.prog E (.http (.user credentials route draws))) := by
    refine hjob (getCurrentUser_keeps Looks.reads (fun _ => .refused rfl) ?_)
    exact fun now payload user _ _ _ => h _ ⟨payload.sub, user⟩ ⟨user, .inl (by simp)⟩
  cases j with
  | http r =>
    cases r with
    | user credentials route draws =>
      cases route with
      | patchMe => exact huser fun _ _ hu => patchMe_looks hu
      | pairingChallenge => exact huser fun _ _ hu => pairingChallenge_looks hu
      | shareDevice => exact huser fun _ _ _ => shareDevice_looks
      | createCycle => exact huser fun _ _ _ => createCycle_looks
      | putDeviceConfig => exact huser fun _ _ _ => putDeviceConfig_looks
      | _ => cases hj
    | auth route draws =>
      cases route with
      | register body =>
        obtain ⟨hphone, hhash⟩ := Bool.and_eq_true_iff.mp hj
        exact hjob (register_looks (of_decide_eq_true hphone) hhash)
      | _ => cases hj
  | _ => cases hj

end

/-! ## Runs -/

section
variable {E : Env} {w₀ : World} {c c' : Pool} {l : Label Choice Job ℕ}

/-- Nothing unexpected has happened, and nothing that is not committed yet will make it happen. -/
structure Peaceful (c : Pool) : Prop where
  active : c.state.db.OneActive
  room : ∀ t ∈ c.threads, ∀ id row, .insertCompostCycle id row ∈ t.sess.written →
    c.state.db.RoomFor row
  events : ∀ t ∈ c.threads, ∀ e ∈ t.log, failed e = false ∧ severalActive e = false

theorem run_looks (H : (backend E).Run (fun c l => guarded (contends E) findsSame c l = true)
    ⟨w₀, []⟩ c) {t : Thread Cmd Session Exn Job Outcome} (ht : t ∈ c.threads) {β : Type}
    {cm : Cmd β} {k : β → Prog Cmd Exn Outcome} (hp : t.prog = .cmd cm k) :
    Looks t.log t.sess.written cm :=
  run_keeps H (I := fun _ {_} log ws c => Looks log ws c)
    (fun _ _ hj => (contends_looks hj).mono fun _ _ _ _ => trivial) ht hp

theorem run_cycleWrites (H : (backend E).Run (fun c l => guarded (contends E) findsSame c l = true)
    ⟨w₀, []⟩ c) {t : Thread Cmd Session Exn Job Outcome} (ht : t ∈ c.threads) :
    CycleWrites t.sess.written :=
  run_holds H (I := fun _ {_} log ws c => Looks log ws c) (J := fun _ _ ws => CycleWrites ws)
    (fun _ _ hj => contends_looks hj) (fun h => h.cycles) ht

/-- A command that finds what it looked up as it was is answered as expected. -/
theorem Looks.expected {t : Session} {w : World} {cm : Cmd β} {log : Log} {x : Choice}
    (h : Looks log t.written cm) (hactive : w.db.OneActive)
    (hfinds : ∀ wr, cm.statement = some wr →
      drawnNew w.db wr = true ∧ ∀ e ∈ log, stillFinds w.db e = true) :
    failed ⟨β, cm, (cm.exec x t w).1⟩ = false ∧
      severalActive ⟨β, cm, (cm.exec x t w).1⟩ = false := by
  cases cm with
  | execute wr =>
    obtain ⟨hnew, hfind⟩ := hfinds wr rfl
    have hv : wr.violates (t.view w.db) = none := h.passes wr rfl w.db hnew hfind
    refine ⟨?_, rfl⟩
    simp only [Cmd.exec, hv]
    split <;> rfl
  | select q =>
    refine ⟨rfl, ?_⟩
    cases q with
    | activeCycles d =>
      have hview : t.view w.db = w.db := by
        rw [Session.view, h.active rfl]
        rfl
      simp only [Cmd.exec, hview, severalActive]
      rcases hactive.activeCycles d with ⟨hnil, _⟩ | ⟨e, he, _⟩
      · rw [hnil]
        rfl
      · rw [he]
        rfl
    | _ => rfl
  | attempt => cases h.plain
  | _ => exact ⟨rfl, rfl⟩

/-- Two transactions insert active cycles of different devices. -/
theorem LocksDisjoint.device_ne {t t' : Thread Cmd Session Exn Job Outcome} (h : LocksDisjoint t t')
    {id id' : Uuid} {row row' : CompostCycle} (hw : .insertCompostCycle id row ∈ t.sess.written)
    (hw' : .insertCompostCycle id' row' ∈ t'.sess.written) (ha : row.status = .active)
    (ha' : row'.status = .active) : row.deviceId ≠ row'.deviceId := by
  intro hd
  refine h _ hw _ hw' (.activeCycle row.deviceId) ?_ ?_
  · simp [Write.locks, ha, activeLock]
  · simp [Write.locks, ha', activeLock, hd]

theorem compostCycles_of_other {ws : List Write} (h : ∀ w ∈ ws, writesCycles w = false) (db : Db) :
    (ws.foldl (fun db w => w.apply db) db).compostCycles = db.compostCycles := by
  induction ws generalizing db with
  | nil => rfl
  | cons w ws ih =>
    rw [List.foldl_cons, ih fun w hw => h w (List.mem_cons_of_mem _ hw)]
    have hw := h w List.mem_cons_self
    cases w <;> first | rfl | cases hw

theorem Db.OneActive.congr {db db' : Db} (h : db.OneActive)
    (heq : db'.compostCycles = db.compostCycles) : db'.OneActive := by
  have htaken (d : Uuid) (except : Option Uuid) :
      db'.activeTaken d except = db.activeTaken d except := by
    rw [activeTaken, activeTaken, heq]
  intro id c hc ha
  rw [htaken]
  exact h id c (heq ▸ hc) ha

theorem Db.RoomFor.congr {db db' : Db} {row : CompostCycle} (h : db.RoomFor row)
    (heq : db'.compostCycles = db.compostCycles) : db'.RoomFor row := by
  intro ha
  rw [activeTaken, heq]
  exact h ha

/-- A cycle of another device leaves the room. -/
theorem Db.RoomFor.insert {db : Db} {row row' : CompostCycle} (h : db.RoomFor row) (id : Uuid)
    (hne : row.status = .active → row'.status = .active → row.deviceId ≠ row'.deviceId) :
    ((Write.insertCompostCycle id row').apply db).RoomFor row := by
  intro ha
  refine activeTaken_eq_false_iff.mpr fun id₁ c₁ h₁ hd ha₁ => ?_
  rcases Table.get?_of_insert h₁ with old | ⟨rfl, rfl⟩
  · exact activeTaken_eq_false_iff.mp (h ha) id₁ c₁ old hd ha₁
  · exact absurd hd.symm (hne ha ha₁)

/-- A commit keeps the index, and the room that the others have found. -/
theorem Peaceful.commit (ih : Peaceful c) {i : ℕ} {t : Thread Cmd Session Exn Job Outcome}
    (hi : c.threads[i]? = some t) (hws : CycleWrites t.sess.written)
    (hlocks : System.Pairs LocksDisjoint c.threads) :
    (t.sess.view c.state.db).OneActive ∧ ∀ j t', j ≠ i → c.threads[j]? = some t' →
      ∀ id row, .insertCompostCycle id row ∈ t'.sess.written →
        (t.sess.view c.state.db).RoomFor row := by
  rcases hws with ⟨id, row, hws⟩ | hws
  · have hmem : .insertCompostCycle id row ∈ t.sess.written := hws ▸ List.mem_singleton_self _
    rw [Session.view, hws]
    refine ⟨ih.active.insert (ih.room t (List.mem_of_getElem? hi) id row hmem), ?_⟩
    intro j t' hji hj id' row' hw
    refine (ih.room t' (List.mem_of_getElem? hj) id' row' hw).insert id fun ha ha' => ?_
    exact (hlocks j i t' t hji hj hi).device_ne hw hmem ha ha'
  · have heq := compostCycles_of_other hws c.state.db
    refine ⟨ih.active.congr heq, fun j t' _ hj id' row' hw => ?_⟩
    exact (ih.room t' (List.mem_of_getElem? hj) id' row' hw).congr heq

theorem Peaceful.step (ih : Peaceful c)
    (H : (backend E).Run (fun c l => guarded (contends E) findsSame c l = true) ⟨w₀, []⟩ c)
    (hok : guarded (contends E) findsSame c l = true) (hs : (backend E).Step c l c') :
    Peaceful c' := by
  refine ⟨?_, fun t' ht' id row hw => ?_, fun t' ht' e he => ?_⟩
  · rcases step_db_cases hs with hdb | ⟨i, x, t, rfl, hi, _, _, _, hp, _, hdb⟩
    · exact hdb ▸ ih.active
    · rw [hdb]
      exact (ih.commit hi (run_cycleWrites H (List.mem_of_getElem? hi)) (run_locks_disjoint H)).1
  · obtain ⟨j, hj⟩ := List.getElem?_of_mem ht'
    obtain ⟨t, hjt, hpre, ⟨hold, hdb | ⟨i, t₁, hij, hi, hdb⟩⟩ | ⟨_, hv, hdb⟩⟩ :=
      step_written hs hj hw
    · exact hdb ▸ ih.room t (List.mem_of_getElem? hjt) id row hold
    · rw [hdb]
      exact (ih.commit hi (run_cycleWrites H (List.mem_of_getElem? hi)) (run_locks_disjoint H)).2
        j t hij.symm hjt id row hold
    · rw [hdb]
      have hmem := List.mem_of_getElem? hjt
      rcases run_cycleWrites H hmem with ⟨id₁, row₁, hws⟩ | hws
      · refine ih.room t hmem id row ?_
        rcases run_cycleWrites (H.step hok hs) ht' with ⟨id₂, row₂, hws'⟩ | hws'
        · exact hpre.eq_of_length (by rw [hws, hws']; rfl) ▸ hw
        · cases hws' _ hw
      · exact Db.RoomFor.congr (Write.insertCompostCycle_violates_iff.mp hv).2.2
          (compostCycles_of_other hws _).symm
  · obtain ⟨j, hj⟩ := List.getElem?_of_mem ht'
    obtain ⟨t, hjt, hold | ⟨x, rfl, β, cm, k, hp, rfl⟩⟩ := step_log hs hj he
    · exact ih.events t (List.mem_of_getElem? hjt) e hold
    · refine (run_looks H (List.mem_of_getElem? hjt) hp).expected ih.active fun wr hwr => ?_
      have hfinds : findsSame c.state t = true := by
        simpa [guarded, hjt] using hok
      simpa [findsSame, hp, nextStatement, hwr] using hfinds

theorem run_peaceful (hactive : w₀.db.OneActive)
    (H : (backend E).Run (fun c l => guarded (contends E) findsSame c l = true) ⟨w₀, []⟩ c) :
    Peaceful c := by
  induction H with
  | refl => exact ⟨hactive, fun _ h => (nomatch h), fun _ h => (nomatch h)⟩
  | step H hok hs ih => exact ih.step H hok hs

/-- **No conflict goes unhandled.** In a run of requests that look before they write, in which every
statement finds what its request has looked up as it was, no statement is rejected, and every
response is a success or an error of the client. -/
theorem contends_proper (hactive : w₀.db.OneActive)
    (H : (backend E).Run (fun c l => guarded (contends E) findsSame c l = true) ⟨w₀, []⟩ c) :
    ∀ t ∈ c.threads, (∀ e ∈ t.log, failed e = false) ∧
      ∀ e ∈ t.log, ∀ r, e.cmd.response = some r → r.isProper = true := by
  refine fun t ht => ⟨fun e he => ((run_peaceful hactive H).events t ht e he).1, ?_⟩
  induction H generalizing t with
  | refl => cases ht
  | @step c l c' H hok hs ih =>
    intro e he r hr
    obtain ⟨j, hj⟩ := List.getElem?_of_mem ht
    obtain ⟨t, hjt, hold | ⟨x, rfl, β, cm, k, hp, rfl⟩⟩ := step_log hs hj he
    · exact ih t (List.mem_of_getElem? hjt) e hold r hr
    · have hmem := List.mem_of_getElem? hjt
      refine ((run_looks H hmem hp).proper r hr).resolve_right ?_
      rintro ⟨e', he', h⟩
      obtain ⟨hfailed, hseveral⟩ := (run_peaceful hactive H).events t hmem e' he'
      rw [hfailed, hseveral] at h
      rcases h with h | h <;> cases h

end

/-! ## A batch started twice -/

/-- Alice starts a batch of device 7. -/
def startBatch (n : Nat) : Job := Sample.request 1 (.createCycle 7 ⟨none, none, none⟩) n

/-- The second request looks for an active batch when the first has committed. -/
def batchesInTurn : List (Label Choice Job Nat) :=
  .spawn (startBatch 1) :: Sample.steps 0 10 ++ .spawn (startBatch 2) :: Sample.steps 1 7

/-- Both look before either inserts. -/
def batchesAtOnce : List (Label Choice Job Nat) :=
  .spawn (startBatch 1) :: .spawn (startBatch 2) :: Sample.steps 0 7 ++ Sample.steps 1 7 ++
    Sample.steps 0 3 ++ Sample.steps 1 3

theorem deviceWorld_oneActive : Sample.deviceWorld.db.OneActive := fun _ _ h => nomatch h

theorem batchesInTurn_proper : ∃ c,
    (backend Sample.env).followIf (guarded (contends Sample.env) findsSame)
      ⟨Sample.deviceWorld, []⟩ batchesInTurn = some c ∧ c.threads.length = 2 ∧
    ∀ t ∈ c.threads, (∀ e ∈ t.log, failed e = false) ∧
      ∀ e ∈ t.log, ∀ r, e.cmd.response = some r → r.isProper = true := by
  have h : ((backend Sample.env).followIf (guarded (contends Sample.env) findsSame)
      ⟨Sample.deviceWorld, []⟩ batchesInTurn).any (·.threads.length = 2) = true := by decide +kernel
  obtain ⟨c, hc, hn⟩ := (Option.any_eq_true _ _).mp h
  exact ⟨c, hc, by simpa using hn, contends_proper deviceWorld_oneActive (.of_followIf hc)⟩

/-- The second INSERT is rejected, and the client gets a 500. -/
theorem batchesAtOnce_not_proper : ¬ ∀ c,
    (backend Sample.env).Run (fun c l => guarded (contends Sample.env) (fun _ _ => true) c l = true)
      ⟨Sample.deviceWorld, []⟩ c →
    ∀ t ∈ c.threads, (∀ e ∈ t.log, failed e = false) ∧
      ∀ e ∈ t.log, ∀ r, e.cmd.response = some r → r.isProper = true := by
  intro hevery
  have h : ((backend Sample.env).followIf (guarded (contends Sample.env) fun _ _ => true)
      ⟨Sample.deviceWorld, []⟩ batchesAtOnce).any (·.threads[1]?.any (·.log.any
        (·.cmd.response.any fun r => r.status = 500 && !r.isProper))) = true := by decide +kernel
  obtain ⟨c, hc, h⟩ := (Option.any_eq_true _ _).mp h
  obtain ⟨t, ht, h⟩ := (Option.any_eq_true _ _).mp h
  obtain ⟨e, he, h⟩ := List.any_eq_true.mp h
  obtain ⟨r, hr, h⟩ := (Option.any_eq_true _ _).mp h
  rw [(hevery c (.of_followIf hc) t (List.mem_of_getElem? ht)).2 e he r hr] at h
  simp at h

end Rawbin
