import Rawbin.Verify.Sequential

/-!
# Routes about a device

The routes that name a device or a cycle, for a user who is no member of some other device `d`.
`Confines` collects what a property of programs must be closed under so that all of these routes
have it: they check the membership before anything else, so what follows is about a device that is
not `d`.
-/

namespace Rawbin

/-! ## Untouched devices -/

/-- Everything that belongs to device `d` is as it was, and every user but `u`. -/
structure Untouched (d u : Uuid) (db db' : Db) : Prop where
  device : db'.devices.get? d = db.devices.get? d
  members : db'.membersOf d = db.membersOf d
  config : db'.deviceConfigs.get? d = db.deviceConfigs.get? d
  cycles : db'.cyclesOf d = db.cyclesOf d
  wasteLogs : db'.wasteLogsOf d = db.wasteLogsOf d
  readings : db'.readingsOf d = db.readingsOf d
  alerts : db'.alertsOf d = db.alertsOf d
  users : ∀ v ≠ u, db'.users.get? v = db.users.get? v

/-- A query with the same answer whatever belongs to device `d`. -/
def Query.Spares (d : Uuid) : {β : Type} → Query β → Prop
  | _, .userById _ => True
  | _, .userByEmail _ => True
  | _, .userByPhone _ => True
  | _, .usersByEmailOrPhone .. => True
  | _, .userIdByPhoneExcept .. => True
  | _, .refreshTokenByHash _ => True
  | _, .deviceById id => id ≠ d
  | _, .deviceByHardwareUid _ => False
  | _, .devicesOfUser _ => False
  | _, .member id _ => id ≠ d
  | _, .userDevice id _ => id ≠ d
  | _, .memberCount id => id ≠ d
  | _, .members id => id ≠ d
  | _, .deviceConfig id => id ≠ d
  | _, .activeCycles id => id ≠ d
  | _, .cycles id _ => id ≠ d
  | _, .cycleById _ => False
  | _, .cycleOfDevice _ id => id ≠ d
  | _, .wasteLogCount id _ => id ≠ d
  | _, .wasteLogs id .. => id ≠ d
  | _, .alertCount id .. => id ≠ d
  | _, .alertEvents id .. => id ≠ d
  | _, .latestReading id => id ≠ d
  | _, .readings id .. => id ≠ d
  | _, .hourly id .. => id ≠ d
  | _, .daily id .. => id ≠ d

/-- The cycle, if it exists, is not one of device `d`. -/
def Db.CycleApart (db : Db) (d id : Uuid) : Prop :=
  ∀ c, db.compostCycles.get? id = some c → c.deviceId ≠ d

/-- The entry, if it exists, is not one of device `d`. -/
def Db.LogApart (db : Db) (d id : Uuid) : Prop := ∀ l, db.wasteLogs.get? id = some l →
    l.deviceId ≠ d

/-- The statement is about another device, or about user `u`. The cycle of an UPDATE is the one
that `db` has under its key. -/
def Write.Spares (d u : Uuid) (db : Db) : Write → Prop
  | .insertUser .. => False
  | .updateUser id _ => id = u
  | .insertRefreshToken .. => True
  | .updateRefreshToken .. => True
  | .insertDevice id _ => id ≠ d
  | .updateDevice id _ => id ≠ d
  | .insertUserDevice _ id _ => id ≠ d
  | .deleteUserDevice _ id => id ≠ d
  | .insertSensorReadings id _ => id ≠ d
  | .insertDeviceConfig id _ => id ≠ d
  | .updateDeviceConfig id _ => id ≠ d
  | .insertCompostCycle _ row => row.deviceId ≠ d
  | .updateCompostCycle id id' .. => db.CycleApart d id ∧ id' ≠ d
  | .insertWasteLog _ row => row.deviceId ≠ d ∧ ∀ c ∈ row.compostCycleId, db.CycleApart d c

namespace Untouched

variable {d u : Uuid} {db₀ db db' : Db}

theorem refl (db : Db) : Untouched d u db db :=
  ⟨rfl, rfl, rfl, rfl, rfl, rfl, rfl, fun _ _ => rfl⟩

/-- The cycles of the device are its cycles of before. -/
theorem cycle_iff {id : Uuid} {c : CompostCycle} (h : Untouched d u db₀ db) (hd : c.deviceId = d) :
    db.compostCycles.get? id = some c ↔ db₀.compostCycles.get? id = some c := by
  have hmem (db : Db) : (id, c) ∈ db.cyclesOf d ↔ db.compostCycles.get? id = some c :=
    Table.mem_select.trans (and_iff_left (decide_eq_true hd))
  rw [← hmem, ← hmem, h.cycles]

/-- A row that is under the key of a cycle now says whose cycle it was before. -/
theorem cycleApart {id : Uuid} {c : CompostCycle} (h : Untouched d u db₀ db)
    (hc : db.compostCycles.get? id = some c) (hd : c.deviceId ≠ d) : db₀.CycleApart d id := by
  intro c₀ hc₀ hd₀
  cases hc.symm.trans ((h.cycle_iff hd₀).mpr hc₀)
  exact hd hd₀

/-- A membership in the device was one before. -/
theorem member_of (h : Untouched d u db₀ db) (hm : db.userDevices.contains (v, d) = true) :
    db₀.userDevices.contains (v, d) = true := by
  obtain ⟨row, hrow⟩ := Table.contains_iff.mp hm
  have hm : ((v, d), row) ∈ db.membersOf d := Table.mem_select.mpr ⟨hrow, decide_eq_true rfl⟩
  rw [h.members] at hm
  exact Table.contains_of_get? (Table.mem_select.mp hm).1

theorem apply (h : Untouched d u db₀ db) {w : Write} (hw : w.Spares d u db₀) :
    Untouched d u db₀ (w.apply db) := by
  cases w with
  | insertUser => exact hw.elim
  | updateUser id patch =>
    cases hw
    exact { h with users := fun v hv => (Table.get?_update_ne hv _).trans (h.users v hv) }
  | insertRefreshToken | updateRefreshToken => exact { h with }
  | insertDevice id row =>
    exact { h with device := (Table.get?_insert_ne (Ne.symm hw) row).trans h.device }
  | updateDevice id patch =>
    exact { h with device := (Table.get?_update_ne (Ne.symm hw) _).trans h.device }
  | insertUserDevice v id row =>
    refine { h with members := Eq.trans ?_ h.members }
    exact Table.select_insert (decide_eq_false hw)
  | deleteUserDevice v id =>
    refine { h with members := Eq.trans ?_ h.members }
    exact Table.select_delete fun _ => decide_eq_false hw
  | insertSensorReadings id rows =>
    refine { h with readings := Eq.trans (Table.select_insertAll fun e he => ?_) h.readings }
    obtain ⟨r, _, rfl⟩ := List.mem_map.mp he
    exact decide_eq_false hw
  | insertDeviceConfig id row =>
    exact { h with config := (Table.get?_insert_ne (Ne.symm hw) row).trans h.config }
  | updateDeviceConfig id patch =>
    exact { h with config := (Table.get?_update_ne (Ne.symm hw) _).trans h.config }
  | insertCompostCycle id row =>
    refine { h with cycles := Eq.trans ?_ h.cycles }
    exact Table.select_insert (decide_eq_false hw)
  | updateCompostCycle id id' patch now =>
    refine { h with cycles := Eq.trans (Table.select_update fun c hc => ?_) h.cycles }
    have hne : c.deviceId ≠ d := fun hd => hw.1 c ((h.cycle_iff hd).mp hc) hd
    exact ⟨decide_eq_false hne, decide_eq_false hne⟩
  | insertWasteLog id row =>
    refine { h with wasteLogs := Eq.trans ?_ h.wasteLogs }
    exact Table.select_insert (decide_eq_false hw.1)

theorem flushed (h : Untouched d u db₀ db) {pending : List Write}
    (hp : ∀ w ∈ pending, w.Spares d u db₀) (hf : Write.flushed pending db = .ok db') :
    Untouched d u db₀ db' := by
  induction pending generalizing db with
  | nil => cases hf; exact h
  | cons w ws ih =>
    rw [Write.flushed] at hf
    split at hf
    · cases hf
    · exact ih (h.apply (hp w List.mem_cons_self)) (fun w hw => hp w (List.mem_cons_of_mem _ hw)) hf

end Untouched

/-! ## The rules -/

/-- The key of a new row is the one that the request has drawn. No device is created. -/
def Write.Drawn (draws : Draws) : Write → Prop
  | .insertDevice .. => False
  | .insertCompostCycle id _ => id = draws.id
  | .insertWasteLog id _ => id = draws.id
  | _ => True

/-- What a property `L` of parts of routes is closed under, for a user `u` and a device `d` of which
`u` is no member. The route starts in the database `db`; `Loads` are the cycles that it may look
up by their id. -/
structure Confines (db : Db) (d u : Uuid) (draws : Draws) (Loads : Uuid → Prop)
    (L : Prog Cmd Exn (Response × List Write) → Prop) : Prop where
  pure {response : Response} {pend : List Write} :
    (∀ w ∈ pend, w.Spares d u db) → L (.pure (response, pend))
  raise (e : Exn) : L (.raise e)
  select {β : Type} {q : Query β} {k : β → Prog Cmd Exn (Response × List Write)} :
    q.Spares d → (∀ db', Untouched d u db db' → L (k (q.eval db'))) → L (.cmd (.select q) k)
  utcnow {k : Time → Prog Cmd Exn (Response × List Write)} :
    (∀ now, L (k now)) → L (.cmd .utcnow k)
  txnow {k : Time → Prog Cmd Exn (Response × List Write)} : (∀ now, L (k now)) → L (.cmd .txnow k)
  redis {β : Type} {c : RedisCmd β} {k : β → Prog Cmd Exn (Response × List Write)} :
    .challenge d ∉ c.keys → .alertConfig d ∉ c.keys → (∀ b, L (k b)) → L (.cmd (.redis c) k)
  execute {w : Write} {k : Except Exn Unit → Prog Cmd Exn (Response × List Write)} :
    w.Spares d u db → w.Drawn draws → (∀ r, L (k r)) → L (.cmd (.execute w) k)
  member {id : Uuid} {pend : List Write}
    {k : Device × List Write → Prog Cmd Exn (Response × List Write)} :
    (∀ device, id ≠ d → L (k (device, pend))) →
      L ((DeviceAccess.assertDeviceMember id u pend).bind k)
  cycle {id : Uuid} {k : Option CompostCycle → Prog Cmd Exn (Response × List Write)} :
    Loads id → (∀ db', Untouched d u db db' → L (k (db'.compostCycles.get? id))) →
      L (.cmd (.select (.cycleById id)) k)

namespace Confines

variable {E : Env} {db : Db} {d u : Uuid} {draws : Draws} {Loads : Uuid → Prop} {pend : List Write}
variable {L : Prog Cmd Exn (Response × List Write) → Prop}

theorem ite {c : Prop} [Decidable c] {h h' : Handler β}
    {k : β × List Write → Prog Cmd Exn (Response × List Write)}
    (hthen : c → L ((h pend).bind k)) (helse : ¬ c → L ((h' pend).bind k)) :
    L (((if c then h else h') pend).bind k) := by
  by_cases hc : c
  · rw [if_pos hc]; exact hthen hc
  · rw [if_neg hc]; exact helse hc

theorem when {c : Prop} [Decidable c] {h : Handler Unit}
    {k : Unit × List Write → Prog Cmd Exn (Response × List Write)}
    (hthen : c → L ((h pend).bind k)) (helse : ¬ c → L (k ((), pend))) :
    L ((Handler.when c h pend).bind k) := ite hthen helse

theorem spares_nil : ∀ w ∈ ([] : List Write), w.Spares d u db :=
  fun _ h => absurd h List.not_mem_nil

section
variable (H : Confines db d u draws Loads L)
include H

theorem raiseIf {c : Prop} [Decidable c]
    {k : Unit × List Write → Prog Cmd Exn (Response × List Write)} (h : ¬ c → L (k ((), pend))) :
    L ((Handler.raiseIf c status detail pend).bind k) := when (fun _ => H.raise _) h

theorem ofExcept {r : Except Exn β} {k : β × List Write → Prog Cmd Exn (Response × List Write)}
    (h : ∀ b, L (k (b, pend))) : L ((Handler.ofExcept r pend).bind k) := by
  cases r with
  | ok b => exact h b
  | error e => exact H.raise e

theorem scalarOneOrNone {l : List β}
    {k : Option β × List Write → Prog Cmd Exn (Response × List Write)}
    (h : ∀ b, (∀ x ∈ b, x ∈ l) → L (k (b, pend))) :
    L ((Handler.scalarOneOrNone l pend).bind k) := by
  match l with
  | [] => exact h none nofun
  | [b] => exact h (some b) fun x hx => by simpa [eq_comm] using hx
  | _ :: _ :: _ => exact H.raise _

theorem orNow {time : Option Time} {k : Time × List Write → Prog Cmd Exn (Response × List Write)}
    (h : ∀ now, L (k (now, pend))) : L ((Rawbin.orNow time pend).bind k) := by
  cases time with
  | none => exact H.utcnow h
  | some t => exact h t

/-- The cycle of a new entry is not one of device `d`. -/
theorem attributedCycle {id : Uuid} (hid : id ≠ d) {cycleId : Option Uuid}
    {k : Option Uuid × List Write → Prog Cmd Exn (Response × List Write)}
    (h : ∀ c, (∀ x ∈ c, db.CycleApart d x) → L (k (c, pend))) :
    L ((Rawbin.attributedCycle id cycleId pend).bind k) := by
  cases cycleId with
  | none =>
    refine H.select hid fun db' hdb => ?_
    simp only [Prog.pure_bind, Handler.bind_apply, Prog.bind_assoc]
    refine H.scalarOneOrNone fun active hactive => h _ fun x hx => ?_
    obtain ⟨⟨x, c⟩, hc, rfl⟩ := Option.map_eq_some_iff.mp hx
    obtain ⟨hget, hdev⟩ := Table.mem_select.mp (List.mem_filter.mp (hactive _ hc)).1
    exact hdb.cycleApart hget ((of_decide_eq_true hdev).trans_ne hid)
  | some cycleId =>
    refine H.select hid fun db' hdb => ?_
    simp only [Query.eval]
    cases hc : (db'.compostCycles.get? cycleId).filter fun c => c.deviceId = id with
    | none => exact H.raise _
    | some c =>
      obtain ⟨hget, hdev⟩ := Option.filter_eq_some_iff.mp hc
      refine h (some cycleId) fun x hx => ?_
      cases hx
      exact hdb.cycleApart hget ((of_decide_eq_true hdev).trans_ne hid)

theorem loadCycleWithAccess {id : Uuid} (hload : Loads id)
    {k : CompostCycle × List Write → Prog Cmd Exn (Response × List Write)}
    (h : ∀ cycle, db.CycleApart d id → cycle.deviceId ≠ d → L (k (cycle, []))) :
    L ((Rawbin.loadCycleWithAccess id u []).bind k) := by
  refine H.cycle hload fun db' hdb => ?_
  cases hc : db'.compostCycles.get? id with
  | none => exact H.raise _
  | some cycle =>
    simp only [Prog.pure_bind, Handler.bind_apply, Prog.bind_assoc]
    refine H.member (k := fun r => k (cycle, r.2)) fun device hid => ?_
    exact h cycle (hdb.cycleApart hc hid) hid

theorem addMember {id v : Uuid} (hid : id ≠ d)
    {k : Bool × List Write → Prog Cmd Exn (Response × List Write)} (h : ∀ b, L (k (b, []))) :
    L ((DeviceAccess.addMember id v []).bind k) := by
  refine H.select hid fun db' _ => ?_
  simp only [Query.eval]
  cases db'.userDevices.contains (v, id)
  · refine H.txnow fun now => H.execute hid trivial fun r => ?_
    cases r with
    | error e => exact H.raise e
    | ok _ => exact h true
  · exact h false

end

/-! ## The routes -/

section
variable {user : CurrentUser} (H : Confines db d user.id draws Loads L)
include H

theorem pairingConfirm {body : PairingConfirmRequest} :
    L (Rawbin.pairingConfirm E body user []) := by
  refine H.member fun device hid => H.raiseIf fun _ => ?_
  have hkey : RedisKey.challenge d ∉ [.challenge body.deviceId] := fun h =>
    hid (RedisKey.challenge.inj (List.mem_singleton.mp h)).symm
  have hkey' : RedisKey.alertConfig d ∉ [.challenge body.deviceId] := fun h =>
    nomatch List.mem_singleton.mp h
  refine H.redis hkey hkey' fun nonce => ?_
  cases nonce with
  | none => exact H.raise _
  | some nonce =>
    refine H.raiseIf fun _ => H.ofExcept fun _ => H.raiseIf fun _ => when (fun _ => ?_) fun _ => ?_
    · exact H.redis hkey hkey' fun _ => H.utcnow fun _ => H.pure (List.forall_mem_singleton.mpr hid)
    · exact H.redis hkey hkey' fun _ => H.utcnow fun _ => H.pure spares_nil

theorem provisionDeviceSecret {id : Uuid} {secret : String} :
    L (Rawbin.provisionDeviceSecret E id secret user draws []) := by
  refine H.member fun device hid => when (fun _ => ?_) fun _ => H.pure spares_nil
  exact H.pure (List.forall_mem_singleton.mpr hid)

theorem shareDevice {id : Uuid} {body : DeviceShareRequest} :
    L (Rawbin.shareDevice id body user []) := by
  refine H.member fun device hid => H.select trivial fun db' _ => ?_
  cases (Query.userByEmail body.email).eval db' with
  | none => exact H.raise _
  | some target => exact H.addMember hid fun _ => H.select hid fun _ _ => H.pure spares_nil

theorem listMembers {id : Uuid} : L (Rawbin.listMembers id user []) :=
  H.member fun _ hid => H.select hid fun _ _ => H.pure spares_nil

theorem removeMember {id v : Uuid} : L (Rawbin.removeMember id v user []) := by
  refine H.member fun device hid => H.select hid fun _ _ => H.raiseIf fun _ => ?_
  refine H.select hid fun db' _ => ?_
  cases (Query.userDevice id v).eval db' with
  | none => exact H.pure spares_nil
  | some _ => exact H.pure (List.forall_mem_singleton.mpr hid)

theorem getDeviceConfig {id : Uuid} : L (Rawbin.getDeviceConfig id user []) :=
  H.member fun _ hid => H.select hid fun _ _ => H.pure spares_nil

theorem putDeviceConfig {id : Uuid} {body : DeviceConfigIn} :
    L (Rawbin.putDeviceConfig id body user []) := by
  refine H.member fun device hid => H.select hid fun db' _ => ?_
  have hdel : L ((do
      Handler.redis (.delete [.alertConfig id])
      Pure.pure ⟨200, .config ⟨id, effectiveThresholds (some body), true⟩, []⟩ :
      Handler Response) []) := by
    refine H.redis (fun h => nomatch List.mem_singleton.mp h) ?_ fun _ => H.pure spares_nil
    exact fun h => hid (RedisKey.alertConfig.inj (List.mem_singleton.mp h)).symm
  have hflush (w : Write) (hw : w.Spares d user.id db) (hd : w.Drawn draws) : L ((do
      Handler.flush
      Handler.redis (.delete [.alertConfig id])
      Pure.pure ⟨200, .config ⟨id, effectiveThresholds (some body), true⟩, []⟩ :
      Handler Response) [w]) := by
    refine H.execute hw hd fun r => ?_
    cases r with
    | error e => exact H.raise e
    | ok _ => exact hdel
  cases (Query.deviceConfig id).eval db' with
  | none => exact hflush _ hid trivial
  | some cfg => exact when (fun _ => hflush _ hid trivial) fun _ => hdel

theorem createCycle {id : Uuid} {body : CompostCycleCreate} :
    L (Rawbin.createCycle id body user draws []) := by
  refine H.member fun device hid => H.select hid fun _ _ => ?_
  refine H.scalarOneOrNone fun _ _ => H.raiseIf fun _ => H.orNow fun _ => H.txnow fun _ => ?_
  refine H.execute hid rfl fun r => ?_
  cases r with
  | error e => exact H.raise e
  | ok _ => exact H.pure spares_nil

theorem listCycles {id : Uuid} {status : Option CycleStatus} :
    L (Rawbin.listCycles id status user []) :=
  H.member fun _ hid => H.select hid fun _ _ => H.pure spares_nil

theorem getCycle {id : Uuid} (hload : Loads id) : L (Rawbin.getCycle id user []) :=
  H.loadCycleWithAccess hload fun _ _ _ => H.pure spares_nil

theorem updateCycle {id : Uuid} {body : CompostCycleUpdate} (hload : Loads id) :
    L (Rawbin.updateCycle id body user []) := by
  refine H.loadCycleWithAccess hload fun cycle hc hid => ?_
  have hpatch (patch : CompostCyclePatch) : L ((if patch = {} then
      Pure.pure ⟨200, .cycle id cycle, []⟩ else do
        let updatedAt ← .txnow
        Handler.add (.updateCompostCycle id cycle.deviceId patch updatedAt)
        Handler.flush
        throw .responseValidationError : Handler Response) []) := by
    rw [Handler.ite_apply]
    split
    · exact H.pure spares_nil
    · refine H.txnow fun _ => H.execute ⟨hc, hid⟩ trivial fun r => ?_
      cases r with
      | error e => exact H.raise e
      | ok _ => exact H.raise _
  refine ite (fun _ => H.utcnow fun now => ?_) fun _ => ?_
  · exact hpatch { annotated body cycle with endedAt := some now }
  · exact hpatch (annotated body cycle)

theorem createWasteLog {id : Uuid} {body : WasteLogCreate} :
    L (Rawbin.createWasteLog id body user draws []) := by
  refine H.member fun device hid => H.attributedCycle hid fun c hc => ?_
  refine H.orNow fun _ => H.txnow fun _ => H.execute ⟨hid, hc⟩ rfl fun r => ?_
  cases r with
  | error e => exact H.raise e
  | ok _ => exact H.pure spares_nil

theorem listWasteLogs {id : Uuid} {limit offset : Nat} {cycleId : Option Uuid} :
    L (Rawbin.listWasteLogs id limit offset cycleId user []) :=
  H.member fun _ hid => H.select hid fun _ _ => H.select hid fun _ _ => H.pure spares_nil

theorem listAlerts {id : Uuid} {limit offset : Nat} {severity : Option Severity}
    {metric : Option String} : L (Rawbin.listAlerts id limit offset severity metric user []) :=
  H.member fun _ hid => H.select hid fun _ _ => H.select hid fun _ _ => H.pure spares_nil

theorem deviceSnapshot {id : Uuid} : L (Rawbin.deviceSnapshot id user []) := by
  refine H.member fun device hid => H.select hid fun db' _ => ?_
  cases (Query.latestReading id).eval db' with
  | none => exact H.pure spares_nil
  | some _ => exact H.utcnow fun _ => H.pure spares_nil

theorem getTelemetryHistory {id : Uuid} {interval : Interval} {start stop : Option PyDatetime} :
    L (Rawbin.getTelemetryHistory id interval start stop user []) := by
  refine H.member fun device hid => H.utcnow fun now => H.ofExcept fun _ => ?_
  refine H.raiseIf fun _ => H.raiseIf fun _ => ?_
  cases interval <;> exact H.select hid fun _ _ => H.pure spares_nil

theorem checkOtaUpdate {id : Uuid} : L (Rawbin.checkOtaUpdate E id user []) := by
  refine H.member fun device hid => ite (fun _ => ?_) fun _ => H.pure spares_nil
  rw [generatePresignedUrl]
  cases E.presignedUrl firmwareObjectKey E.cfg.otaPresignedUrlExpirySeconds with
  | none => exact H.raise _
  | some url => exact H.pure spares_nil

end

end Confines

/-- The routes that name a device or a cycle. -/
def Route.scoped : Route → Bool
  | .createDemoDevice => false
  | .pairingChallenge _ => false
  | .listDevices => false
  | .getMe => false
  | .patchMe _ => false
  | .updatePushToken _ => false
  | _ => true

/-- The cycle that a route names. -/
def Route.cycleId? : Route → Option Uuid
  | .getCycle cycleId => some cycleId
  | .updateCycle cycleId _ => some cycleId
  | _ => none

theorem Confines.route {E : Env} {db : Db} {d : Uuid} {draws : Draws} {Loads : Uuid → Prop}
    {L : Prog Cmd Exn (Response × List Write) → Prop} {user : CurrentUser}
    (H : Confines db d user.id draws Loads L) {route : Route} (hr : route.scoped = true)
    (hload : ∀ c ∈ route.cycleId?, Loads c) : L (route.handle E user draws []) := by
  cases route with
  | createDemoDevice | pairingChallenge | listDevices | getMe | patchMe | updatePushToken =>
      cases hr
  | pairingConfirm => exact H.pairingConfirm
  | provisionDeviceSecret => exact H.provisionDeviceSecret
  | shareDevice => exact H.shareDevice
  | listMembers => exact H.listMembers
  | removeMember => exact H.removeMember
  | getDeviceConfig => exact H.getDeviceConfig
  | putDeviceConfig => exact H.putDeviceConfig
  | createCycle => exact H.createCycle
  | listCycles => exact H.listCycles
  | getCycle => exact H.getCycle (hload _ rfl)
  | updateCycle => exact H.updateCycle (hload _ rfl)
  | createWasteLog => exact H.createWasteLog
  | listWasteLogs => exact H.listWasteLogs
  | deviceSnapshot => exact H.deviceSnapshot
  | listAlerts => exact H.listAlerts
  | getTelemetryHistory => exact H.getTelemetryHistory
  | checkOtaUpdate => exact H.checkOtaUpdate

end Rawbin
