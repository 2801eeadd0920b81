import Rawbin.Verify.DeviceRoutes

/-!
# What a user who is no member cannot see

`World.without d` is the world without everything that belongs to device `d`. For a user who is no
member of `d`, a request that names a device or a cycle has the same response in both worlds,
unless it names a cycle of `d`: a cycle that exists is answered with another text than one that does
not.
-/

namespace Rawbin

namespace Db

/-- The database without the rows of device `d`. -/
def without (db : Db) (d : Uuid) : Db where
  users := db.users
  refreshTokens := db.refreshTokens
  devices := db.devices.filter fun id _ => id ≠ d
  userDevices := db.userDevices.filter fun k _ => k.2 ≠ d
  sensorReadings := db.sensorReadings.filter fun k _ => k.2 ≠ d
  alertEvents := db.alertEvents.filter fun _ a => a.deviceId ≠ d
  deviceConfigs := db.deviceConfigs.filter fun id _ => id ≠ d
  compostCycles := db.compostCycles.filter fun _ c => c.deviceId ≠ d
  wasteLogs := db.wasteLogs.filter fun _ l => l.deviceId ≠ d

variable {db : Db} {d id : Uuid}

/-! The rows of another device are all there. -/

theorem get?_device_without (h : id ≠ d) : (db.without d).devices.get? id = db.devices.get? id :=
  Table.get?_filter_of fun _ _ => decide_eq_true h

theorem get?_config_without (h : id ≠ d) :
    (db.without d).deviceConfigs.get? id = db.deviceConfigs.get? id :=
  Table.get?_filter_of fun _ _ => decide_eq_true h

theorem get?_userDevice_without (h : id ≠ d) (v : Uuid) :
    (db.without d).userDevices.get? (v, id) = db.userDevices.get? (v, id) :=
  Table.get?_filter_of fun _ _ => decide_eq_true h

theorem get?_cycle_without (h : db.CycleApart d id) :
    (db.without d).compostCycles.get? id = db.compostCycles.get? id :=
  Table.get?_filter_of fun c hc => decide_eq_true (h c hc)

theorem get?_log_without (h : db.LogApart d id) :
    (db.without d).wasteLogs.get? id = db.wasteLogs.get? id :=
  Table.get?_filter_of fun l hl => decide_eq_true (h l hl)

theorem membersOf_without (h : id ≠ d) : (db.without d).membersOf id = db.membersOf id :=
  Table.select_filter fun _ _ hk => decide_eq_true ((of_decide_eq_true hk).trans_ne h)

theorem readingsOf_without (h : id ≠ d) : (db.without d).readingsOf id = db.readingsOf id :=
  Table.select_filter fun _ _ hk => decide_eq_true ((of_decide_eq_true hk).trans_ne h)

theorem alertsOf_without (h : id ≠ d) : (db.without d).alertsOf id = db.alertsOf id :=
  Table.select_filter fun _ _ hk => decide_eq_true ((of_decide_eq_true hk).trans_ne h)

theorem cyclesOf_without (h : id ≠ d) : (db.without d).cyclesOf id = db.cyclesOf id :=
  Table.select_filter fun _ _ hk => decide_eq_true ((of_decide_eq_true hk).trans_ne h)

theorem wasteLogsOf_without (h : id ≠ d) : (db.without d).wasteLogsOf id = db.wasteLogsOf id :=
  Table.select_filter fun _ _ hk => decide_eq_true ((of_decide_eq_true hk).trans_ne h)

theorem contains_device_without (h : id ≠ d) :
    (db.without d).devices.contains id = db.devices.contains id := by
  rw [Table.contains, get?_device_without h, Table.contains]

theorem contains_userDevice_without (h : id ≠ d) (v : Uuid) :
    (db.without d).userDevices.contains (v, id) = db.userDevices.contains (v, id) := by
  rw [Table.contains, get?_userDevice_without h, Table.contains]

theorem contains_member_without (v : Uuid) :
    (db.without d).userDevices.contains (v, d) = false := by
  have h : (db.without d).userDevices.get? (v, d) = none :=
    Table.get?_filter_eq_none fun _ _ => decide_eq_false (not_not_intro rfl)
  rw [Table.contains, h]
  rfl

theorem contains_config_without (h : id ≠ d) :
    (db.without d).deviceConfigs.contains id = db.deviceConfigs.contains id := by
  rw [Table.contains, get?_config_without h, Table.contains]

theorem contains_cycle_without (h : db.CycleApart d id) :
    (db.without d).compostCycles.contains id = db.compostCycles.contains id := by
  rw [Table.contains, get?_cycle_without h, Table.contains]

theorem contains_log_without (h : db.LogApart d id) :
    (db.without d).wasteLogs.contains id = db.wasteLogs.contains id := by
  rw [Table.contains, get?_log_without h, Table.contains]

theorem activeTaken_without (h : id ≠ d) (except : Option Uuid) :
    (db.without d).activeTaken id except = db.activeTaken id except := by
  rw [activeTaken, activeTaken, without, Table.select_filter]
  intro _ c hc
  simp only [Bool.and_eq_true, decide_eq_true_eq] at hc
  exact decide_eq_true (hc.1.1.trans_ne h)

theorem contains_reading_without (h : id ≠ d) (t : Time) :
    (db.without d).sensorReadings.contains (t, id) = db.sensorReadings.contains (t, id) :=
  Table.contains_filter_of fun _ _ => decide_eq_true h

end Db

/-- The world without device `d`: its rows, its pairing nonce and its cached thresholds. -/
def World.without (w : World) (d : Uuid) : World where
  db := w.db.without d
  redis := w.redis.delAll [.challenge d, .alertConfig d]
  now := w.now

/-- Such a query has the same answer. -/
theorem Query.eval_without {q : Query β} (h : q.Spares d) (db : Db) :
    q.eval (db.without d) = q.eval db := by
  cases q with
  | userById | userByEmail | userByPhone | usersByEmailOrPhone | userIdByPhoneExcept |
    refreshTokenByHash => rfl
  | deviceByHardwareUid | devicesOfUser | cycleById => exact h.elim
  | deviceById id => exact Db.get?_device_without h
  | member id v => simp only [eval, Db.contains_userDevice_without h]
  | userDevice id v => exact Db.get?_userDevice_without h v
  | memberCount id => simp only [eval, Db.membersOf_without h]
  | members id =>
    have hs : (db.without d).users.select (fun u _ => (db.without d).userDevices.contains (u, id)) =
        db.users.select fun u _ => db.userDevices.contains (u, id) := by
      simp only [Db.contains_userDevice_without h]
      rfl
    simp only [eval, hs]
  | deviceConfig id => exact Db.get?_config_without h
  | activeCycles id => simp only [eval, Db.cyclesOf_without h]
  | cycles id status => simp only [eval, Db.cyclesOf_without h]
  | cycleOfDevice c id =>
    simp only [eval, Db.without, Table.get?_filter, Option.filter_filter]
    refine congrArg (Option.filter · _) (funext fun cycle => ?_)
    cases hc : decide (cycle.deviceId = id)
    · simp
    · simpa using (of_decide_eq_true hc).trans_ne h
  | wasteLogCount id c => simp only [eval, Db.filteredWasteLogs, Db.wasteLogsOf_without h]
  | wasteLogs id c limit offset => simp only [eval, Db.filteredWasteLogs, Db.wasteLogsOf_without h]
  | alertCount id severity metric => simp only [eval, Db.filteredAlerts, Db.alertsOf_without h]
  | alertEvents id severity metric limit offset =>
    simp only [eval, Db.filteredAlerts, Db.alertsOf_without h]
  | latestReading id => simp only [eval, Db.timedReadings, Db.readingsOf_without h]
  | readings id start stop => simp only [eval, Db.timedReadings, Db.readingsOf_without h]
  | hourly id start stop =>
    simp only [eval, Db.hourlyBetween, Db.timedReadings, Db.readingsOf_without h]
  | daily id start stop =>
    simp only [eval, Db.hourlyBetween, Db.timedReadings, Db.readingsOf_without h]

/-! ## Statements -/

section
variable {db₀ db : Db} {d u id : Uuid} {draws : Draws} {w : Write}

/-- A cycle or an entry of another device is one of another device after the statements of a
transaction that leaves device `d` alone. -/
theorem Untouched.cycleApart_of (h : Untouched d u db₀ db) (hc : db₀.CycleApart d id) :
    db.CycleApart d id := fun c hget hd => hc c ((h.cycle_iff hd).mp hget) hd

theorem Untouched.logApart_of (h : Untouched d u db₀ db) (hl : db₀.LogApart d id) :
    db.LogApart d id := by
  intro l hget hd
  have hm : (id, l) ∈ db.wasteLogsOf d := Table.mem_select.mpr ⟨hget, decide_eq_true hd⟩
  rw [h.wasteLogs] at hm
  exact hl l (Table.mem_select.mp hm).1 hd

/-- What the drawn key of a new row must not be: the key of a row of device `d`. -/
structure Draws.Apart (draws : Draws) (db : Db) (d : Uuid) : Prop where
  cycle : db.CycleApart d draws.id
  log : db.LogApart d draws.id

/-- The constraints do not see device `d`. -/
theorem Write.violates_without (h : Untouched d u db₀ db) (hdraws : draws.Apart db₀ d)
    (hw : w.Spares d u db₀) (hd : w.Drawn draws) : w.violates (db.without d) = w.violates db := by
  cases w with
  | insertUser => exact hw.elim
  | insertDevice => exact hd.elim
  | updateUser | insertRefreshToken | updateRefreshToken | deleteUserDevice => rfl
  | updateDevice id patch => simp only [violates, Db.contains_device_without hw]
  | insertUserDevice v id row =>
    simp only [violates, Db.contains_device_without hw, Db.contains_userDevice_without hw]
    rfl
  | insertSensorReadings id rows =>
    simp only [violates, Db.contains_device_without hw, Db.contains_reading_without hw]
  | insertDeviceConfig id row =>
    simp only [violates, Db.contains_device_without hw, Db.contains_config_without hw]
  | updateDeviceConfig id patch => simp only [violates, Db.contains_config_without hw]
  | insertCompostCycle id row =>
    cases hd
    simp only [violates, Db.contains_device_without hw, Db.activeTaken_without hw,
      Db.contains_cycle_without (h.cycleApart_of hdraws.cycle)]
  | updateCompostCycle id id' patch now =>
    simp only [violates, Db.contains_cycle_without (h.cycleApart_of hw.1),
      Db.activeTaken_without hw.2]
  | insertWasteLog id row =>
    cases hd
    have hc : (row.compostCycleId.any fun c => !(db.without d).compostCycles.contains c) =
        row.compostCycleId.any fun c => !db.compostCycles.contains c := by
      cases hr : row.compostCycleId with
      | none => rfl
      | some c =>
        simp only [Option.any_some]
        rw [Db.contains_cycle_without (h.cycleApart_of (hw.2 c hr))]
    simp only [violates, Db.contains_device_without hw.1, hc,
      Db.contains_log_without (h.logApart_of hdraws.log)]
    rfl

/-- A statement about another device has the same effect. -/
theorem Write.apply_without (h : Untouched d u db₀ db) (hdraws : draws.Apart db₀ d)
    (hw : w.Spares d u db₀) (hd : w.Drawn draws) :
    (w.apply db).without d = w.apply (db.without d) := by
  cases w with
  | insertUser => exact hw.elim
  | insertDevice => exact hd.elim
  | updateUser | insertRefreshToken | updateRefreshToken => rfl
  | updateDevice id patch =>
    refine congrArg (fun t => { db.without d with devices := t }) (Table.filter_update ?_)
    exact fun _ _ => rfl
  | insertUserDevice v id row =>
    refine congrArg (fun t => { db.without d with userDevices := t }) (Table.filter_insert ?_ ?_)
    · exact fun _ _ => decide_eq_true hw
    · exact decide_eq_true hw
  | deleteUserDevice v id =>
    exact congrArg (fun t => { db.without d with userDevices := t }) (Table.filter_delete ..)
  | insertSensorReadings id rows =>
    refine congrArg (fun t => { db.without d with sensorReadings := t }) (Table.filter_insertAll ?_)
    intro e he _
    obtain ⟨r, _, rfl⟩ := List.mem_map.mp he
    exact decide_eq_true hw
  | insertDeviceConfig id row =>
    refine congrArg (fun t => { db.without d with deviceConfigs := t }) (Table.filter_insert ?_ ?_)
    · exact fun _ _ => decide_eq_true hw
    · exact decide_eq_true hw
  | updateDeviceConfig id patch =>
    refine congrArg (fun t => { db.without d with deviceConfigs := t }) (Table.filter_update ?_)
    exact fun _ _ => rfl
  | insertCompostCycle id row =>
    cases hd
    refine congrArg (fun t => { db.without d with compostCycles := t }) (Table.filter_insert ?_ ?_)
    · exact fun c hc => decide_eq_true (h.cycleApart_of hdraws.cycle c hc)
    · exact decide_eq_true hw
  | updateCompostCycle id id' patch now =>
    refine congrArg (fun t => { db.without d with compostCycles := t }) (Table.filter_update ?_)
    exact fun _ _ => rfl
  | insertWasteLog id row =>
    cases hd
    refine congrArg (fun t => { db.without d with wasteLogs := t }) (Table.filter_insert ?_ ?_)
    · exact fun l hl => decide_eq_true (h.logApart_of hdraws.log l hl)
    · exact decide_eq_true hw.1

theorem Write.noop_without (hw : w.Spares d u db₀) : w.noop (db.without d) = w.noop db := by
  cases w with
  | deleteUserDevice v id => simp only [noop, Db.contains_userDevice_without hw]
  | _ => rfl

end

/-! ## Two runs -/

/-- Two worlds in the middle of a transaction: the second lacks device `d` and is otherwise the
first, where the transaction has left the device alone since `db₀`. -/
structure Hidden (db₀ : Db) (d u : Uuid) (t : Session) (w w' : World) : Prop where
  view : t.view w'.db = (t.view w.db).without d
  untouched : Untouched d u db₀ (t.view w.db)
  redis : ∀ k, k ≠ .challenge d → k ≠ .alertConfig d → w'.redis k = w.redis k
  now : w'.now = w.now

/-- A part of a route that comes to the same result in both worlds. -/
def Blind (db₀ : Db) (d u : Uuid) (p : Prog Cmd Exn (Response × List Write)) : Prop :=
  ∀ t w w', Hidden db₀ d u t w w' → (machine.runConst .ok p t w).1 = (machine.runConst .ok p t w').1

namespace Blind

variable {db₀ : Db} {d u : Uuid}

theorem select {q : Query β} {k : β → Prog Cmd Exn (Response × List Write)}
    (hq : ∀ db, Untouched d u db₀ db → q.eval (db.without d) = q.eval db)
    (h : ∀ db, Untouched d u db₀ db → Blind db₀ d u (k (q.eval db))) :
    Blind db₀ d u (.cmd (.select q) k) := by
  intro t w w' hw
  have h := h _ hw.untouched (t.begin w.now) w w'
    { hw with view := hw.view, untouched := hw.untouched }
  simp only [Machine.runConst_cmd, machine, Cmd.exec] at h ⊢
  rw [hw.view, hq _ hw.untouched, hw.now]
  exact h

theorem execute {draws : Draws} (hdraws : draws.Apart db₀ d) {wr : Write}
    {k : Except Exn Unit → Prog Cmd Exn (Response × List Write)} (hwr : wr.Spares d u db₀)
    (hd : wr.Drawn draws) (h : ∀ r, Blind db₀ d u (k r)) :
      Blind db₀ d u (.cmd (.execute wr) k) := by
  intro t w w' hw
  have hv := Write.violates_without hw.untouched hdraws hwr hd
  have ha := Write.apply_without hw.untouched hdraws hwr hd
  simp only [Machine.runConst_cmd, machine, Cmd.exec, hw.view, hv, Write.noop_without hwr, hw.now]
  split
  · exact h _ (t.begin w.now) w w' { hw with view := hw.view, untouched := hw.untouched }
  · split
    · exact h _ (t.begin w.now) w w' { hw with view := hw.view, untouched := hw.untouched }
    · refine h _ _ w w' { hw with view := ?_, untouched := ?_ }
      · rw [Session.view_snoc, Session.view_snoc, hw.view, ha]
      · rw [Session.view_snoc]
        exact hw.untouched.apply hwr

theorem redis {c : RedisCmd β} {k : β → Prog Cmd Exn (Response × List Write)}
    (hchallenge : .challenge d ∉ c.keys) (hconfig : .alertConfig d ∉ c.keys)
    (h : ∀ b, Blind db₀ d u (k b)) : Blind db₀ d u (.cmd (.redis c) k) := by
  intro t w w' hw
  have hkeys : ∀ key ∈ c.keys, w'.redis key = w.redis key := fun key hk =>
    hw.redis key (fun h => hchallenge (h ▸ hk)) fun h => hconfig (h ▸ hk)
  simp only [Machine.runConst_cmd, machine, Cmd.exec, hw.now, RedisCmd.exec_fst_congr hkeys]
  refine h _ t _ _ ⟨hw.view, hw.untouched, fun key h₁ h₂ => ?_, rfl⟩
  exact RedisCmd.exec_snd_congr hkeys w.now (hw.redis key h₁ h₂)

theorem assertDeviceMember_outsider {t : Session} {w : World}
    (hm : (t.view w.db).userDevices.contains (u, d) = false)
    {k : Device × List Write → Prog Cmd Exn (Response × List Write)} :
    (machine.runConst .ok ((DeviceAccess.assertDeviceMember d u pend).bind k) t w).1 =
      .error (.httpException 404 "Device not found.") := by
  show (machine.runConst .ok (.cmd (.select (.deviceById d)) _) t w).1 = _
  simp only [Machine.runConst_cmd, machine, Cmd.exec]
  cases (Query.deviceById d).eval (t.view w.db) with
  | none => rfl
  | some device =>
    simp only [Prog.pure_bind, Handler.bind_apply, Prog.bind_assoc]
    show (machine.runConst .ok (.cmd (.select (.member d u)) _) (t.begin w.now) w).1 = _
    have hnone : (Query.member d u).eval ((t.begin w.now).view w.db) = none :=
      if_neg (ne_true_of_eq_false hm)
    simp only [Machine.runConst_cmd, machine, Cmd.exec, hnone]
    rfl

/-- The user is a member of `d` in neither world, so `d` is answered like a missing device. -/
theorem assertDeviceMember (hu : db₀.userDevices.contains (u, d) = false) {id : Uuid}
    {k : Device × List Write → Prog Cmd Exn (Response × List Write)}
    (h : ∀ device, id ≠ d → Blind db₀ d u (k (device, pend))) :
    Blind db₀ d u ((DeviceAccess.assertDeviceMember id u pend).bind k) := by
  by_cases hid : id = d
  · subst hid
    intro t w w' hw
    have hm : (t.view w.db).userDevices.contains (u, id) = false :=
      Bool.eq_false_iff.mpr fun h => absurd (hw.untouched.member_of h) (by rw [hu]; nofun)
    have hm' : (t.view w'.db).userDevices.contains (u, id) = false := by
      rw [hw.view]
      exact Db.contains_member_without u
    rw [assertDeviceMember_outsider hm, assertDeviceMember_outsider hm']
  · refine select (fun db _ => Db.get?_device_without hid) fun db _ => ?_
    cases (Query.deviceById id).eval db with
    | none => exact fun _ _ _ _ => rfl
    | some device =>
      simp only [Prog.pure_bind, Handler.bind_apply, Prog.bind_assoc]
      refine select (fun db _ => Query.eval_without (q := .member id u) hid db) fun db _ => ?_
      cases (Query.member id u).eval db with
      | none => exact fun _ _ _ _ => rfl
      | some _ => exact h device hid

theorem confines (hu : db₀.userDevices.contains (u, d) = false) {draws : Draws}
    (hdraws : draws.Apart db₀ d) :
    Confines db₀ d u draws (db₀.CycleApart d) (Blind db₀ d u) where
  pure _ _ _ _ _ := rfl
  raise _ _ _ _ _ := rfl
  select hq := select fun db _ => Query.eval_without hq db
  utcnow h t w w' hw := by
    simp only [Machine.runConst_cmd, machine, Cmd.exec, hw.now]
    exact h w.now t w w' hw
  txnow h t w w' hw := by
    simp only [Machine.runConst_cmd, machine, Cmd.exec, hw.now]
    exact h _ (t.begin w.now) w w' { hw with view := hw.view, untouched := hw.untouched }
  redis := redis
  execute := execute hdraws
  member := assertDeviceMember hu
  cycle hc h := select (fun db hdb => Db.get?_cycle_without (hdb.cycleApart_of hc)) h

end Blind

/-! ## Responses -/

/-- The response to a route by its outcome. -/
def routeResponse : Except Exn (Response × List Write) → Response
  | .ok (response, _) => response
  | .error e => e.response

section
variable {E : Env} {credentials : String} {u d : Uuid} {user : User} {route : Route} {draws : Draws}
variable {w w' : World}

theorem serve_response (r : Request) (w : World) :
    (serve E r w).1 = routeResponse (machine.runConst .ok (r.handle E []) .idle w).1 := by
  refine serve_ends (P := fun response _ => response = routeResponse _) ?_
  show match (machine.runConst .ok (r.handle E []) .idle w).1 with
    | .ok (response, pending) => _
    | .error e => _
  cases (machine.runConst .ok (r.handle E []) .idle w).1 <;> rfl

theorem Authenticated.response (h : Authenticated E credentials u user w) :
    (serve E (.user credentials route draws) w).1 = routeResponse (machine.runConst .ok
      (route.handle E ⟨u, user⟩ draws []) (Session.idle.begin w.now) w).1 := by
  obtain ⟨payload, hp, ht, rfl, hu, ha⟩ := h
  rw [serve_response]
  show routeResponse (machine.runConst .ok (.cmd .utcnow _) .idle w).1 = _
  simp only [Machine.runConst_cmd, machine, Cmd.exec, Prog.pure_bind, hp, ht, ne_eq,
    not_true_eq_false,
    if_false]
  show routeResponse (machine.runConst .ok (.cmd (.select (.userById payload.sub)) _) .idle w).1 = _
  have hq : (Query.userById payload.sub).eval (Session.idle.view w.db) = some user := hu
  simp only [Machine.runConst_cmd, machine, Cmd.exec, hq, Prog.pure_bind, ha]
  rfl

/-- Without device `d` the response is the same, if the request names no cycle of `d` and draws no
key of a row of `d`. -/
theorem response_without (hauth : Authenticated E credentials u user w)
    (hu : w.db.userDevices.contains (u, d) = false) (hdraws : draws.Apart w.db d)
    (hr : route.scoped = true) (hc : ∀ c ∈ route.cycleId?, w.db.CycleApart d c) :
    (serve E (.user credentials route draws) (w.without d)).1 =
      (serve E (.user credentials route draws) w).1 := by
  have hauth' : Authenticated E credentials u user (w.without d) := hauth
  rw [hauth.response, hauth'.response]
  have hblind : Blind w.db d u (route.handle E ⟨u, user⟩ draws []) :=
    Confines.route (Blind.confines hu hdraws) hr hc
  refine congrArg routeResponse (hblind (Session.idle.begin w.now) w (w.without d) ?_).symm
  refine ⟨rfl, .refl _, fun k hk hk' => Expiring.delAll_of_notMem ?_, rfl⟩
  simpa using ⟨hk, hk'⟩

/-- The routes that name a cycle load it first. -/
theorem response_of_load {id : Uuid} (hauth : Authenticated E credentials u user w)
    (hid : route.cycleId? = some id) {e : Exn}
    (h : ∀ k : CompostCycle × List Write → Prog Cmd Exn (Response × List Write),
      (machine.runConst .ok ((loadCycleWithAccess id u []).bind k) (Session.idle.begin w.now) w).1 =
        .error e) : (serve E (.user credentials route draws) w).1 = e.response := by
  rw [hauth.response]
  cases route with
  | getCycle | updateCycle =>
    cases hid
    exact congrArg routeResponse (h _)
  | _ => cases hid

/-- What a user who is no member gets for a cycle of device `d`. -/
theorem response_of_owned (hauth : Authenticated E credentials u user w)
    (hu : w.db.userDevices.contains (u, d) = false) {id : Uuid} (hid : route.cycleId? = some id)
    {c : CompostCycle} (hc : w.db.compostCycles.get? id = some c) (hd : c.deviceId = d) :
    (serve E (.user credentials route draws) w).1 = ⟨404, .detail "Device not found.", []⟩ := by
  refine response_of_load hauth hid (e := .httpException 404 "Device not found.") fun k => ?_
  have hq : (Query.cycleById id).eval ((Session.idle.begin w.now).view w.db) = some c := hc
  show (machine.runConst .ok (.cmd (.select (.cycleById id)) _) _ w).1 = _
  simp only [Machine.runConst_cmd, machine, Cmd.exec, hq, Prog.pure_bind, Handler.bind_apply,
    Prog.bind_assoc, hd]
  exact Blind.assertDeviceMember_outsider (t := Session.idle.begin w.now) (w := w)
    (k := fun r => k (c, r.2)) hu

/-- What any user gets for a cycle that does not exist. -/
theorem response_of_missing (hauth : Authenticated E credentials u user w) {id : Uuid}
    (hid : route.cycleId? = some id) (hc : w.db.compostCycles.get? id = none) :
    (serve E (.user credentials route draws) w).1 = ⟨404, .detail "Cycle not found.", []⟩ := by
  refine response_of_load hauth hid (e := .httpException 404 "Cycle not found.") fun k => ?_
  have hq : (Query.cycleById id).eval ((Session.idle.begin w.now).view w.db) = none := hc
  show (machine.runConst .ok (.cmd (.select (.cycleById id)) _) _ w).1 = _
  simp only [Machine.runConst_cmd, machine, Cmd.exec, hq]
  rfl

/-- The cycle is one of device `d`. -/
def World.owns (w : World) (d id : Uuid) : Bool :=
  (w.db.compostCycles.get? id).any fun c => c.deviceId = d

theorem World.cycleApart_iff {id : Uuid} : w.db.CycleApart d id ↔ w.owns d id = false := by
  rw [owns, Db.CycleApart]
  cases w.db.compostCycles.get? id with
  | none => exact iff_of_true nofun rfl
  | some c => simp

/-- A cycle of `d` in one of the two worlds, and not in the other, shows. -/
theorem response_ne_of_owns (hdiff : w.without d = w'.without d)
    (hauth : Authenticated E credentials u user w) (hauth' : Authenticated E credentials u user w')
    (hu : w.db.userDevices.contains (u, d) = false)
    (hu' : w'.db.userDevices.contains (u, d) = false) (hdraws' : draws.Apart w'.db d)
    (hr : route.scoped = true) {id : Uuid} (hid : route.cycleId? = some id)
    (ho : w.owns d id = true) (ho' : w'.owns d id = false) :
    (serve E (.user credentials route draws) w).1 ≠
      (serve E (.user credentials route draws) w').1 := by
  obtain ⟨c, hc, hd⟩ := (Option.any_eq_true _ _).mp ho
  have hd := of_decide_eq_true hd
  have hgone : (w.without d).db.compostCycles.get? id = none := by
    refine Table.get?_filter_eq_none fun c' hc' => decide_eq_false (not_not_intro ?_)
    cases hc.symm.trans hc'
    exact hd
  have hsame := response_without hauth' hu' hdraws' hr fun id' hid' => by
    cases hid.symm.trans hid'
    exact World.cycleApart_iff.mpr ho'
  have hauth₀ : Authenticated E credentials u user (w.without d) := hauth
  rw [← hsame, ← hdiff, response_of_missing hauth₀ hid hgone, response_of_owned hauth hu hid hc hd]
  decide

/-- **What a user who is no member can see.** In two worlds that differ only in device `d`, the
responses to a request that names a device or a cycle are the same, unless it names a cycle that
one of the worlds has for `d` and the other has not. -/
theorem response_eq_iff (hdiff : w.without d = w'.without d)
    (hauth : Authenticated E credentials u user w)
    (hu : w.db.userDevices.contains (u, d) = false)
    (hu' : w'.db.userDevices.contains (u, d) = false)
    (hdraws : draws.Apart w.db d) (hdraws' : draws.Apart w'.db d) (hr : route.scoped = true) :
    (serve E (.user credentials route draws) w).1 = (serve E (.user credentials route draws) w').1 ↔
      ∀ c ∈ route.cycleId?, w.owns d c = w'.owns d c := by
  have hauth' : Authenticated E credentials u user w' := by
    have h : Authenticated E credentials u user (w.without d) := hauth
    rw [hdiff] at h
    exact h
  have hsame (h : ∀ c ∈ route.cycleId?, w.owns d c = false ∧ w'.owns d c = false) :
      (serve E (.user credentials route draws) w).1 =
        (serve E (.user credentials route draws) w').1 := by
    rw [← response_without hauth hu hdraws hr fun c hc => World.cycleApart_iff.mpr (h c hc).1,
      ← response_without hauth' hu' hdraws' hr fun c hc => World.cycleApart_iff.mpr (h c hc).2,
      hdiff]
  cases hid : route.cycleId? with
  | none => exact iff_of_true (hsame fun c hc => nomatch hid.symm.trans hc) nofun
  | some id =>
    have hforall : (∀ c ∈ some id, w.owns d c = w'.owns d c) ↔ w.owns d id = w'.owns d id := by simp
    rw [hforall]
    cases ho : w.owns d id <;> cases ho' : w'.owns d id
    · refine iff_of_true (hsame fun c hc => ?_) rfl
      cases hid.symm.trans hc
      exact ⟨ho, ho'⟩
    · refine iff_of_false (fun h => ?_) nofun
      exact response_ne_of_owns hdiff.symm hauth' hauth hu' hu hdraws hr hid ho' ho h.symm
    · refine iff_of_false (fun h => ?_) nofun
      exact response_ne_of_owns hdiff hauth hauth' hu hu' hdraws' hr hid ho ho' h
    · refine iff_of_true ?_ rfl
      obtain ⟨c, hc, hd⟩ := (Option.any_eq_true _ _).mp ho
      obtain ⟨c', hc', hd'⟩ := (Option.any_eq_true _ _).mp ho'
      rw [response_of_owned hauth hu hid hc (of_decide_eq_true hd),
        response_of_owned hauth' hu' hid hc' (of_decide_eq_true hd')]

end

/-! ## Bob and the device of Alice -/

namespace Sample

def bob : String := jwtEncode ⟨2, .access, 0, 0, 0⟩

theorem bob_authenticated (w : World) (hw : w.db.users = world.db.users) :
    Authenticated env bob 2 (user "bob@rawbin.io") w := by
  refine ⟨⟨2, .access, w.now + 1, w.now, 0⟩, ?_, rfl, rfl, ?_, rfl⟩
  · rfl
  · rw [hw]
    rfl

/-- Device 7 of Alice with a batch. -/
def cycleWorld : World :=
  { deviceWorld with
    db := { deviceWorld.db with
      compostCycles := Table.empty.insert 5 ⟨7, .active, 0, none, none, none, 0, 0⟩ } }

end Sample

/-- Whether device 7 exists does not show in the response to a request for its thresholds. -/
theorem getDeviceConfig_hides :
    (serve Sample.env (.user Sample.bob (.getDeviceConfig 7) (Sample.draws 0))
      Sample.cycleWorld).1 =
      (serve Sample.env (.user Sample.bob (.getDeviceConfig 7) (Sample.draws 0))
        Sample.world).1 := by
  have hdiff : Sample.cycleWorld.without 7 = Sample.world.without 7 := rfl
  have hapart {db : Db} (hc : db.compostCycles.get? 0 = none) (hl : db.wasteLogs.get? 0 = none) :
      (Sample.draws 0).Apart db 7 :=
    ⟨fun _ h => (nomatch hc.symm.trans h), fun _ h => (nomatch hl.symm.trans h)⟩
  refine (response_eq_iff hdiff (Sample.bob_authenticated _ rfl) rfl rfl (hapart rfl rfl)
    (hapart rfl rfl) rfl).mpr fun c hc => ?_
  cases hc

/-- Whether it has batch 5 shows in the response to a request for the batch. -/
theorem getCycle_reveals :
    Sample.cycleWorld.without 7 = Sample.world.without 7 ∧
    Sample.cycleWorld.db.userDevices.contains (2, 7) = false ∧
    (serve Sample.env (.user Sample.bob (.getCycle 5) (Sample.draws 0)) Sample.cycleWorld).1 ≠
      (serve Sample.env (.user Sample.bob (.getCycle 5) (Sample.draws 0)) Sample.world).1 := by
  refine ⟨rfl, rfl, ?_⟩
  decide +kernel

end Rawbin
