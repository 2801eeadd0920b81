import Rawbin.Db.Migration
import Rawbin.Verify.MembershipViews

/-!
# Upgrade, requests, downgrade

The downgrade makes an earliest member of each device its owner. That this succeeds rests on an
invariant of the requests in between: every device has a member. That it restores the old owner
rests on creation times: the rows of the upgrade are older than all rows that a request creates, and
each of them is the row of an owner.
-/

namespace Rawbin

section
variable {scan : List ((Uuid × Uuid) × UserDevice)} {t : Table (Uuid × Uuid) UserDevice}
variable {d u : Uuid} {db : Db}

/-! ## The downgrade -/

theorem mem_firstMembers {r : Uuid × Uuid} (h : r ∈ firstMembers scan) :
    ∃ row, ((r.2, r.1), row) ∈ scan ∧
      ∀ u' row', ((u', r.1), row') ∈ scan → row.createdAt ≤ row'.createdAt := by
  obtain ⟨⟨⟨u, d⟩, row⟩, he, rfl⟩ := List.mem_map.mp h
  have hmem {e : (Uuid × Uuid) × UserDevice} :
      e ∈ orderBy (fun r => toLex (r.1.2, r.2.createdAt)) false scan ↔ e ∈ scan :=
    (perm_orderBy ..).mem_iff
  refine ⟨row, hmem.mp (Groups.mem_of_distinctOn he), fun u' row' he' => ?_⟩
  have hsorted := List.pairwise_insertionSort (fun a b : (Uuid × Uuid) × UserDevice =>
    toLex (a.1.2, a.2.createdAt) ≤ toLex (b.1.2, b.2.createdAt)) scan
  rcases Groups.distinctOn_le hsorted he (hmem.mpr he') rfl with heq | hle
  · cases heq
    exact le_rfl
  · exact (Prod.Lex.toLex_le_toLex'.mp hle).2 rfl

/-- The owner that the downgrade finds for a device is an earliest member. -/
theorem ownerFrom_eq_some (hscan : scan.Perm t.rows)
    (h : ownerFrom (firstMembers scan) d = some u) : ∃ row, t.get? (u, d) = some row ∧
      ∀ u' row', t.get? (u', d) = some row' → row.createdAt ≤ row'.createdAt := by
  obtain ⟨r, hr, rfl⟩ := Option.map_eq_some_iff.mp h
  obtain rfl : r.1 = d := by simpa using List.find?_some hr
  obtain ⟨row, hrow, hle⟩ := mem_firstMembers (List.mem_of_find?_eq_some hr)
  refine ⟨row, Table.get?_eq_some_iff.mpr (hscan.mem_iff.mp hrow), fun u' row' hget => ?_⟩
  exact hle u' row' (hscan.mem_iff.mpr (Table.get?_eq_some_iff.mp hget))

theorem exists_ownerFrom (hscan : scan.Perm t.rows) (h : t.contains (u, d) = true) :
    ∃ u', ownerFrom (firstMembers scan) d = some u' := by
  obtain ⟨row, hrow⟩ := Table.contains_iff.mp h
  have hmem : ((u, d), row) ∈ orderBy (fun r => toLex (r.1.2, r.2.createdAt)) false scan :=
    (perm_orderBy ..).mem_iff.mpr (hscan.mem_iff.mpr (Table.get?_eq_some_iff.mp hrow))
  obtain ⟨r, hfirst, hkey⟩ : ∃ r ∈ Groups.distinctOn (fun r : (Uuid × Uuid) × UserDevice => r.1.2)
      (orderBy (fun r => toLex (r.1.2, r.2.createdAt)) false scan), r.1.2 = d :=
    Groups.exists_distinctOn hmem
  have hsome : ((firstMembers scan).find? fun r => r.1 = d).isSome = true := by
    rw [List.find?_isSome]
    exact ⟨(r.1.2, r.1.1), List.mem_map_of_mem hfirst, decide_eq_true hkey⟩
  obtain ⟨r, hr⟩ := Option.isSome_iff_exists.mp hsome
  exact ⟨r.2, by rw [ownerFrom, hr]; rfl⟩

theorem get?_restoreOwners {ud : List (Uuid × Uuid)} {devices : Table Uuid Device}
    {owned : Table Uuid OwnedDevice} (h : restoreOwners ud devices = some owned) (d : Uuid) :
    owned.get? d = (devices.get? d).bind fun device =>
      (ownerFrom ud d).map (OwnedDevice.mk device) := by
  rw [Table.get?_mapM h, Table.get?_map, Option.bind_map]
  rfl

/-- The downgrade drops memberships, cycles and logs, and keeps users and devices. -/
theorem downgrade_keeps {old : OldDb} (h : downgrade scan db = .ok old) :
    (∀ u, old.users.contains u = db.users.contains u) ∧
    ∀ d, old.devices.contains d = db.devices.contains d := by
  simp only [downgrade] at h
  split at h
  · cases h
  · rename_i devices hdevices
    split at h
    · cases h
      refine ⟨fun u => Table.contains_map .., fun d => ?_⟩
      exact (Table.contains_mapM hdevices d).trans (Table.contains_map ..)
    · cases h

/-- The downgrade succeeds when every device has a member. -/
theorem exists_downgrade (hscan : scan.Perm db.userDevices.rows) (hl : db.Linked)
    (hm : ∀ d, db.devices.contains d = true → ∃ u, db.userDevices.contains (u, d) = true) :
    ∃ old, downgrade scan db = .ok old ∧ ∀ d, old.devices.get? d = (db.devices.get? d).bind
      fun device => (ownerFrom (firstMembers scan) d).map (OwnedDevice.mk device) := by
  have howned : ∃ owned, restoreOwners (firstMembers scan) db.devices = some owned := by
    refine Table.exists_mapM fun e he => ?_
    obtain ⟨⟨d, device⟩, hd, rfl⟩ := List.mem_map.mp he
    obtain ⟨u, hu⟩ := hm d (Table.contains_of_get? (Table.get?_eq_some_iff.mpr hd))
    obtain ⟨u', hu'⟩ := exists_ownerFrom hscan hu
    simp only [hu', Option.map_some, Option.isSome_some]
  obtain ⟨owned, howned⟩ := howned
  have hget := get?_restoreOwners howned
  have hfkey : ∀ e ∈ owned.rows,
      (db.users.map fun _ u => u.dropPhone).contains e.2.ownerId = true := by
    rintro ⟨d, device⟩ he
    have hd := Table.get?_eq_some_iff.mpr he
    rw [hget, Option.bind_eq_some_iff] at hd
    obtain ⟨_, _, hd⟩ := hd
    obtain ⟨u, hu, rfl⟩ := Option.map_eq_some_iff.mp hd
    obtain ⟨row, hrow, _⟩ := ownerFrom_eq_some hscan hu
    rw [Table.contains_map]
    exact hl.user u d (Table.contains_of_get? hrow)
  have hdown : ∃ old, downgrade scan db = .ok old ∧ old.devices = owned := by
    simp only [downgrade, howned]
    rw [dif_pos hfkey]
    exact ⟨_, rfl, rfl⟩
  obtain ⟨old, hdown, rfl⟩ := hdown
  exact ⟨old, hdown, hget⟩

end

/-! ## The requests in between -/

inductive SharingRoute where
  | pairingChallenge (body : PairingChallengeRequest)
  | shareDevice (deviceId : Uuid) (body : DeviceShareRequest)
  | removeMember (deviceId userId : Uuid)

def SharingRoute.toRoute : SharingRoute → Route
  | .pairingChallenge body => .pairingChallenge body
  | .shareDevice d body => .shareDevice d body
  | .removeMember d u => .removeMember d u

/-- A request, with the time that passes before it; no two requests are served at one instant. -/
structure SharingEvent where
  dt : Nat
  credentials : String
  route : SharingRoute
  draws : Draws

def SharingEvent.apply (E : Env) (e : SharingEvent) (w : World) : World :=
  (serve E (.user e.credentials e.route.toRoute e.draws) (w.tick (e.dt + 1))).2

/-- The request ends the membership of user `u`. -/
def SharingEvent.Removes (E : Env) (u d : Uuid) (e : SharingEvent) (w : World) : Prop :=
  w.db.userDevices.contains (u, d) = true ∧ (e.apply E w).db.userDevices.contains (u, d) = false

/-- What a request that is served at the instant `now` does to devices and members. -/
inductive SharingStep (now : Time) (db db' : Db) : Prop where
  | same (members : db'.userDevices = db.userDevices)
    (devices : ∀ d, db'.devices.contains d = db.devices.contains d)
  | joined (u d : Uuid) (members : db'.userDevices = db.userDevices.insert (u, d) ⟨now⟩)
    (devices : ∀ d', db'.devices.contains d' = true ↔ db.devices.contains d' = true ∨ d' = d)
  | removed (u d : Uuid) (others : 1 < (db.membersOf d).length)
    (members : db'.userDevices = db.userDevices.delete (u, d))
    (devices : ∀ d, db'.devices.contains d = db.devices.contains d)

section
variable {E : Env} {w : World} {d u : Uuid} {credentials : String} {draws : Draws}

theorem SharingStep.refl (now : Time) (db : Db) : SharingStep now db db := .same rfl fun _ => rfl

theorem share_step {body : DeviceShareRequest} :
    SharingStep w.now w.db (serve E (.user credentials (.shareDevice d body) draws) w).2.db := by
  refine serve_ends (P := fun _ w' => SharingStep w.now w.db w'.db) ?_
  refine getCurrentUser_begin rfl (fun _ _ => .refl ..) fun caller user _ => ?_
  refine assertDeviceMember_begin rfl (fun _ _ => .refl ..) fun device hm => ?_
  refine select_begin rfl ?_
  cases (Query.userByEmail body.email).eval w.db with
  | none => exact .refl ..
  | some target =>
    simp only [Handler.bind_apply, Prog.pure_bind]
    refine addMember_begin (fun _ => query_ends ?_) (fun _ => query_ends ?_) fun _ _ _ _ => .refl ..
    · exact .refl ..
    · refine .joined target.1 d rfl fun d' => (or_iff_left_of_imp ?_).symm
      rintro rfl
      exact Table.contains_of_get? hm.1

theorem remove_step :
    SharingStep w.now w.db (serve E (.user credentials (.removeMember d u) draws) w).2.db := by
  refine serve_ends (P := fun _ w' => SharingStep w.now w.db w'.db) ?_
  refine getCurrentUser_begin rfl (fun _ _ => .refl ..) fun caller user _ => ?_
  refine assertDeviceMember_begin rfl (fun _ _ => .refl ..) fun device _ => ?_
  refine select_begin rfl (raiseIf_ends (fun _ => .refl ..) fun hcount => ?_)
  refine select_begin rfl ?_
  cases (Query.userDevice d u).eval w.db with
  | none => exact .refl ..
  | some link =>
    show SharingStep w.now w.db (w.settle _ [.deleteUserDevice u d]).db
    rw [World.settle_one rfl rfl]
    exact .removed u d (not_le.mp hcount) rfl fun _ => rfl

theorem settle_redis_db (w : World) (redis : Redis) (t : Session) (pending : List Write) :
    (World.settle { w with redis := redis } t pending).db = (w.settle t pending).db := by
  rw [World.settle, World.settle]
  cases Write.flushed pending (t.view w.db) <;> rfl

theorem settle_updateDevice_step {t : Session} (ht : t.written = []) (id : Uuid)
    (patch : DevicePatch) : SharingStep w.now w.db (w.settle t [.updateDevice id patch]).db := by
  rw [World.settle, Session.view_of_nil ht]
  cases hf : Write.flushed [.updateDevice id patch] w.db with
  | error e => exact .refl ..
  | ok db =>
    obtain ⟨_, rfl⟩ := Write.of_flushed_one hf
    exact .same rfl fun d => Table.contains_update ..

/-- What is committed when nothing else is changed after this. -/
def Settles (w : World) (res : Except Exn (Uuid × List Write)) (t : Session) (w' : World) : Prop :=
  w' = w ∧ ∀ r, res = .ok r → SharingStep w.now w.db (w.settle t r.2).db

theorem challengedDevice_settles {body : PairingChallengeRequest} {user : CurrentUser}
    (hl : w.db.Linked) : Ends (Settles w) (Session.begin .idle w.now) w
      (challengedDevice E body user draws []) := by
  have herr (e : Exn) (t : Session) : Settles w (.error e) t w := ⟨rfl, nofun⟩
  rw [challengedDevice, Handler.bind_apply]
  refine select_begin rfl ?_
  cases (Query.deviceByHardwareUid body.hardwareUid).eval w.db with
  | none =>
    refine Machine.Ends.cmd ?_
    simp only [Prog.pure_bind, Handler.bind_apply, Handler.add_apply]
    refine flush_one_begin (fun _ => rfl) (fun hv => ?_) fun t e _ => herr e t
    obtain ⟨hid, _⟩ := Write.insertDevice_violates_iff.mp hv
    refine addMember_begin (fun hm => ?_) (fun _ => ⟨rfl, ?_⟩) fun t _ e _ => herr e t
    · exact absurd (hl.device _ _ hm) (Bool.eq_false_iff.mp hid)
    · rintro _ ⟨⟩
      exact .joined user.id draws.id rfl fun d => Table.contains_insert ..
  | some found =>
    simp only [Handler.bind_apply, Prog.pure_bind]
    refine isMember_begin rfl (raiseIf_ends (fun _ => herr ..) fun _ => ?_)
    refine when_ends (fun _ => when_ends (fun _ => ?_) fun _ => ?_) fun _ => ?_
    · refine ⟨rfl, ?_⟩
      rintro _ ⟨⟩
      exact settle_updateDevice_step rfl ..
    · exact ⟨rfl, fun r hr => by cases hr; exact .refl ..⟩
    · exact ⟨rfl, fun r hr => by cases hr; exact .refl ..⟩

theorem pairing_step {body : PairingChallengeRequest} (hl : w.db.Linked) :
    SharingStep w.now w.db
      (serve E (.user credentials (.pairingChallenge body) draws) w).2.db := by
  refine serve_ends (P := fun _ w' => SharingStep w.now w.db w'.db) ?_
  refine getCurrentUser_begin rfl (fun _ _ => .refl ..) fun caller user _ => ?_
  show Ends _ _ w (pairingChallenge E body ⟨caller, user⟩ draws [])
  rw [pairingChallenge, Handler.bind_apply]
  refine Machine.Ends.bind (challengedDevice_settles hl) ?_ ?_
  · rintro t w r ⟨rfl, h⟩
    refine utcnow_ends (redis_ends ?_)
    show SharingStep w.now w.db (World.settle { w with redis := _ } t r.2).db
    rw [settle_redis_db]
    exact h r rfl
  · rintro e t _ ⟨rfl, _⟩
    exact .refl ..

end

/-! ## Runs -/

/-- What the requests keep of a database that was upgraded at the instant `now`. -/
structure Inherited (old : OldDb) (now : Time) (w : World) : Prop where
  linked : w.db.Linked
  clock : now ≤ w.now
  membered : ∀ d, w.db.devices.contains d = true → ∃ u, w.db.userDevices.contains (u, d) = true
  kept : ∀ d, old.devices.contains d = true → w.db.devices.contains d = true
  created : ∀ u d row, w.db.userDevices.get? (u, d) = some row → now < row.createdAt ∨
    ∃ device, old.devices.get? d = some device ∧ device.ownerId = u

section
variable {E : Env} {old : OldDb} {now : Time} {redis : Redis} {w : World} {d u : Uuid}
variable {db db' : Db} {scan : List ((Uuid × Uuid) × UserDevice)}

/-- The members right after the upgrade are the owners. -/
theorem get?_upgrade {row : UserDevice} : (upgrade now old).userDevices.get? (u, d) = some row ↔
    (∃ device, old.devices.get? d = some device ∧ device.ownerId = u) ∧ row = ⟨now⟩ := by
  have hnodup : ((old.ownerLinks now).map Prod.fst).Nodup := by
    refine List.Nodup.of_map Prod.snd ?_
    rw [OldDb.ownerLinks, List.map_map, List.map_map]
    exact old.devices.nodup
  have hrows : (upgrade now old).userDevices.rows = old.ownerLinks now :=
    Table.insertAll_rows hnodup fun _ _ => rfl
  rw [Table.get?_eq_some_iff, hrows, OldDb.ownerLinks, List.mem_map]
  constructor
  · rintro ⟨⟨d, device⟩, hd, ⟨⟩⟩
    exact ⟨⟨device, Table.get?_eq_some_iff.mpr hd, rfl⟩, rfl⟩
  · rintro ⟨⟨device, hd, rfl⟩, rfl⟩
    exact ⟨(d, device), Table.get?_eq_some_iff.mp hd, rfl⟩

theorem get?_upgrade_owner {device : OwnedDevice} (hd : old.devices.get? d = some device)
    (now : Time) : (upgrade now old).userDevices.get? (device.ownerId, d) = some ⟨now⟩ :=
  get?_upgrade.mpr ⟨⟨device, hd, rfl⟩, rfl⟩

theorem upgrade_inherited : Inherited old now ⟨upgrade now old, redis, now⟩ where
  linked := by
    constructor <;> intro u d hlink
    all_goals
      obtain ⟨row, hrow⟩ := Table.contains_iff.mp hlink
      obtain ⟨⟨device, hd, rfl⟩, _⟩ := get?_upgrade.mp hrow
    · exact (Table.contains_map ..).trans (old.owner_fkey _ (Table.get?_eq_some_iff.mp hd))
    · exact (Table.contains_map ..).trans (Table.contains_of_get? hd)
  clock := le_rfl
  membered d hd := by
    obtain ⟨device, hd⟩ := Table.contains_iff.mp ((Table.contains_map ..).symm.trans hd)
    exact ⟨device.ownerId, Table.contains_of_get? (get?_upgrade_owner hd now)⟩
  kept d hd := (Table.contains_map ..).trans hd
  created u d row hrow := .inr (get?_upgrade.mp hrow).1

theorem SharingStep.keeps_devices (h : SharingStep now db db') (hd : db.devices.contains d = true) :
    db'.devices.contains d = true := by
  cases h with
  | same _ devices => exact (devices d).trans hd
  | joined _ _ _ devices => exact (devices d).mpr (.inl hd)
  | removed _ _ _ _ devices => exact (devices d).trans hd

/-- Every device keeps a member, since the last one cannot be removed. -/
theorem SharingStep.membered (h : SharingStep now db db')
    (hm : ∀ d, db.devices.contains d = true → ∃ u, db.userDevices.contains (u, d) = true)
    (hd : db'.devices.contains d = true) : ∃ u, db'.userDevices.contains (u, d) = true := by
  cases h with
  | same members devices =>
    rw [members]
    exact hm d ((devices d).symm.trans hd)
  | joined u' d' members devices =>
    simp only [members, Table.contains_insert]
    rcases (devices d).mp hd with hd | rfl
    · obtain ⟨u, hu⟩ := hm d hd
      exact ⟨u, .inl hu⟩
    · exact ⟨u', .inr rfl⟩
  | removed u' d' others members devices =>
    simp only [members, Table.contains_delete]
    by_cases hdd : d = d'
    · subst hdd
      obtain ⟨⟨u, d''⟩, row, hne, hrow, hd''⟩ := Table.exists_ne_of_one_lt others (u', d)
      obtain rfl : d'' = d := of_decide_eq_true hd''
      exact ⟨u, Table.contains_of_get? hrow, hne⟩
    · obtain ⟨u, hu⟩ := hm d ((devices d).symm.trans hd)
      exact ⟨u, hu, fun h => hdd (congrArg Prod.snd h)⟩

theorem SharingStep.of_get? {row : UserDevice} {k : Uuid × Uuid} (h : SharingStep now db db')
    (hk : db'.userDevices.get? k = some row) : db.userDevices.get? k = some row ∨ row = ⟨now⟩ := by
  cases h with
  | same members => exact .inl (members ▸ hk)
  | joined u d members =>
    rw [members] at hk
    exact (Table.get?_of_insert hk).imp id And.right
  | removed u d _ members =>
    rw [members, Table.get?_delete] at hk
    split at hk
    · cases hk
    · exact .inl hk

/-- A membership that does not end keeps its row. -/
theorem SharingStep.get?_of_contains {row : UserDevice} {k : Uuid × Uuid}
    (h : SharingStep now db db') (hget : db.userDevices.get? k = some row)
    (hk : db'.userDevices.contains k = true) : db'.userDevices.get? k = some row := by
  obtain ⟨row', hrow'⟩ := Table.contains_iff.mp hk
  cases h with
  | same members => rw [members, hget]
  | joined u d members => rw [members, Table.get?_insert_of_some hget]
  | removed u d _ members =>
    rw [members, Table.get?_delete] at hrow' ⊢
    split at hrow'
    · cases hrow'
    · rw [if_neg ‹_›, hget]

theorem SharingEvent.apply_now (e : SharingEvent) :
    (e.apply E w).now = w.now + (e.dt + 1 : ℕ) := serve_now

theorem SharingEvent.sharingStep (e : SharingEvent) (hl : w.db.Linked) :
    SharingStep (e.apply E w).now w.db (e.apply E w).db := by
  rw [e.apply_now]
  obtain ⟨dt, credentials, route, draws⟩ := e
  cases route with
  | pairingChallenge body => exact pairing_step (w := w.tick (dt + 1)) hl
  | shareDevice d body => exact share_step (w := w.tick (dt + 1))
  | removeMember d u => exact remove_step (w := w.tick (dt + 1))

theorem Inherited.step (h : Inherited old now w) (e : SharingEvent) :
    Inherited old now (e.apply E w) := by
  have hstep := e.sharingStep (E := E) h.linked
  have hlt : now < (e.apply E w).now := by
    rw [e.apply_now]
    have hpos : (0 : Int) < (e.dt + 1 : ℕ) := Int.natCast_pos.mpr e.dt.succ_pos
    exact h.clock.trans_lt (Int.lt_add_of_pos_right _ hpos)
  constructor
  · exact serve_constraint Db.Linked.constraint (w := w.tick (e.dt + 1)) h.linked
  · exact hlt.le
  · exact fun d => hstep.membered h.membered
  · exact fun d hd => hstep.keeps_devices (h.kept d hd)
  · intro u d row hrow
    rcases hstep.of_get? hrow with hrow | rfl
    · exact h.created u d row hrow
    · exact .inl hlt

theorem Inherited.of_run {ok : World → SharingEvent → Prop}
    (H : Reach (SharingEvent.apply E) ok ⟨upgrade now old, redis, now⟩ w) : Inherited old now w :=
  H.invariant upgrade_inherited fun _ e h _ => h.step e

/-- The row of an owner who is never removed. -/
theorem owner_row {device : OwnedDevice} (hd : old.devices.get? d = some device)
    (H : Reach (SharingEvent.apply E) (fun w e => ¬ e.Removes E device.ownerId d w)
      ⟨upgrade now old, redis, now⟩ w) :
    w.db.userDevices.get? (device.ownerId, d) = some ⟨now⟩ := by
  have hinit := get?_upgrade_owner hd now
  refine (H.invariant (P := fun w => Inherited old now w ∧
    w.db.userDevices.get? (device.ownerId, d) = some ⟨now⟩) ⟨upgrade_inherited, hinit⟩ ?_).2
  rintro w e ⟨h, hrow⟩ hok
  refine ⟨h.step e, (e.sharingStep h.linked).get?_of_contains hrow ?_⟩
  by_contra hnot
  exact hok ⟨Table.contains_of_get? hrow, Bool.not_eq_true _ ▸ hnot⟩

/-- Without requests in between nothing is lost. -/
theorem downgrade_upgrade (hscan : scan.Perm (upgrade now old).userDevices.rows) :
    downgrade scan (upgrade now old) = .ok old := by
  have howner : ∀ e ∈ old.devices.rows,
      ownerFrom (firstMembers scan) e.1 = some e.2.ownerId := by
    rintro ⟨d, device⟩ he
    have hd := Table.get?_eq_some_iff.mpr he
    obtain ⟨u, hu⟩ := exists_ownerFrom hscan (Table.contains_of_get? (get?_upgrade_owner hd now))
    obtain ⟨row, hrow, _⟩ := ownerFrom_eq_some hscan hu
    obtain ⟨⟨device', hd', rfl⟩, _⟩ := get?_upgrade.mp hrow
    cases hd.symm.trans hd'
    exact hu
  have hdevices : restoreOwners (firstMembers scan) (upgrade now old).devices =
      some old.devices := by
    refine Table.mapM_eq_some.mpr ?_
    show List.map _ (List.map _ (List.map _ _)) = _
    rw [List.map_map, List.map_map]
    refine List.map_congr_left fun e he => ?_
    simp only [Function.comp_apply, howner e he]
    rfl
  have husers : (upgrade now old).users.map (fun _ u => u.dropPhone) = old.users := by
    refine Table.ext ?_
    show List.map _ (List.map _ _) = _
    rw [List.map_map]
    exact List.map_id _
  have hfkey : ∀ e ∈ old.devices.rows,
      ((upgrade now old).users.map fun _ u => u.dropPhone).contains e.2.ownerId = true := by
    rw [husers]
    exact old.owner_fkey
  simp only [downgrade, hdevices]
  rw [dif_pos hfkey]
  exact congrArg Except.ok (OldDb.ext husers rfl rfl rfl rfl rfl)

/-- **The way back.** After the upgrade and any requests the downgrade succeeds, every device has
one of its members as its owner, and a device of before has its old owner unless that user was
removed from it. -/
theorem downgrade_after (H : Reach (SharingEvent.apply E) (fun _ _ => True)
      ⟨upgrade now old, redis, now⟩ w) (hscan : scan.Perm w.db.userDevices.rows) :
    ∃ old', downgrade scan w.db = .ok old' ∧
      (∀ d, old'.devices.contains d = w.db.devices.contains d) ∧
      (∀ d device, old'.devices.get? d = some device →
        w.db.userDevices.contains (device.ownerId, d) = true) ∧
      (∀ d device, old.devices.get? d = some device →
        Reach (SharingEvent.apply E) (fun w e => ¬ e.Removes E device.ownerId d w)
          ⟨upgrade now old, redis, now⟩ w →
        ∃ device', old'.devices.get? d = some device' ∧ device'.ownerId = device.ownerId) ∧
      ∀ scan, scan.Perm (upgrade now old).userDevices.rows →
        downgrade scan (upgrade now old) = .ok old := by
  have hw := Inherited.of_run H
  obtain ⟨old', hold', hget⟩ := exists_downgrade hscan hw.linked hw.membered
  have howner {d : Uuid} {device : OwnedDevice} (hd : old'.devices.get? d = some device) :
      ownerFrom (firstMembers scan) d = some device.ownerId := by
    rw [hget, Option.bind_eq_some_iff] at hd
    obtain ⟨_, _, hd⟩ := hd
    obtain ⟨u, hu, rfl⟩ := Option.map_eq_some_iff.mp hd
    exact hu
  have hkeeps := (downgrade_keeps hold').2
  refine ⟨old', hold', hkeeps, fun d device hd => ?_, fun d device hd H' => ?_,
    fun scan => downgrade_upgrade⟩
  · obtain ⟨row, hrow, _⟩ := ownerFrom_eq_some hscan (howner hd)
    exact Table.contains_of_get? hrow
  · have hkept := hw.kept d (Table.contains_of_get? hd)
    obtain ⟨device', hd'⟩ := Table.contains_iff.mp ((hkeeps d).trans hkept)
    refine ⟨device', hd', ?_⟩
    obtain ⟨row, hrow, hle⟩ := ownerFrom_eq_some hscan (howner hd')
    -- The row of the old owner is the oldest one, so the earliest member is that owner.
    have hnow : row.createdAt ≤ now := hle _ _ (owner_row hd H')
    rcases hw.created _ d row hrow with hlt | ⟨device₀, hd₀, heq⟩
    · exact absurd hnow (not_le.mpr hlt)
    · cases hd.symm.trans hd₀
      exact heq.symm

end

/-- Two users, and device 7 of Alice. -/
def Sample.oldDb : OldDb where
  users := (Table.empty.insert 1 ⟨"alice@rawbin.io", "$password", "alice@rawbin.io", none, true,
    0⟩).insert 2
    ⟨"bob@rawbin.io", "$password", "bob@rawbin.io", none, true, 0⟩
  refreshTokens := .empty
  devices := Table.empty.insert 7 ⟨⟨"uid", "f", "bin", false, none, 0⟩, 1⟩
  sensorReadings := .empty
  alertEvents := .empty
  deviceConfigs := .empty
  owner_fkey := by decide

/-- Alice shares device 7 with Bob after the upgrade. -/
def shareAfterUpgrade : SharingEvent :=
  ⟨0, Sample.jwtEncode ⟨1, .access, 0, 0, 0⟩, .shareDevice 7 ⟨"bob@rawbin.io"⟩, Sample.draws 0⟩

theorem shareAfterUpgrade_restored : ∃ w old', Reach (SharingEvent.apply Sample.env)
      (fun _ _ => True) ⟨upgrade 0 Sample.oldDb, .empty, 0⟩ w ∧
    w.db.userDevices.contains (2, 7) = true ∧ downgrade w.db.userDevices.rows w.db = .ok old' ∧
    (old'.devices.get? 7).map (·.ownerId) = some 1 := by
  have H : Reach (SharingEvent.apply Sample.env) (fun _ _ => True)
      ⟨upgrade 0 Sample.oldDb, .empty, 0⟩ _ := Reach.refl.step (e := shareAfterUpgrade) trivial
  have hmember : (shareAfterUpgrade.apply Sample.env
      ⟨upgrade 0 Sample.oldDb, .empty, 0⟩).db.userDevices.contains (2, 7) = true := by
    decide +kernel
  have howner : (shareAfterUpgrade.apply Sample.env
      ⟨upgrade 0 Sample.oldDb, .empty, 0⟩).db.userDevices.contains (1, 7) = true := by
    decide +kernel
  obtain ⟨old', hold', _, _, hrestored, _⟩ := downgrade_after H (List.Perm.refl _)
  obtain ⟨device, hd, hdevice⟩ := hrestored 7 ⟨⟨"uid", "f", "bin", false, none, 0⟩, 1⟩ rfl
    (Reach.refl.step fun h => absurd (howner.symm.trans h.2) nofun)
  exact ⟨_, old', H, hmember, hold', by rw [hd, Option.map_some, hdevice]⟩

end Rawbin
