import Mathlib.Data.List.Sort
import Rawbin.Verify.PlainRoutes
import Rawbin.Verify.Sequential

/-!
# Four views of one relation

Who is a member of a device is asked in four ways: the members of a device and the devices of a
user are joins in opposite directions, `is_member` looks for one row, and `member_count` counts
rows. They agree because the rows refer to existing users and devices and no pair occurs twice.
-/

namespace Rawbin

/-- The foreign keys of `user_devices`. -/
structure Db.Linked (db : Db) : Prop where
  user : ∀ u d, db.userDevices.contains (u, d) = true → db.users.contains u = true
  device : ∀ u d, db.userDevices.contains (u, d) = true → db.devices.contains d = true

theorem Db.Linked.constraint : Db.Constraint Db.Linked := by
  intro wr db hv h
  cases wr with
  | insertUserDevice u d row =>
    obtain ⟨_, hu, hd⟩ := Write.insertUserDevice_violates_iff.mp hv
    constructor
    · intro u' d' hlink
      rcases (Table.contains_insert ..).mp hlink with hlink | hlink
      · exact h.user u' d' hlink
      · cases hlink
        exact hu
    · intro u' d' hlink
      rcases (Table.contains_insert ..).mp hlink with hlink | hlink
      · exact h.device u' d' hlink
      · cases hlink
        exact hd
  | deleteUserDevice u d =>
    exact ⟨fun u' d' hlink => h.user u' d' ((Table.contains_delete ..).mp hlink).1,
      fun u' d' hlink => h.device u' d' ((Table.contains_delete ..).mp hlink).1⟩
  | insertUser id row =>
    exact ⟨fun u d hlink => (Table.contains_insert ..).mpr (.inl (h.user u d hlink)), h.device⟩
  | updateUser id patch =>
    exact ⟨fun u d hlink => (Table.contains_update ..).trans (h.user u d hlink), h.device⟩
  | insertDevice id row =>
    exact ⟨h.user, fun u d hlink => (Table.contains_insert ..).mpr (.inl (h.device u d hlink))⟩
  | updateDevice id patch =>
    exact ⟨h.user, fun u d hlink => (Table.contains_update ..).trans (h.device u d hlink)⟩
  | _ => exact ⟨h.user, h.device⟩

/-- What a part of a route comes to, run on its own. -/
def Handler.result (h : Handler α) (w : World) : Except Exn α :=
  (machine.runConst .ok (h []) .idle w).1.map Prod.fst

/-- The four views of the members of a device. -/
structure ViewsAgree (w : World) (d : Uuid) (rows : List MemberRow) : Prop where
  members : (memberList d).result w = .ok rows
  once : (rows.map MemberRow.id).Nodup
  count : (DeviceAccess.memberCount d).result w = .ok rows.length
  access : ∀ u, u ∈ rows.map MemberRow.id ↔
    ∃ device, (DeviceAccess.assertDeviceMember d u).result w = .ok device
  devices : ∀ u user, ∃ devices, (listDevices ⟨u, user⟩).result w =
    .ok ⟨200, .devices devices, []⟩ ∧
    (devices.map DeviceResponse.id).Nodup ∧
    (u ∈ rows.map MemberRow.id ↔ d ∈ devices.map DeviceResponse.id)

section
variable {w : World} {d u : Uuid}

theorem perm_orderBy {α κ : Type} [LinearOrder κ] (key : α → κ) (desc : Bool) (l : List α) :
    (orderBy key desc l).Perm l := by
  rw [orderBy]
  split
  · exact List.perm_insertionSort ..
  · exact List.perm_insertionSort ..

/-! The keys that the queries find. -/

theorem members_perm (db : Db) (d : Uuid) : (((Query.members d).eval db).map MemberRow.id).Perm
    ((db.users.select fun u _ => db.userDevices.contains (u, d)).map Prod.fst) := by
  simp only [Query.eval, List.map_map]
  exact (perm_orderBy ..).map _

theorem devicesOfUser_perm (db : Db) (u : Uuid) :
    (((Query.devicesOfUser u).eval db).map Prod.fst).Perm
      ((db.devices.select fun d _ => db.userDevices.contains (u, d)).map Prod.fst) :=
  (perm_orderBy ..).map _

theorem mem_members_iff {db : Db} (h : db.Linked) :
    u ∈ ((Query.members d).eval db).map MemberRow.id ↔
      db.userDevices.contains (u, d) = true := by
  rw [(members_perm db d).mem_iff, Table.mem_keys_select (p := fun u =>
    db.userDevices.contains (u, d))]
  exact ⟨And.right, fun hlink => ⟨h.user u d hlink, hlink⟩⟩

theorem mem_devicesOfUser_iff {db : Db} (h : db.Linked) :
    d ∈ ((Query.devicesOfUser u).eval db).map Prod.fst ↔
      db.userDevices.contains (u, d) = true := by
  rw [(devicesOfUser_perm db u).mem_iff,
    Table.mem_keys_select (p := fun d => db.userDevices.contains (u, d))]
  exact ⟨And.right, fun hlink => ⟨h.device u d hlink, hlink⟩⟩

theorem membersOf_perm {db : Db} (h : db.Linked) :
    (((db.membersOf d).map Prod.fst).map Prod.fst).Perm
      (((Query.members d).eval db).map MemberRow.id) := by
  have hkeys : ((db.membersOf d).map Prod.fst).Nodup := Table.nodup_select ..
  have hmem {k : Uuid × Uuid} : k ∈ (db.membersOf d).map Prod.fst ↔
      db.userDevices.contains k = true ∧ k.2 = d :=
    (Table.mem_keys_select (p := fun k : Uuid × Uuid => decide (k.2 = d))).trans
      (and_congr_right' decide_eq_true_iff)
  rw [List.perm_ext_iff_of_nodup]
  · intro u
    rw [mem_members_iff h, List.mem_map]
    constructor
    · rintro ⟨⟨u, d'⟩, hk, rfl⟩
      obtain ⟨hlink, rfl⟩ := hmem.mp hk
      exact hlink
    · exact fun hlink => ⟨(u, d), hmem.mpr ⟨hlink, rfl⟩, rfl⟩
  · refine List.Nodup.map_on ?_ hkeys
    intro k hk k' hk' heq
    exact Prod.ext heq ((hmem.mp hk).2.trans (hmem.mp hk').2.symm)
  · exact (members_perm db d).nodup_iff.mpr (Table.nodup_select ..)

theorem assertDeviceMember_result : (∃ device, (DeviceAccess.assertDeviceMember d u).result w =
    .ok device) ↔ ∃ device, DeviceMember d u device w := by
  have h : Ends (fun r _ _ => (∃ device, r.map Prod.fst = .ok device) ↔
      ∃ device, DeviceMember d u device w) .idle w
      ((DeviceAccess.assertDeviceMember d u []).bind .pure) := by
    refine assertDeviceMember_ends rfl (fun t hnone => ?_) fun t device ht hm => ?_
    · exact ⟨nofun, fun ⟨device, hm⟩ => absurd hm (hnone device)⟩
    · exact ⟨fun _ => ⟨device, hm⟩, fun _ => ⟨device, rfl⟩⟩
  rw [Prog.bind_pure] at h
  exact h

theorem Db.Linked.viewsAgree (h : w.db.Linked) (d : Uuid) :
    ViewsAgree w d ((Query.members d).eval w.db) where
  members := rfl
  once := (members_perm w.db d).nodup_iff.mpr (Table.nodup_select ..)
  count := by
    have hlen := (membersOf_perm (d := d) h).length_eq
    rw [List.length_map, List.length_map, List.length_map] at hlen
    show Except.ok (w.db.membersOf d).length = _
    rw [hlen]
  access u := by
    rw [mem_members_iff h, assertDeviceMember_result]
    constructor
    · intro hlink
      obtain ⟨device, hd⟩ := Table.contains_iff.mp (h.device u d hlink)
      exact ⟨device, hd, hlink⟩
    · rintro ⟨_, _, hlink⟩
      exact hlink
  devices u user := by
    refine ⟨_, rfl, ?_, ?_⟩
    · rw [List.map_map]
      exact (devicesOfUser_perm w.db u).nodup_iff.mpr (Table.nodup_select ..)
    · rw [mem_members_iff h, ← mem_devicesOfUser_iff h, List.map_map]
      rfl

end

/-! ## Sharing and removing -/

/-- The requests that change the members of a device. -/
inductive MemberRequest where
  | share (credentials email : String) (draws : Draws)
  | remove (credentials : String) (userId : Uuid) (draws : Draws)

namespace MemberRequest

def toRequest (d : Uuid) : MemberRequest → Request
  | .share credentials email draws => .user credentials (.shareDevice d ⟨email⟩) draws
  | .remove credentials u draws => .user credentials (.removeMember d u) draws

/-- The user whose membership it is about. -/
def about (db : Db) : MemberRequest → Option Uuid
  | .share _ email _ => ((Query.userByEmail email).eval db).map Prod.fst
  | .remove _ u _ => some u

def shares : MemberRequest → Bool
  | .share .. => true
  | .remove .. => false

end MemberRequest

/-- The users are the same, and the members are those of before, except that user `u` is a member of
device `d` iff `member` says so. -/
structure MemberSet (d u : Uuid) (member : Bool) (db db' : Db) : Prop where
  users : db'.users = db.users
  links : ∀ k, db'.userDevices.contains k =
    if k = (u, d) then member else db.userDevices.contains k

namespace MemberSet

variable {db db' : Db} {d u : Uuid} {member : Bool}

theorem refl (h : db.userDevices.contains (u, d) = member) : MemberSet d u member db db := by
  refine ⟨rfl, fun k => ?_⟩
  split
  · rename_i hk
    rw [hk, h]
  · rfl

theorem insert (row : UserDevice) :
    MemberSet d u true db ((Write.insertUserDevice u d row).apply db) := by
  refine ⟨rfl, fun k => ?_⟩
  rw [Write.apply, Bool.eq_iff_iff, Table.contains_insert]
  split
  · exact iff_of_true (.inr ‹_›) rfl
  · exact or_iff_left ‹_›

theorem delete : MemberSet d u false db ((Write.deleteUserDevice u d).apply db) := by
  refine ⟨rfl, fun k => ?_⟩
  rw [Write.apply, Bool.eq_iff_iff, Table.contains_delete]
  split
  · exact iff_of_false (fun h => h.2 ‹_›) Bool.false_ne_true
  · exact and_iff_left ‹_›

end MemberSet

/-- What a share or a removal comes to. -/
def MemberOutcome (d : Uuid) (r : MemberRequest) (w : World) (response : Response) (w' : World) :
    Prop :=
  response.isSuccess = true → ∃ u, r.about w.db = some u ∧ MemberSet d u r.shares w.db w'.db

section
variable {E : Env} {w : World} {d u : Uuid}

theorem MemberOutcome.error {r : MemberRequest} {e : Exn} {w' : World} (he : e.Refuses) :
    MemberOutcome d r w e.response w' := fun h => absurd h (by rw [he]; nofun)

theorem addMember_cases {Q : Except Exn γ → Session → World → Prop} {t : Session}
    {k : Bool × List Write → Prog Cmd Exn γ} (ht : t.written = [])
    (hold : ∀ t', w.db.userDevices.contains (u, d) = true → t'.written = [] →
      Ends Q t' w (k (false, [])))
    (hnew : ∀ t' row, w.db.userDevices.contains (u, d) = false →
      t'.view w.db = (Write.insertUserDevice u d row).apply w.db → Ends Q t' w (k (true, [])))
    (herr : ∀ t' e, e.Refuses → Q (.error e) t' w) :
    Ends Q t w ((DeviceAccess.addMember d u []).bind k) := by
  have hview := Session.view_of_nil ht w.db
  refine addMember_begin (fun hm => hold _ (hview ▸ hm) ht) (fun hm => ?_) fun t' _ e he =>
    herr t' e (Write.refuses he)
  refine hnew _ ⟨t.began.getD w.now⟩ (hview ▸ hm) ?_
  rw [Session.view_snoc, hview]

theorem share_outcome {credentials email : String} {draws : Draws} :
    let r : MemberRequest := .share credentials email draws
    MemberOutcome d r w (serve E (r.toRequest d) w).1 (serve E (r.toRequest d) w).2 := by
  intro r
  refine serve_ends (P := MemberOutcome d r w) ?_
  refine getCurrentUser_ends rfl (fun t _ => MemberOutcome.error rfl) fun t caller user ht _ => ?_
  refine assertDeviceMember_ends ht (fun t _ => MemberOutcome.error rfl) fun t device ht _ => ?_
  refine select_ends ht fun t ht => ?_
  cases hu : (Query.userByEmail email).eval w.db with
  | none => exact MemberOutcome.error rfl
  | some target =>
    have habout : r.about w.db = some target.1 := congrArg (Option.map Prod.fst) hu
    simp only [Handler.bind_apply, Prog.pure_bind]
    refine addMember_cases ht (fun t hm ht => query_ends ?_) (fun t row hm hview => query_ends ?_)
      fun t e he => MemberOutcome.error he
    · intro _
      refine ⟨target.1, habout, ?_⟩
      show MemberSet d target.1 true w.db (t.view w.db)
      rw [Session.view_of_nil ht]
      exact .refl hm
    · intro _
      refine ⟨target.1, habout, ?_⟩
      show MemberSet d target.1 true w.db (t.view w.db)
      rw [hview]
      exact .insert row

theorem remove_outcome {credentials : String} {draws : Draws} :
    let r : MemberRequest := .remove credentials u draws
    MemberOutcome d r w (serve E (r.toRequest d) w).1 (serve E (r.toRequest d) w).2 := by
  intro r
  refine serve_ends (P := MemberOutcome d r w) ?_
  refine getCurrentUser_ends rfl (fun t _ => MemberOutcome.error rfl) fun t caller user ht _ => ?_
  refine assertDeviceMember_ends ht (fun t _ => MemberOutcome.error rfl) fun t device ht _ => ?_
  refine select_ends ht fun t ht => raiseIf_ends (fun _ => MemberOutcome.error rfl) fun _ => ?_
  refine select_ends ht fun t ht => ?_
  cases hlink : (Query.userDevice d u).eval w.db with
  | none =>
    intro _
    refine ⟨u, rfl, ?_⟩
    show MemberSet d u false w.db (t.view w.db)
    rw [Session.view_of_nil ht]
    have hnone : w.db.userDevices.get? (u, d) = none := hlink
    exact .refl (by rw [Table.contains, hnone]; rfl)
  | some link =>
    intro _
    refine ⟨u, rfl, ?_⟩
    show MemberSet d u false w.db (w.settle t [.deleteUserDevice u d]).db
    rw [World.settle_one ht rfl]
    exact .delete

theorem MemberRequest.outcome (r : MemberRequest) :
    MemberOutcome d r w (serve E (r.toRequest d) w).1 (serve E (r.toRequest d) w).2 := by
  cases r with
  | share => exact share_outcome
  | remove => exact remove_outcome

/-- After `add_member` the user is a member. -/
theorem addMember_ends_member {t : Session} : Ends (fun res t' w' => w' = w ∧ ∀ b, res = .ok b →
    (t'.view w.db).userDevices.contains (u, d) = true) t w (DeviceAccess.addMember d u []) := by
  rw [← Prog.bind_pure (DeviceAccess.addMember d u [])]
  refine addMember_begin (fun hm => ⟨rfl, fun _ _ => hm⟩) (fun _ => ⟨rfl, fun _ _ => ?_⟩)
    fun _ _ _ _ => ⟨rfl, nofun⟩
  show ((Session.mk (t.written ++ [.insertUserDevice u d _]) _).view w.db).userDevices.contains
    (u, d) =
    true
  rw [Session.view_snoc, Write.apply, Table.contains_insert]
  exact .inr rfl

/-- `add_member` of a member does nothing. -/
theorem addMember_ends_same {t : Session}
    (h : (t.view w.db).userDevices.contains (u, d) = true) :
    Ends (fun res t' w' => res = .ok (false, []) ∧ t'.written = t.written ∧ w' = w) t w
      (DeviceAccess.addMember d u []) := by
  rw [DeviceAccess.addMember, Handler.bind_apply]
  refine query_ends ?_
  simp only [Query.eval, h, if_true]
  exact ⟨rfl, rfl, rfl⟩

/-- `add_member`, twice. -/
theorem addMember_twice {t t' : Session} {b : Bool} {w' : World}
    (h : machine.runConst .ok (DeviceAccess.addMember d u []) t w = (.ok (b, []), t', w')) :
    ∃ t'', machine.runConst .ok (DeviceAccess.addMember d u []) t' w' = (.ok (false, []), t'', w') ∧
      t''.written = t'.written := by
  obtain ⟨hw, hmember⟩ := addMember_ends_member (w := w) (d := d) (u := u) (t := t)
  rw [h] at hw hmember
  obtain rfl : w' = w := hw
  obtain ⟨hres, hwritten, hw⟩ := addMember_ends_same (w := w') (hmember _ rfl)
  exact ⟨_, Prod.ext hres (Prod.ext rfl hw), hwritten⟩

end

/-! ## Runs -/

inductive ServerEvent where
  | request (r : Request)
  | tick (dt : Nat)

def ServerEvent.apply (E : Env) : ServerEvent → World → World
  | .request r, w => (serve E r w).2
  | .tick dt, w => w.tick dt

theorem run_constraint {E : Env} {w w₀ : World} {P : Db → Prop} (hP : Db.Constraint P)
    (h₀ : P w₀.db) (H : Reach (ServerEvent.apply E) (fun _ _ => True) w₀ w) : P w.db := by
  refine H.invariant (P := fun w => P w.db) h₀ fun w e h _ => ?_
  cases e with
  | request r => exact serve_constraint hP h
  | tick dt => exact h

/-- The request is served after some time. -/
def MemberRequest.after (E : Env) (d : Uuid) (dt : Nat) (r : MemberRequest) (w : World) :
    Response × World := serve E (r.toRequest d) (w.tick dt)

section
variable {E : Env} {w : World} {d u u' : Uuid} {r r' : MemberRequest} {dt dt' : Nat}

theorem MemberRequest.after_outcome (h : (r.after E d dt w).1.isSuccess = true)
    (hu : r.about w.db = some u) : MemberSet d u r.shares w.db (r.after E d dt w).2.db := by
  obtain ⟨u', hu', hset⟩ := r.outcome (E := E) (d := d) (w := w.tick dt) h
  cases hu.symm.trans hu'
  exact hset

theorem MemberRequest.about_congr {db db' : Db} (h : db'.users = db.users) (r : MemberRequest) :
    r.about db' = r.about db := by
  cases r with
  | share credentials email draws => simp only [about, Query.eval, h]
  | remove => rfl

/-- Two requests one after the other. -/
theorem MemberRequest.after_both (hu : r.about w.db = some u) (hu' : r'.about w.db = some u')
    (h : (r.after E d dt w).1.isSuccess = true)
    (h' : (r'.after E d dt' (r.after E d dt w).2).1.isSuccess = true) (k : Uuid × Uuid) :
    (r'.after E d dt' (r.after E d dt w).2).2.db.userDevices.contains k =
      if k = (u', d) then r'.shares else if k = (u, d) then r.shares
      else w.db.userDevices.contains k := by
  have hset := after_outcome h hu
  rw [(after_outcome h' ((r'.about_congr hset.users).trans hu')).links, hset.links]

/-- **Membership.** After any requests, the four views of the members of a device agree; adding a
member twice is adding it once; sharing with somebody and removing them again gives the members of
before; and two shares or removals of different users give the same members in both orders. -/
theorem membership_views {w₀ : World} (h₀ : w₀.db.Linked)
    (H : Reach (ServerEvent.apply E) (fun _ _ => True) w₀ w) :
    (∀ d, ∃ rows, ViewsAgree w d rows) ∧
    (∀ d u t b t' w', machine.runConst .ok (DeviceAccess.addMember d u []) t w =
        (.ok (b, []), t', w') →
      ∃ t'', machine.runConst .ok (DeviceAccess.addMember d u []) t' w' =
        (.ok (false, []), t'', w') ∧ t''.written = t'.written) ∧
    (∀ (d u : Uuid) (r r' : MemberRequest) (dt dt' : Nat), r.about w.db = some u →
      r'.about w.db = some u → r.shares = true → r'.shares = false →
      w.db.userDevices.contains (u, d) = false → (r.after E d dt w).1.isSuccess = true →
      (r'.after E d dt' (r.after E d dt w).2).1.isSuccess = true →
      ∀ k, (r'.after E d dt' (r.after E d dt w).2).2.db.userDevices.contains k =
        w.db.userDevices.contains k) ∧
    ∀ (d u u' : Uuid) (r r' : MemberRequest) (dt dt' : Nat), u ≠ u' → r.about w.db = some u →
      r'.about w.db = some u' →
      (r.after E d dt w).1.isSuccess = true →
      (r'.after E d dt' (r.after E d dt w).2).1.isSuccess = true →
      (r'.after E d dt w).1.isSuccess = true →
      (r.after E d dt' (r'.after E d dt w).2).1.isSuccess = true →
      ∀ k, (r'.after E d dt' (r.after E d dt w).2).2.db.userDevices.contains k =
        (r.after E d dt' (r'.after E d dt w).2).2.db.userDevices.contains k := by
  have hlinked : w.db.Linked := run_constraint Db.Linked.constraint h₀ H
  refine ⟨fun d => ⟨_, hlinked.viewsAgree d⟩, fun d u t b t' w' => addMember_twice, ?_, ?_⟩
  · intro d u r r' dt dt' hu hu' hshare hremove hnone h h' k
    rw [MemberRequest.after_both hu hu' h h', hshare, hremove]
    split
    · rename_i hk
      rw [hk, hnone]
    · rfl
  · intro d u u' r r' dt dt' hne hu hu' h₁ h₁' h₂ h₂' k
    rw [MemberRequest.after_both hu hu' h₁ h₁', MemberRequest.after_both hu' hu h₂ h₂']
    by_cases hk : k = (u, d)
    · have hk' : k ≠ (u', d) := fun h => hne (congrArg Prod.fst (hk.symm.trans h))
      rw [if_neg hk', if_pos hk, if_pos hk]
    · simp only [if_neg hk]

end

theorem deviceWorld_linked : Sample.deviceWorld.db.Linked := by
  have h (u d : Uuid) (hlink : Sample.deviceWorld.db.userDevices.contains (u, d) = true) :
      (u, d) = (1, 7) := by
    rcases (Table.contains_insert ..).mp hlink with hlink | hlink
    · cases hlink
    · exact hlink
  constructor
  · intro u d hlink
    cases h u d hlink
    rfl
  · intro u d hlink
    cases h u d hlink
    rfl

/-- Alice shares device 7 with Bob. -/
def shareWithBob : Request :=
  .user (Sample.jwtEncode ⟨1, .access, 0, 0, 0⟩) (.shareDevice 7 ⟨"bob@rawbin.io"⟩) (Sample.draws 0)

theorem shareWithBob_views : ∃ w rows, Reach (ServerEvent.apply Sample.env) (fun _ _ => True)
      Sample.deviceWorld w ∧ ViewsAgree w 7 rows ∧ rows.map MemberRow.id = [1, 2] := by
  have H : Reach (ServerEvent.apply Sample.env) (fun _ _ => True) Sample.deviceWorld _ :=
    Reach.refl.step (e := .request shareWithBob) trivial
  obtain ⟨rows, hrows⟩ := (membership_views deviceWorld_linked H).1 7
  have hmembers : ((memberList 7).result ((ServerEvent.request shareWithBob).apply Sample.env
      Sample.deviceWorld)).map (List.map MemberRow.id) = .ok [1, 2] := by decide +kernel
  refine ⟨_, rows, H, hrows, ?_⟩
  rw [hrows.members] at hmembers
  exact Except.ok.inj hmembers

end Rawbin
