import Rawbin.Verify.LocalAssertions

/-!
# Every device has a member

A device is created together with its first member, in one transaction. A removal counts the
members, then deletes one in a later statement; the rows of two members are different locks, so
nothing makes two removals wait for each other.
-/

namespace Rawbin

namespace Write

/-- The statement neither creates a device nor touches a membership. -/
def isAside : Write → Bool
  | .insertDevice .. | .insertUserDevice .. | .deleteUserDevice .. => false
  | _ => true

def isLink : Write → Bool
  | .insertUserDevice .. => true
  | _ => false

theorem apply_userDevices {w : Write} (h : w.isAside = true) (db : Db) :
    (w.apply db).userDevices = db.userDevices := by
  cases w with
  | insertUserDevice | deleteUserDevice => cases h
  | _ => rfl

/-- No statement removes a device. -/
theorem apply_devices_contains (w : Write) (db : Db) (d : Uuid) :
    (w.apply db).devices.contains d = true ↔
      db.devices.contains d = true ∨ ∃ row, w = .insertDevice d row := by
  cases w with
  | insertDevice id row =>
    simp only [apply, Table.contains_insert]
    refine or_congr_right ⟨fun h => ⟨row, h ▸ rfl⟩, ?_⟩
    rintro ⟨_, ⟨⟩⟩
    rfl
  | updateDevice id patch => simp [apply, Table.contains_update]
  | _ => simp [apply]

/-- A link to a device is there before a statement or is put there by it. -/
theorem apply_userDevices_contains {w : Write} {db : Db} {u d : Uuid}
    (h : (w.apply db).userDevices.contains (u, d) = true) :
    db.userDevices.contains (u, d) = true ∨ ∃ row, w = .insertUserDevice u d row := by
  cases w with
  | insertUserDevice u' d' row =>
    rcases (Table.contains_insert ..).mp h with h | h
    · exact .inl h
    · cases h; exact .inr ⟨row, rfl⟩
  | deleteUserDevice u' d' => exact .inl ((Table.contains_delete ..).mp h).1
  | _ => exact .inl h

end Write

namespace Session

theorem view_devices_contains (t : Session) (db : Db) (d : Uuid) :
    (t.view db).devices.contains d = true ↔
      db.devices.contains d = true ∨ ∃ row, .insertDevice d row ∈ t.written := by
  rw [view]
  induction t.written generalizing db with
  | nil => simp
  | cons w ws ih =>
    rw [List.foldl_cons, ih, Write.apply_devices_contains, or_assoc]
    refine or_congr_right ⟨?_, ?_⟩
    · rintro (⟨row, rfl⟩ | ⟨row, h⟩)
      · exact ⟨row, List.mem_cons_self⟩
      · exact ⟨row, List.mem_cons_of_mem _ h⟩
    · rintro ⟨row, h⟩
      rcases List.mem_cons.mp h with h | h
      · exact .inl ⟨row, h.symm⟩
      · exact .inr ⟨row, h⟩

theorem view_userDevices_contains {t : Session} {db : Db} {u d : Uuid}
    (h : (t.view db).userDevices.contains (u, d) = true) :
    db.userDevices.contains (u, d) = true ∨ ∃ row, .insertUserDevice u d row ∈ t.written := by
  rw [view] at h
  generalize t.written = ws at h ⊢
  induction ws generalizing db with
  | nil => exact .inl h
  | cons w ws ih =>
    rcases ih h with h | ⟨row, h⟩
    · refine (Write.apply_userDevices_contains h).imp_right ?_
      rintro ⟨row, h⟩
      exact ⟨row, h ▸ List.mem_cons_self⟩
    · exact .inr ⟨row, List.mem_cons_of_mem _ h⟩

end Session

/-! ## What the four routes commit -/

/-- The statements of a transaction at its commit. In the third case the job found its new device
linked to its user already. -/
inductive MemberWrites (log : Log) : List Write → Prop where
  | aside (h : ∀ w ∈ ws, w.isAside = true) : MemberWrites log ws
  | create (d u : Uuid) (h : ∀ w ∈ ws, w.isAside = true) :
    MemberWrites log (.insertDevice d row :: .insertUserDevice u d link :: ws)
  | linked (d u : Uuid) (v : Uuid) (hl : ⟨_, .select (.member d u), some v⟩ ∈ log)
    (h : ∀ w ∈ ws, w.isAside = true) : MemberWrites log (.insertDevice d row :: ws)
  | share (d u : Uuid) : MemberWrites log [.insertUserDevice u d link]
  | remove (d u : Uuid) : MemberWrites log [.deleteUserDevice u d]

def readsMember (c : Cmd β) : Bool :=
  match c with
  | .select (.member _ _) => true
  | _ => false

/-- A job looks for a membership before it adds one, and commits one of the above. -/
def MemberAssertion : Assertion := fun log ws c =>
  c.plain = true ∧ (readsMember c = true → ∀ w ∈ ws, w.isLink = false) ∧
    (c.isCommit = true → MemberWrites log ws)

/-- Most commands neither look for a membership nor commit. -/
theorem MemberAssertion.quiet {c : Cmd β} {log : Log} {ws : List Write} (hc : c.plain = true)
    (hr : readsMember c = false) (hcommit : c.isCommit = false) : MemberAssertion log ws c :=
  ⟨hc, fun h => absurd (hr.symm.trans h) Bool.false_ne_true,
    fun h => absurd (hcommit.symm.trans h) Bool.false_ne_true⟩

theorem MemberAssertion.routine : Assertion.Routine MemberAssertion where
  select _ _ _ := ⟨rfl, fun _ _ h => absurd h List.not_mem_nil, nofun⟩
  execute _ _ _ := .quiet rfl rfl rfl
  utcnow _ _ := .quiet rfl rfl rfl
  txnow _ _ := .quiet rfl rfl rfl
  respond _ _ _ := .quiet rfl rfl rfl
  rollback _ _ := .quiet rfl rfl rfl

section
variable {E : Env} {user : CurrentUser} {draws : Draws} {log : Log} {Q : Ending γ}

/-- What a route leaves behind when no pending statement is about members. -/
theorem MemberWrites.leaves {ws pending : List Write}
    (h : ∀ log' rest, log.Extends log' → (∀ w ∈ rest, w.isAside = true) →
      MemberWrites log' (ws ++ rest))
    (hp : ∀ w ∈ pending, w.isAside = true) :
    Leaves MemberWrites log ws (.ok (response, pending)) :=
  .of_pending fun log' sub hl hs => h log' sub hl fun w hw => hp w (hs.subset hw)

theorem MemberWrites.leaves_create {pending : List Write} {d u : Uuid}
    (hp : ∀ w ∈ pending, w.isAside = true) :
    Leaves MemberWrites log [.insertDevice d row, .insertUserDevice u d link]
      (.ok (response, pending)) := leaves (fun _ _ _ h => .create d u h) hp

theorem MemberWrites.leaves_linked {pending : List Write} {d u v : Uuid}
    (hv : ⟨_, .select (.member d u), some v⟩ ∈ log) (hp : ∀ w ∈ pending, w.isAside = true) :
    Leaves MemberWrites log [.insertDevice d row] (.ok (response, pending)) :=
  leaves (fun _ _ hl h => .linked d u v (hl.subset hv) h) hp

theorem MemberWrites.leaves_aside {pending : List Write} (hp : ∀ w ∈ pending, w.isAside = true) :
    Leaves MemberWrites log [] (.ok (response, pending)) := leaves (fun _ _ _ h => .aside h) hp

/-- A membership is added after it was not found, or was there. -/
theorem addMember_links {ws : List Write} {d u : Uuid} {k : Bool × List Write → Prog Cmd Exn γ}
    (hws : ∀ w ∈ ws, w.isLink = false) (herr : ∀ log e, Q log ws (.error e))
    (hsame : ∀ log' v, ⟨_, .select (.member d u), some v⟩ ∈ log' →
      Keeps MemberAssertion Q log' ws (k (false, [])))
    (hadd : ∀ log' link, Keeps MemberAssertion Q log' (ws ++ [.insertUserDevice u d link])
      (k (true, []))) :
    Keeps MemberAssertion Q log ws ((DeviceAccess.addMember d u []).bind k) := by
  rw [DeviceAccess.addMember, Handler.bind_apply, Prog.bind_assoc]
  refine isMember_keeps ⟨rfl, fun _ => hws, (absurd · Bool.false_ne_true)⟩ fun link => ?_
  cases link with
  | some v => exact hsame _ v (by simp)
  | none =>
    refine .txnow (.quiet rfl rfl rfl) fun now => ?_
    exact .execute (.quiet rfl rfl rfl) (fun _ => .raise (herr ..))
      (fun _ h => absurd h Bool.false_ne_true) (hadd _ _)

theorem createDemoDevice_links : Keeps MemberAssertion (Leaves MemberWrites) log []
    (createDemoDevice E user draws []) := by
  refine .txnow (MemberAssertion.routine.txnow ..) fun createdAt => ?_
  refine .execute (MemberAssertion.routine.execute ..) (fun e => .raise Leaves.error)
    (fun _ h => nomatch h) ?_
  refine addMember_links (by simp [Write.isLink]) (fun _ _ => Leaves.error) (fun log' v hv => ?_)
    fun log' link => ?_
  · refine .utcnow (.quiet rfl rfl rfl) fun now => .pure ?_
    refine .leaves_linked (List.mem_append_left _ hv) ?_
    exact fun w hw => List.mem_singleton.mp hw ▸ rfl
  · refine .utcnow (.quiet rfl rfl rfl) fun now => .pure (.leaves_create ?_)
    exact fun w hw => List.mem_singleton.mp hw ▸ rfl

theorem challengedDevice_links {body : PairingChallengeRequest}
    {k : Uuid × List Write → Prog Cmd Exn γ}
    (herr : ∀ log ws e, Q log ws (.error e))
    (haside : ∀ log' d pending, (∀ w ∈ pending, w.isAside = true) →
      Keeps MemberAssertion Q log' [] (k (d, pending)))
    (hlinked : ∀ log' d u v row, ⟨_, .select (.member d u), some v⟩ ∈ log' →
      Keeps MemberAssertion Q log' [.insertDevice d row] (k (d, [])))
    (hcreate : ∀ log' d u row link,
      Keeps MemberAssertion Q log' [.insertDevice d row, .insertUserDevice u d link] (k (d, []))) :
    Keeps MemberAssertion Q log [] ((challengedDevice E body user draws []).bind k) := by
  refine .select (MemberAssertion.routine.select ..) fun db => ?_
  cases (Query.deviceByHardwareUid body.hardwareUid).eval db with
  | none =>
    refine .txnow (MemberAssertion.routine.txnow ..) fun createdAt => ?_
    refine .execute (MemberAssertion.routine.execute ..) (fun e => .raise (herr ..))
      (fun _ h => nomatch h) ?_
    simp only [Prog.pure_bind, Handler.bind_apply, Prog.bind_assoc]
    exact addMember_links (by simp [Write.isLink]) (fun _ _ => herr ..)
      (fun _ v hv => hlinked _ _ _ v _ hv) fun log' link => hcreate log' _ _ _ link
  | some found =>
    obtain ⟨id, device⟩ := found
    simp only [Prog.pure_bind, Handler.bind_apply, Prog.bind_assoc]
    refine isMember_keeps (MemberAssertion.routine.select ..) fun link =>
      raiseIf_keeps (herr ..) fun _ => ?_
    refine when_keeps (fun _ => when_keeps (fun _ => ?_) fun _ => ?_) fun _ => ?_
    · exact haside _ _ _ fun w hw => List.mem_singleton.mp hw ▸ rfl
    · exact haside _ _ _ fun w hw => absurd hw List.not_mem_nil
    · exact haside _ _ _ fun w hw => absurd hw List.not_mem_nil

theorem pairingChallenge_links {body : PairingChallengeRequest} :
    Keeps MemberAssertion (Leaves MemberWrites) log [] (pairingChallenge E body user draws []) := by
  refine challengedDevice_links (fun _ _ _ => Leaves.error) (fun log d pending hp => ?_)
    (fun log d u v row hv => ?_) fun log d u row link => ?_
  · refine .utcnow (.quiet rfl rfl rfl) fun now => .redis (.quiet rfl rfl rfl) fun _ => .pure ?_
    exact .leaves_aside hp
  · refine .utcnow (.quiet rfl rfl rfl) fun now => .redis (.quiet rfl rfl rfl) fun _ => .pure ?_
    exact .leaves_linked (List.mem_append_left _ (List.mem_append_left _ hv)) fun w hw =>
      absurd hw List.not_mem_nil
  · refine .utcnow (.quiet rfl rfl rfl) fun now => .redis (.quiet rfl rfl rfl) fun _ => .pure ?_
    exact .leaves_create fun w hw => absurd hw List.not_mem_nil

theorem shareDevice_links {d : Uuid} {body : DeviceShareRequest} :
    Keeps MemberAssertion (Leaves MemberWrites) log [] (shareDevice d body user []) := by
  refine assertDeviceMember_keeps MemberAssertion.routine.reads (fun _ =>
    Leaves.error) fun device link => ?_
  refine .select (MemberAssertion.routine.select ..) fun db => ?_
  cases (Query.userByEmail body.email).eval db with
  | none => exact .raise Leaves.error
  | some target =>
    refine addMember_links (fun w hw => absurd hw List.not_mem_nil) (fun _ _ => Leaves.error)
      (fun log' v hv => ?_) fun log' link => ?_
    · refine .select (MemberAssertion.routine.select ..) fun _ => .pure (.leaves_aside ?_)
      exact fun w hw => absurd hw List.not_mem_nil
    · refine .select (.quiet rfl rfl rfl) fun _ => .pure ?_
      rintro _ _ hr log'' sub _ hs
      cases hr
      rw [List.sublist_nil.mp hs]
      exact .share d _

theorem removeMember_links {d u : Uuid} :
    Keeps MemberAssertion (Leaves MemberWrites) log [] (removeMember d u user []) := by
  refine assertDeviceMember_keeps MemberAssertion.routine.reads (fun _ =>
    Leaves.error) fun device link => ?_
  refine .select (MemberAssertion.routine.select ..) fun count =>
    raiseIf_keeps Leaves.error fun _ => ?_
  refine .select (MemberAssertion.routine.select ..) fun db => ?_
  cases (Query.userDevice d u).eval db with
  | none => exact .pure (.leaves_aside fun w hw => absurd hw List.not_mem_nil)
  | some link =>
    exact .pure (.of_pending_one (fun _ _ => .aside fun w hw => absurd hw List.not_mem_nil)
      fun _ _ => .remove d u)

end

/-! ## Runs -/

/-- Every device has a member, and every membership its device. -/
structure Db.Membered (db : Db) : Prop where
  member : ∀ d, db.devices.contains d = true → ∃ u, db.userDevices.contains (u, d) = true
  device : ∀ u d, db.userDevices.contains (u, d) = true → db.devices.contains d = true

/-- The DELETE leaves the device another member. -/
def leavesMember (db : Db) : Write → Bool
  | .deleteUserDevice _ d => 1 < (Query.memberCount d).eval db
  | _ => true

/-- The count that a removal was guarded by still exceeds one when it commits. -/
def commitsLeaveMember (w : World) (t : Thread Cmd Session Exn Job Outcome) : Bool :=
  !atCommit t.prog || t.sess.written.all (leavesMember w.db)

def isMembershipJob : Job → Bool
  | .http (.user _ (.pairingChallenge _) _) => true
  | .http (.user _ .createDemoDevice _) => true
  | .http (.user _ (.shareDevice _ _) _) => true
  | .http (.user _ (.removeMember _ _) _) => true
  | _ => false

section
variable {E : Env}

theorem isMembershipJob_keeps {j : Job} (hj : isMembershipJob j = true) :
    Keeps MemberAssertion (fun _ _ _ => True) [] [] (j.prog E) := by
  cases j with
  | http r =>
    cases r with
    | user credentials route draws =>
      refine Request.keeps_of_routine MemberAssertion.routine
        (fun _ _ h => ⟨rfl, nofun, fun _ => h⟩) fun _ _ _ _ _ _ => ?_
      cases route with
      | pairingChallenge body => exact pairingChallenge_links
      | createDemoDevice => exact createDemoDevice_links
      | shareDevice d body => exact shareDevice_links
      | removeMember d u => exact removeMember_links
      | _ => cases hj
    | auth => cases hj
  | _ => cases hj

namespace Db.Membered

variable {db : Db} {ws : List Write}

theorem view_aside (h : db.Membered) (hws : ∀ w ∈ ws, w.isAside = true) :
    (ws.foldl (fun db w => w.apply db) db).Membered := by
  induction ws generalizing db with
  | nil => exact h
  | cons w ws ih =>
    have hw : w.isAside = true := hws w List.mem_cons_self
    have hdev (d : Uuid) : (w.apply db).devices.contains d = true ↔
        db.devices.contains d = true := by
      rw [Write.apply_devices_contains]
      refine or_iff_left fun ⟨_, h⟩ => ?_
      rw [h] at hw
      cases hw
    refine ih ⟨fun d hd => ?_, fun u d hu => ?_⟩ fun w hw => hws w (List.mem_cons_of_mem _ hw)
    · rw [Write.apply_userDevices hw]
      exact h.member d ((hdev d).mp hd)
    · rw [Write.apply_userDevices hw] at hu
      exact (hdev d).mpr (h.device u d hu)

theorem create (h : db.Membered) (d u : Uuid) (row : Device) (link : UserDevice) :
    ((Write.insertUserDevice u d link).apply ((Write.insertDevice d row).apply db)).Membered where
  member d' hd := by
    simp only [Write.apply, Table.contains_insert] at hd ⊢
    rcases hd with hd | rfl
    · exact (h.member d' hd).imp fun _ => .inl
    · exact ⟨u, .inr rfl⟩
  device u' d' hu := by
    simp only [Write.apply, Table.contains_insert] at hu ⊢
    rcases hu with hu | hu
    · exact .inl (h.device u' d' hu)
    · cases hu; exact .inr rfl

theorem share (h : db.Membered) {d : Uuid} (hd : db.devices.contains d = true) (u : Uuid)
    (link : UserDevice) : ((Write.insertUserDevice u d link).apply db).Membered where
  member d' hd := by
    simp only [Write.apply, Table.contains_insert] at hd ⊢
    exact (h.member d' hd).imp fun _ => .inl
  device u' d' hu := by
    simp only [Write.apply, Table.contains_insert] at hu ⊢
    rcases hu with hu | hu
    · exact h.device u' d' hu
    · cases hu; exact hd

theorem remove (h : db.Membered) {d u : Uuid}
    (hg : leavesMember db (.deleteUserDevice u d) = true) :
    ((Write.deleteUserDevice u d).apply db).Membered where
  member d' hd := by
    simp only [Write.apply, Table.contains_delete] at hd ⊢
    by_cases hdd : d' = d
    · subst d'
      obtain ⟨⟨u', d'⟩, link, hne, hget, hk⟩ :=
        Table.exists_ne_of_one_lt (of_decide_eq_true hg) (u, d)
      obtain rfl : d' = d := by simpa using hk
      exact ⟨u', Table.contains_of_get? hget, hne⟩
    · obtain ⟨u', hu⟩ := h.member d' hd
      exact ⟨u', hu, fun h => hdd (Prod.mk.inj h).2⟩
  device u' d' hu := h.device u' d' ((Table.contains_delete ..).mp hu).1

end Db.Membered

/-- No step removes a device. -/
theorem step_devices_contains {c c' : Pool} {l : Label Choice Job ℕ}
    (hs : (backend E).Step c l c') (hd : c.state.db.devices.contains d = true) :
    c'.state.db.devices.contains d = true := by
  rcases step_db_cases hs with hdb | ⟨_, _, t, _, _, _, _, _, _, _, hdb⟩
  · exact hdb ▸ hd
  · exact hdb ▸ (t.sess.view_devices_contains c.state.db d).mpr (.inl hd)

structure MemberInv (c : Pool) : Prop where
  db : c.state.db.Membered
  fresh : ∀ t ∈ c.threads, ∀ d row, .insertDevice d row ∈ t.sess.written →
    c.state.db.devices.contains d = false
  linked : ∀ t ∈ c.threads, ∀ u d link, .insertUserDevice u d link ∈ t.sess.written →
    c.state.db.devices.contains d = true ∨ ∃ row, .insertDevice d row ∈ t.sess.written
  read : ∀ t ∈ c.threads, ∀ d u v, ⟨_, .select (.member d u), some v⟩ ∈ t.log →
    c.state.db.devices.contains d = true

namespace MemberInv

variable {c c' : Pool} {l : Label Choice Job ℕ} {t : Thread Cmd Session Exn Job Outcome}

/-- The commit of one transaction. -/
theorem view (hc : MemberInv c) (ht : t ∈ c.threads) (h : MemberWrites t.log t.sess.written)
    (hg : t.sess.written.all (leavesMember c.state.db) = true) :
    (t.sess.view c.state.db).Membered := by
  have hfresh := hc.fresh t ht
  have hlinked := hc.linked t ht
  rw [Session.view]
  generalize t.sess.written = ws at *
  cases h with
  | aside h => exact hc.db.view_aside h
  | create d u h => exact (hc.db.create d u _ _).view_aside h
  | linked d u v hl h =>
    have := hfresh d _ List.mem_cons_self
    rw [hc.read t ht d u v hl] at this
    cases this
  | share d u =>
    refine hc.db.share ((hlinked u d _ (List.mem_singleton_self _)).resolve_right ?_) u _
    rintro ⟨row, h⟩
    cases List.mem_singleton.mp h
  | remove d u => exact hc.db.remove (List.all_eq_true.mp hg _ (List.mem_singleton_self _))

theorem start {w : World} (h : w.db.Membered) : MemberInv ⟨w, []⟩ where
  db := h
  fresh _ ht := absurd ht List.not_mem_nil
  linked _ ht := absurd ht List.not_mem_nil
  read _ ht := absurd ht List.not_mem_nil

theorem step (hc : MemberInv c) (hlocks : System.Pairs LocksDisjoint c.threads)
    (hI : ∀ t ∈ c.threads, ∀ {β} {cm : Cmd β} {k}, t.prog = .cmd cm k →
      MemberAssertion t.log t.sess.written cm)
    (hok : guarded isMembershipJob commitsLeaveMember c l = true) (hs : (backend E).Step c l c') :
    MemberInv c' where
  db := by
    rcases step_db_cases hs with hdb | ⟨i, x, t, rfl, hi, β, cm, k, hp, hcommit, hdb⟩
    · exact hdb ▸ hc.db
    · have ht := List.mem_of_getElem? hi
      have hg : t.sess.written.all (leavesMember c.state.db) = true := by
        simpa [guarded, hi, commitsLeaveMember, hp, atCommit, hcommit] using hok
      exact hdb ▸ hc.view ht ((hI t ht hp).2.2 hcommit) hg
  fresh t' ht' d row hw := by
    obtain ⟨j, hj⟩ := List.getElem?_of_mem ht'
    obtain ⟨t, hold, _, ⟨hw, hdb | ⟨i, t₁, hij, hi, hdb⟩⟩ | ⟨_, hv, hdb⟩⟩ := step_written hs hj hw
    · exact hdb ▸ hc.fresh t (List.mem_of_getElem? hold) d row hw
    · rw [hdb, ← Bool.not_eq_true, Session.view_devices_contains]
      rintro (h | ⟨row', h⟩)
      · rw [hc.fresh t (List.mem_of_getElem? hold) d row hw] at h
        cases h
      · exact hlocks i j t₁ t hij hi hold _ h _ hw (.device d) List.mem_cons_self List.mem_cons_self
    · rw [hdb, ← Bool.not_eq_true]
      intro h
      have hview := (Session.view_devices_contains t.sess c.state.db d).mpr (.inl h)
      cases hview.symm.trans (Write.insertDevice_violates_iff.mp hv).1
  linked t' ht' u d link hw := by
    obtain ⟨j, hj⟩ := List.getElem?_of_mem ht'
    obtain ⟨t, hold, hpre, ⟨hw, _⟩ | ⟨_, hv, hdb⟩⟩ := step_written hs hj hw
    · rcases hc.linked t (List.mem_of_getElem? hold) u d link hw with h | ⟨row, h⟩
      · exact .inl (step_devices_contains hs h)
      · exact .inr ⟨row, hpre.subset h⟩
    · have hview := (Write.insertUserDevice_violates_iff.mp hv).2.2
      rcases (Session.view_devices_contains ..).mp hview with h | ⟨row, h⟩
      · exact .inl (step_devices_contains hs h)
      · exact .inr ⟨row, hpre.subset h⟩
  read t' ht' d u v he := by
    obtain ⟨j, hj⟩ := List.getElem?_of_mem ht'
    obtain ⟨t, hold, he | ⟨x, rfl, β, cm, k, hp, he⟩⟩ := step_log hs hj he
    · exact step_devices_contains hs (hc.read t (List.mem_of_getElem? hold) d u v he)
    · have ht := List.mem_of_getElem? hold
      have hread : readsMember cm = true := (congrArg (readsMember ·.cmd) he).symm
      obtain ⟨_, heval⟩ := Cmd.eval_of_event he.symm
      have hview : (t.sess.view c.state.db).userDevices.contains (u, d) = true := by
        simp only [Query.eval] at heval
        by_contra h
        rw [if_neg h] at heval
        cases heval
      rcases Session.view_userDevices_contains hview with h | ⟨row, h⟩
      · exact step_devices_contains hs (hc.db.device u d h)
      · cases (hI t ht hp).2.1 hread _ h

end MemberInv

/-- **Every device has a member.** In a run of pairings, demo devices, shares and removals in
which each removal still finds another member when it commits, no committed device is without
a member. -/
theorem device_has_member {w₀ : World} (h₀ : w₀.db.Membered)
    (H : (backend E).Run (fun c l => guarded isMembershipJob commitsLeaveMember c l = true)
      ⟨w₀, []⟩ c) (hd : c.state.db.devices.contains d = true) :
    ∃ u, c.state.db.userDevices.contains (u, d) = true := by
  have hinv : MemberInv c := by
    clear hd
    induction H with
    | refl => exact .start h₀
    | step H hok hs ih =>
      exact ih.step (run_locks_disjoint H) (fun t ht _ _ _ hp => run_keeps H
        (I := fun _ => MemberAssertion) (fun _ _ hj => isMembershipJob_keeps hj) ht hp) hok hs
  exact hinv.db.member d hd

end

/-! ## One member leaves, and both at once -/

/-- Alice registers device 7 and shares it with Bob. -/
def shared : List (Label Choice Job ℕ) :=
  .spawn (Sample.request 1 (.pairingChallenge ⟨"uid", "bin"⟩) 7) :: Sample.steps 0 12 ++
  .spawn (Sample.request 1 (.shareDevice 7 ⟨"bob@rawbin.io"⟩) 0) :: Sample.steps 1 11

def oneLeaves : List (Label Choice Job ℕ) :=
  shared ++ .spawn (Sample.request 2 (.removeMember 7 2) 0) :: Sample.steps 2 9

/-- Each sees a count of two before the other commits. -/
def bothLeave : List (Label Choice Job ℕ) :=
  shared ++ .spawn (Sample.request 1 (.removeMember 7 1) 0) ::
    .spawn (Sample.request 2 (.removeMember 7 2) 0) ::
    Sample.steps 2 8 ++ Sample.steps 3 8 ++ Sample.steps 2 1 ++ Sample.steps 3 1

theorem world_membered : Sample.world.db.Membered := ⟨nofun, nofun⟩

theorem oneLeaves_has_member : ∃ c, (backend Sample.env).followIf
      (guarded isMembershipJob commitsLeaveMember) ⟨Sample.world, []⟩ oneLeaves = some c ∧
    c.state.db.devices.contains 7 = true ∧ c.state.db.userDevices.contains (2, 7) = false ∧
    ∃ u, c.state.db.userDevices.contains (u, 7) = true := by
  have h : ((backend Sample.env).followIf (guarded isMembershipJob commitsLeaveMember)
      ⟨Sample.world, []⟩ oneLeaves).any (fun c => c.state.db.devices.contains 7 &&
        !c.state.db.userDevices.contains (2, 7)) = true := by decide +kernel
  obtain ⟨c, hc, h⟩ := (Option.any_eq_true _ _).mp h
  obtain ⟨hd, hb⟩ := Bool.and_eq_true_iff.mp h
  exact ⟨c, hc, hd, Bool.not_eq_true' _ ▸ hb,
    device_has_member world_membered (.of_followIf hc) hd⟩

theorem bothLeave_orphans : ¬ ∀ c d,
    (backend Sample.env).Run (fun c l => guarded isMembershipJob (fun _ _ => true) c l = true)
      ⟨Sample.world, []⟩ c → c.state.db.devices.contains d = true →
    ∃ u, c.state.db.userDevices.contains (u, d) = true := by
  intro hevery
  have h : ((backend Sample.env).followIf (guarded isMembershipJob fun _ _ => true)
      ⟨Sample.world, []⟩ bothLeave).any (fun c => c.state.db.devices.contains 7 &&
        c.state.db.userDevices.rows.isEmpty) = true := by decide +kernel
  obtain ⟨c, hc, h⟩ := (Option.any_eq_true _ _).mp h
  obtain ⟨hd, hnil⟩ := Bool.and_eq_true_iff.mp h
  obtain ⟨u, hu⟩ := hevery c 7 (.of_followIf hc) hd
  obtain ⟨link, hget⟩ := Table.contains_iff.mp hu
  have := Table.mem_of_get? hget
  rw [List.isEmpty_iff.mp hnil] at this
  exact absurd this List.not_mem_nil

end Rawbin
