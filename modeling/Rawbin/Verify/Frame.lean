import Rawbin.Verify.DeviceRoutes

/-!
# Devices of others

A request changes nothing that belongs to a device of which its user is not a member, and no other
user. Every route either checks the membership of the device it is about, or works on a device
that it has just created.
-/

namespace Rawbin

/-- Nothing of device `d` has changed: neither its rows nor its pairing nonce and its cached
thresholds. Nor has any user but `u`. -/
structure World.Untouched (d u : Uuid) (w w' : World) : Prop where
  db : Rawbin.Untouched d u w.db w'.db
  challenge : w'.redis (.challenge d) = w.redis (.challenge d)
  alertConfig : w'.redis (.alertConfig d) = w.redis (.alertConfig d)

/-! ## Rules -/

/-- The transaction has touched nothing of the device so far. -/
structure Spared (d u : Uuid) (w₀ : World) (t : Session) (w : World) : Prop where
  committed : w.db = w₀.db
  view : Untouched d u w₀.db (t.view w.db)
  challenge : w.redis (.challenge d) = w₀.redis (.challenge d)
  alertConfig : w.redis (.alertConfig d) = w₀.redis (.alertConfig d)

theorem Spared.untouched {d u : Uuid} {w₀ w : World} {t : Session} (h : Spared d u w₀ t w) :
    World.Untouched d u w₀ w :=
  ⟨h.committed ▸ .refl w.db, h.challenge, h.alertConfig⟩

/-- Nothing is touched by the commit if nothing that is pending touches anything. -/
theorem Spared.settle {d u : Uuid} {w₀ w : World} {t : Session} {pending : List Write}
    (h : Spared d u w₀ t w) (hp : ∀ wr ∈ pending, wr.Spares d u w₀.db) :
    World.Untouched d u w₀ (w.settle t pending) := by
  rw [World.settle]
  split
  · rename_i db hf
    exact ⟨h.view.flushed hp hf, h.challenge, h.alertConfig⟩
  · exact h.untouched

/-- A route ends with nothing touched and with pending statements that touch nothing. -/
def Framed (d u : Uuid) (w₀ : World) :
    Except Exn (Response × List Write) → Session → World → Prop
  | .ok (_, pending), t, w => Spared d u w₀ t w ∧ ∀ wr ∈ pending, wr.Spares d u w₀.db
  | .error _, _, w => World.Untouched d u w₀ w

/-- A part of a route ends so from wherever nothing is touched yet. -/
def Frames (d u : Uuid) (w₀ : World) (p : Prog Cmd Exn (Response × List Write)) : Prop :=
  ∀ t w, Spared d u w₀ t w → Ends (Framed d u w₀) t w p

namespace Frames

variable {d u : Uuid} {w₀ : World} {pend : List Write}

protected theorem pure (h : ∀ wr ∈ pend, wr.Spares d u w₀.db) :
    Frames d u w₀ (.pure (response, pend)) := fun _ _ hw => ⟨hw, h⟩

protected theorem raise : Frames d u w₀ (.raise e) := fun _ _ hw => hw.untouched

/-- The answer is one that the query has in a database with the device as it was. -/
theorem select {q : Query β} {k : β → Prog Cmd Exn (Response × List Write)}
    (h : ∀ db, Untouched d u w₀.db db → Frames d u w₀ (k (q.eval db))) :
    Frames d u w₀ (.cmd (.select q) k) :=
  fun t w hw => h _ hw.view (t.begin w.now) w { hw with view := hw.view }

theorem utcnow {k : Time → Prog Cmd Exn (Response × List Write)}
    (h : ∀ now, Frames d u w₀ (k now)) :
    Frames d u w₀ (.cmd .utcnow k) := fun t w hw => h _ t w hw

theorem txnow {k : Time → Prog Cmd Exn (Response × List Write)} (h : ∀ now, Frames d u w₀ (k now)) :
    Frames d u w₀ (.cmd .txnow k) := fun t w hw => h _ (t.begin w.now) w { hw with view := hw.view }

theorem redis {c : RedisCmd β} {k : β → Prog Cmd Exn (Response × List Write)}
    (hchallenge : .challenge d ∉ c.keys) (hconfig : .alertConfig d ∉ c.keys)
    (h : ∀ b, Frames d u w₀ (k b)) : Frames d u w₀ (.cmd (.redis c) k) := fun t _ hw =>
  h _ t _ { hw with
    challenge := (RedisCmd.exec_of_notMem hchallenge ..).trans hw.challenge
    alertConfig := (RedisCmd.exec_of_notMem hconfig ..).trans hw.alertConfig }

/-- A statement that passes the constraints touches nothing. -/
theorem execute {wr : Write} {k : Except Exn Unit → Prog Cmd Exn (Response × List Write)}
    (hwr : ∀ db, Untouched d u w₀.db db → wr.violates db = none → wr.Spares d u w₀.db)
    (herr : ∀ e, Frames d u w₀ (k (.error e)))
    (h : wr.Spares d u w₀.db → Frames d u w₀ (k (.ok ()))) :
    Frames d u w₀ (.cmd (.execute wr) k) := by
  intro t w hw
  refine Machine.Ends.cmd ?_
  simp only [machine, Cmd.exec]
  split
  · exact herr _ (t.begin w.now) w { hw with view := hw.view }
  · rename_i hv
    split
    · exact h (hwr _ hw.view hv) (t.begin w.now) w { hw with view := hw.view }
    · refine h (hwr _ hw.view hv) _ w { hw with view := ?_ }
      rw [Session.view_snoc]
      exact hw.view.apply (hwr _ hw.view hv)

/-- A member of a device acts on another device than one of which the user is no member. -/
theorem ne_of_member {id : Uuid} (hu : w₀.db.userDevices.contains (u, d) = false)
    {db : Db} (hdb : Untouched d u w₀.db db) (hm : db.userDevices.contains (u, id) = true) :
    id ≠ d := by
  rintro rfl
  rw [hdb.member_of hm] at hu
  cases hu

theorem isMember {id v : Uuid} {k : Bool × List Write → Prog Cmd Exn (Response × List Write)}
    (h : ∀ db, Untouched d u w₀.db db →
      Frames d u w₀ (k (db.userDevices.contains (v, id), pend))) :
    Frames d u w₀ ((DeviceAccess.isMember id v pend).bind k) := by
  refine .select fun db hdb => ?_
  have h := h db hdb
  simp only [Query.eval]
  cases hm : db.userDevices.contains (v, id) <;> rw [hm] at h <;> exact h

theorem assertDeviceMember (hu : w₀.db.userDevices.contains (u, d) = false) {id : Uuid}
    {k : Device × List Write → Prog Cmd Exn (Response × List Write)}
    (h : ∀ device, id ≠ d → Frames d u w₀ (k (device, pend))) :
    Frames d u w₀ ((DeviceAccess.assertDeviceMember id u pend).bind k) := by
  refine .select fun db _ => ?_
  cases (Query.deviceById id).eval db with
  | none => exact .raise
  | some device =>
    simp only [Prog.pure_bind, Handler.bind_apply, Prog.bind_assoc]
    refine isMember fun db hdb => Confines.ite (fun hm => ?_) fun _ => .raise
    exact h device (ne_of_member hu hdb hm)

/-- The routes about a device leave the devices of others alone. -/
theorem confines (hu : w₀.db.userDevices.contains (u, d) = false) (draws : Draws) :
    Confines w₀.db d u draws (fun _ => True) (Frames d u w₀) where
  pure := .pure
  raise _ := .raise
  select _ := select
  utcnow := utcnow
  txnow := txnow
  redis := redis
  execute hw _ h := execute (fun _ _ _ => hw) (fun e => h (.error e)) fun _ => h (.ok ())
  member := assertDeviceMember hu
  cycle _ h := select h

end Frames

/-! ## The other routes -/

section
variable {E : Env} {user : CurrentUser} {draws : Draws} {d u : Uuid} {w₀ : World}

/-- A device that could be inserted is a new one. -/
theorem insertDevice_spares (hd : w₀.db.devices.contains d = true) {id : Uuid} {row : Device}
    (db : Db) (hdb : Untouched d u w₀.db db) (hv : (Write.insertDevice id row).violates db = none) :
    (Write.insertDevice id row).Spares d u w₀.db := by
  rintro rfl
  have hc : db.devices.contains id = true := by rwa [Table.contains, hdb.device]
  cases hc.symm.trans (Write.insertDevice_violates_iff.mp hv).1

theorem createDemoDevice_frames (hd : w₀.db.devices.contains d = true)
    (hu : w₀.db.userDevices.contains (user.id, d) = false) :
    Frames d user.id w₀ (createDemoDevice E user draws []) := by
  refine .txnow fun createdAt => ?_
  refine .execute (insertDevice_spares hd) (fun _ => .raise) fun hid => ?_
  refine (Frames.confines hu draws).addMember hid fun _ => .utcnow fun now => ?_
  exact .pure (List.forall_mem_singleton.mpr hid)

theorem challengedDevice_frames (hd : w₀.db.devices.contains d = true)
    (hu : w₀.db.userDevices.contains (user.id, d) = false) {body : PairingChallengeRequest}
    {k : Uuid × List Write → Prog Cmd Exn (Response × List Write)}
    (h : ∀ id pending, id ≠ d → (∀ wr ∈ pending, wr.Spares d user.id w₀.db) →
      Frames d user.id w₀ (k (id, pending))) :
    Frames d user.id w₀ ((challengedDevice E body user draws []).bind k) := by
  have H := Frames.confines hu draws
  refine .select fun db _ => ?_
  cases (Query.deviceByHardwareUid body.hardwareUid).eval db with
  | none =>
    refine .txnow fun createdAt => ?_
    refine .execute (insertDevice_spares hd) (fun _ => .raise) fun hid => ?_
    simp only [Prog.pure_bind, Handler.bind_apply, Prog.bind_assoc]
    exact H.addMember hid fun _ => h _ [] hid Confines.spares_nil
  | some found =>
    obtain ⟨id, device⟩ := found
    simp only [Prog.pure_bind, Handler.bind_apply, Prog.bind_assoc]
    refine .isMember fun db hdb => H.raiseIf fun hm => ?_
    have hid : id ≠ d := Frames.ne_of_member hu hdb (by simpa using hm)
    refine Confines.when (fun _ => Confines.when (fun _ => ?_) fun _ => ?_) fun _ => ?_
    · exact h id _ hid (List.forall_mem_singleton.mpr hid)
    · exact h id [] hid Confines.spares_nil
    · exact h id [] hid Confines.spares_nil

theorem pairingChallenge_frames (hd : w₀.db.devices.contains d = true)
    (hu : w₀.db.userDevices.contains (user.id, d) = false) {body : PairingChallengeRequest} :
    Frames d user.id w₀ (pairingChallenge E body user draws []) := by
  refine challengedDevice_frames hd hu fun id pending hid hp => .utcnow fun now => ?_
  refine .redis ?_ ?_ fun _ => .pure hp
  · exact fun h => hid (RedisKey.challenge.inj (List.mem_singleton.mp h)).symm
  · exact fun h => nomatch List.mem_singleton.mp h

theorem listDevices_frames : Frames d u w₀ (listDevices user []) :=
  .select fun _ _ => .pure Confines.spares_nil

theorem getMe_frames : Frames d u w₀ (getMe user []) := .pure Confines.spares_nil

/-- The pending UPDATE of the user, flushed. -/
theorem updateUser_frames {patch : UserPatch} {response : Response} :
    Frames d user.id w₀ ((do
      updateUser user.id patch
      Handler.flush
      pure response : Handler Response) []) := by
  refine Confines.when (fun _ => ?_) fun _ => .pure Confines.spares_nil
  exact .execute (fun _ _ _ => rfl) (fun _ => .raise) fun _ => .pure Confines.spares_nil

theorem patchMe_frames {body : UserPatchIn} : Frames d user.id w₀ (patchMe body user []) := by
  have hphone {k : Option String × List Write → Prog Cmd Exn (Response × List Write)}
      (h : ∀ phone, Frames d user.id w₀ (k (phone, []))) :
      Frames d user.id w₀ ((newPhone body user []).bind k) := by
    rw [newPhone]
    cases body.phone with
    | none => exact h none
    | some phone =>
      refine Confines.ite (fun _ => h none) fun _ => .select fun _ _ => ?_
      simp only [Prog.pure_bind, Handler.bind_apply, Prog.bind_assoc]
      exact Confines.when (fun _ => .raise) fun _ => h (some phone)
  exact hphone fun phone => updateUser_frames

theorem updatePushToken_frames {body : PushTokenIn} :
    Frames d user.id w₀ (updatePushToken body user []) := updateUser_frames

theorem Route.frames (user : CurrentUser) (hd : w₀.db.devices.contains d = true)
    (hu : w₀.db.userDevices.contains (user.id, d) = false) (route : Route) :
    Frames d user.id w₀ (route.handle E user draws []) := by
  by_cases hr : route.scoped = true
  · exact (Frames.confines hu draws).route hr fun _ _ => trivial
  · cases route with
    | createDemoDevice => exact createDemoDevice_frames hd hu
    | pairingChallenge => exact pairingChallenge_frames hd hu
    | listDevices => exact listDevices_frames
    | getMe => exact getMe_frames
    | patchMe => exact patchMe_frames
    | updatePushToken => exact updatePushToken_frames
    | _ => exact absurd rfl hr

/-- **The frame of a request.** A request by a user leaves every existing device of which the user
is no member, and all other users, as they are. -/
theorem serve_untouched {E : Env} {credentials : String} {payload : Payload} {w : World}
    (hpayload : decodeToken E.crypto w.now credentials = some payload)
    (hd : w.db.devices.contains d = true)
    (hu : w.db.userDevices.contains (payload.sub, d) = false) (route : Route) (draws : Draws) :
    World.Untouched d payload.sub w (serve E (.user credentials route draws) w).2 := by
  refine serve_ends (P := fun _ w' => World.Untouched d payload.sub w w') ?_
  have hw : World.Untouched d payload.sub w w := ⟨.refl _, rfl, rfl⟩
  refine getCurrentUser_ends rfl (fun _ _ => hw) fun t u user ht hauth => ?_
  obtain ⟨payload', hp, _, rfl, _⟩ := hauth
  cases hpayload.symm.trans hp
  have hframes : Frames d payload.sub w (route.handle E ⟨payload.sub, user⟩ draws []) :=
    Route.frames ⟨payload.sub, user⟩ hd hu route
  refine (hframes t w ⟨rfl, ?_, rfl, rfl⟩).mono fun r t' w' h => ?_
  · rw [Session.view_of_nil ht]
    exact .refl _
  · cases r with
    | error e => exact h
    | ok r => exact h.1.settle h.2

end

/-- Bob has no luck with device 7 of Alice. -/
theorem shareDevice_untouched : World.Untouched 7 2 Sample.deviceWorld
    (serve Sample.env (.user (Sample.jwtEncode ⟨2, .access, 0, 0, 0⟩)
      (.shareDevice 7 ⟨"bob@rawbin.io"⟩)
      (Sample.draws 0)) Sample.deviceWorld).2 := by
  have hp : decodeToken Sample.env.crypto Sample.deviceWorld.now
      (Sample.jwtEncode ⟨2, .access, 0, 0, 0⟩) = some ⟨2, .access, 1, 0, 0⟩ := by
    decide +kernel
  have hd : Sample.deviceWorld.db.devices.contains 7 = true := by decide
  have hu : Sample.deviceWorld.db.userDevices.contains (2, 7) = false := by decide
  exact serve_untouched hp hd hu _ _

end Rawbin
