import Rawbin.Backend

/-!
# Requests one after the other

What a job does when no other job is around. The committed database stays what it is up to the
commit, so the facts that a route learns from its SELECTs are facts about one database. `serve`
is the outcome of the route, then the flush of what is pending.
-/

namespace Rawbin

/-- A postcondition of a program that runs alone, without failures. -/
abbrev Ends (Q : Except Exn α → Session → World → Prop) (t : Session) (w : World)
    (p : Prog Cmd Exn α) : Prop := machine.Ends .ok Q t w p

/-- A command inside a `try`. -/
theorem run_attempt (x : ℕ → Choice) (c : Cmd β) (k : Except Exn β → Prog Cmd Exn α) (t : Session)
    (w : World) : machine.run x (.cmd (.attempt c) k) t w =
      let x' := fun n => x (n + 1)
      let r := c.exec .ok t w
      match x 0 with
      | .ok => machine.run x' (k (.ok r.1)) r.2.1 r.2.2
      | .fault => machine.run x' (k (.error .operationalError)) t w
      | .lost => machine.run x' (k (.error .operationalError)) r.2.1 r.2.2 := by
  rw [Machine.run]
  simp only [machine, Cmd.exec]
  cases x 0 <;> rfl

namespace Write

/-- The effect of a flush. -/
def flushed : List Write → Db → Except Exn Db
  | [], db => .ok db
  | w :: ws, db =>
    match w.violates db with
    | some e => .error e
    | none => flushed ws (w.apply db)

theorem flushed_cons {w : Write} {ws : List Write} {db : Db} (h : w.violates db = none) :
    flushed (w :: ws) db = flushed ws (w.apply db) := by
  rw [flushed, h]

theorem of_flushed_one {w : Write} {db db' : Db} (h : flushed [w] db = .ok db') :
    w.violates db = none ∧ db' = w.apply db := by
  rw [flushed] at h
  split at h
  · cases h
  · exact ⟨‹_›, (Except.ok.inj h).symm⟩

theorem of_flushed_one_error {w : Write} {db : Db} {e : Exn} (h : flushed [w] db = .error e) :
    w.violates db = some e := by
  rw [flushed] at h
  split at h
  · rename_i hv
    exact hv.trans (congrArg some (Except.error.inj h))
  · cases h

/-- A statement that matches no row changes nothing. -/
theorem apply_of_noop {w : Write} {db : Db} (h : w.noop db = true) : w.apply db = db := by
  cases w with
  | deleteUserDevice u d =>
    have hk : db.userDevices.contains (u, d) = false := by simpa [noop] using h
    have ht : db.userDevices.delete (u, d) = db.userDevices := Table.delete_of_not_contains hk
    rw [apply, ht]
  | _ => cases h

end Write

theorem Session.view_snoc (t : Session) (wr : Write) (b : Option Time) (db : Db) :
    (Session.mk (t.written ++ [wr]) b).view db = wr.apply (t.view db) := by
  rw [view, view, List.foldl_append]
  rfl

/-- The world after a flush of what is pending and a commit, or after a rollback. -/
def World.settle (w : World) (t : Session) (pending : List Write) : World :=
  match Write.flushed pending (t.view w.db) with
  | .ok db => { w with db := db }
  | .error _ => w

@[simp] theorem World.settle_redis (w : World) (t : Session) (pending : List Write) :
    (w.settle t pending).redis = w.redis := by
  rw [settle]; split <;> rfl

@[simp] theorem World.settle_now (w : World) (t : Session) (pending : List Write) :
    (w.settle t pending).now = w.now := by
  rw [settle]; split <;> rfl

theorem Session.view_of_nil {t : Session} (ht : t.written = []) (db : Db) : t.view db = db := by
  rw [view, ht]; rfl

theorem World.settle_nil {w : World} {t : Session} (ht : t.written = []) : w.settle t [] = w := by
  rw [settle, Session.view_of_nil ht]
  rfl

theorem World.settle_one {w : World} {t : Session} (ht : t.written = []) {wr : Write}
    (h : wr.violates w.db = none) : w.settle t [wr] = { w with db := wr.apply w.db } := by
  rw [settle, Session.view_of_nil ht, Write.flushed, h]
  rfl

/-- What the outcome of a route comes to: a response, and a world. -/
def Served (P : Response → World → Prop) (res : Except Exn (Response × List Write)) (t : Session)
    (w : World) : Prop :=
  match res with
  | .ok (response, pending) => P response (w.settle t pending)
  | .error e => P e.response w

section
variable {Q : Except Exn α → Session → World → Prop} {t : Session} {w : World}

theorem flushAll_ends {Q : Except Exn Unit → Session → World → Prop} {pending : List Write}
    (hok : ∀ t', Write.flushed pending (t.view w.db) = .ok (t'.view w.db) → Q (.ok ()) t' w)
    (herr : ∀ t' e, Write.flushed pending (t.view w.db) = .error e → Q (.error e) t' w) :
    Ends Q t w (Handler.flushAll pending) := by
  induction pending generalizing t with
  | nil => exact hok t rfl
  | cons wr ws ih =>
    rw [Handler.flushAll]
    refine Machine.Ends.cmd ?_
    simp only [machine, Cmd.exec]
    simp only [Write.flushed] at hok herr
    split
    · rename_i e hv
      simp only [hv] at herr
      exact herr _ e rfl
    · rename_i hv
      simp only [hv] at hok herr
      split
      · rename_i hnoop
        rw [Write.apply_of_noop hnoop] at hok herr
        exact ih hok herr
      · rw [← t.view_snoc wr ((t.begin w.now).began)] at hok herr
        exact ih hok herr

theorem finish_ends {Q : Except Exn Unit → Session → World → Prop} {pending : List Write}
    (h : Q (.ok ()) .idle (w.settle t pending)) : Ends Q t w (finish pending) := by
  rw [World.settle] at h
  refine Machine.Ends.tryCatch (R := fun r t' w' => r.Satisfies (fun _ => Q (.ok ()) t' w')
    fun _ => w' = w ∧ Q (.ok ()) .idle w) ?_ (fun _ _ _ h => h) fun t w e h => ?_
  · refine Machine.Ends.bind (R := fun r t' w' => w' = w ∧ r.Satisfies
      (fun _ => Q (.ok ()) .idle { w with db := t'.view w.db }) fun _ => Q (.ok ()) .idle w)
      (flushAll_ends ?_ ?_) ?_ ?_
    · intro t' hf
      rw [hf] at h
      exact ⟨rfl, h⟩
    · intro t' e hf
      rw [hf] at h
      exact ⟨rfl, h⟩
    · rintro t' _ _ ⟨rfl, h⟩
      exact h
    · exact fun _ _ _ h => h
  · obtain ⟨rfl, h⟩ := h
    exact h

theorem serve_ends {E : Env} {r : Request} {P : Response → World → Prop}
    (h : Ends (Served P) .idle w (r.handle E [])) : P (serve E r w).1 (serve E r w).2 := by
  have hend : Ends (fun res t w' => ∃ response, res = .ok response ∧ P response w') .idle w
      (r.prog E) := by
    refine Machine.Ends.bind (R := fun res t w' => ∃ res', res = .ok res' ∧ Served P res' t w')
      (.outcome (h.mono fun r _ _ h => ⟨r, rfl, h⟩)) ?_ fun _ _ _ h => nomatch h.choose_spec.1
    intro t w r h
    obtain ⟨r', hr, h⟩ := h
    cases hr
    cases r with
    | error e => exact ⟨_, rfl, h⟩
    | ok r =>
      refine Machine.Ends.cmd (Machine.Ends.bind (R := fun r _ w' => r = .ok () ∧ P _ w')
        (finish_ends ⟨rfl, h⟩) (fun _ _ _ h => ⟨_, rfl, h.2⟩) fun _ _ _ h => nomatch h.1)
  obtain ⟨response, hr, h⟩ := hend
  rw [serve]
  generalize machine.runConst .ok (r.prog E) .idle w = res at hr h
  obtain ⟨r, t, w'⟩ := res
  cases hr
  exact h

/-- The exception that a request ends with: of its route, or of the flush before the commit. -/
def raisedBy (res : Except Exn (Response × List Write)) (t : Session) (w : World) : Option Exn :=
  match res with
  | .error e => some e
  | .ok (_, pending) =>
    match Write.flushed pending (t.view w.db) with
    | .error e => some e
    | .ok _ => none

/-- The same of a request that is served alone. -/
def Request.raised (E : Env) (r : Request) (w : World) : Option Exn :=
  let res := machine.runConst .ok (r.handle E []) .idle w
  raisedBy res.1 res.2.1 res.2.2

theorem serve_raised_ends {E : Env} {r : Request} {P : Response → Option Exn → World → Prop}
    (h : Ends (fun res t w' => Served (fun response w'' =>
      P response (raisedBy res t w') w'') res t w')
      .idle w (r.handle E [])) : P (serve E r w).1 (r.raised E w) (serve E r w).2 :=
  serve_ends (P := fun response w' => P response (r.raised E w) w') h

end

/-! ## Constraints of the database -/

/-- A property of the database that no statement breaks which the database accepts. -/
def Db.Constraint (P : Db → Prop) : Prop :=
  ∀ (wr : Write) (db : Db), wr.violates db = none → P db → P (wr.apply db)

theorem Db.Constraint.exec {P : Db → Prop} (hP : Db.Constraint P) (c : Cmd β) {x : Choice}
    {t : Session} {w : World} (h : P w.db ∧ P (t.view w.db)) :
    P (c.exec x t w).2.2.db ∧ P ((c.exec x t w).2.1.view (c.exec x t w).2.2.db) := by
  induction c generalizing x with
  | execute wr =>
    simp only [Cmd.exec]
    split
    · exact h
    · rename_i hv
      split
      · exact h
      · refine ⟨h.1, ?_⟩
        show P (Session.view ⟨t.written ++ [wr], _⟩ w.db)
        rw [Session.view_snoc]
        exact hP wr _ hv h.2
  | commit => exact ⟨h.2, h.2⟩
  | rollback => exact ⟨h.1, h.1⟩
  | attempt c ih =>
    cases x with
    | ok => exact ih
    | fault => exact h
    | lost => exact ih
  | _ => exact h

/-- **Constraints hold after every request.** -/
theorem serve_constraint {P : Db → Prop} (hP : Db.Constraint P) {E : Env} {r : Request} {w : World}
    (h : P w.db) : P (serve E r w).2.db := by
  have hend := machine.runConst_invariant (G := fun t w => P w.db ∧ P (t.view w.db)) .ok
    (fun c _ _ h => hP.exec c h) (r.prog E) (t := .idle) (s := w) ⟨h, h⟩
  rw [serve]
  generalize machine.runConst .ok (r.prog E) .idle w = res at hend
  obtain ⟨r, t, w'⟩ := res
  cases r <;> exact hend.1

theorem serve_now {E : Env} {r : Request} {w : World} : (serve E r w).2.now = w.now := by
  have hend := machine.runConst_invariant (G := fun _ w' => w'.now = w.now) .ok
    (fun c t w' h => (c.exec_now .ok t w').trans h) (r.prog E) (t := .idle) (s := w) rfl
  rw [serve]
  generalize machine.runConst .ok (r.prog E) .idle w = res at hend
  obtain ⟨r, t, w'⟩ := res
  cases r <;> exact hend

/-! ## Who may do what -/

/-- The bearer token is valid, and user `u` is active. -/
def Authenticated (E : Env) (credentials : String) (u : Uuid) (user : User) (w : World) : Prop :=
  ∃ payload, decodeToken E.crypto w.now credentials = some payload ∧ payload.type = .access ∧
    payload.sub = u ∧ w.db.users.get? u = some user ∧ user.isActive = true

/-- The device exists, and user `u` is a member. -/
def DeviceMember (d u : Uuid) (device : Device) (w : World) : Prop :=
  w.db.devices.get? d = some device ∧ w.db.userDevices.contains (u, d) = true

theorem Authenticated.unique {E : Env} {u u' : Uuid} {user user' : User}
    (h : Authenticated E credentials u user w) (h' : Authenticated E credentials u' user' w) :
    u = u' ∧ user = user' := by
  obtain ⟨payload, hp, _, rfl, hu, _⟩ := h
  obtain ⟨payload', hp', _, rfl, hu', _⟩ := h'
  cases hp.symm.trans hp'
  exact ⟨rfl, Option.some.inj (hu.symm.trans hu')⟩

/-! ## Parts of routes

Each rule is about a part of a route followed by the rest of the route, in a session that has
executed no statement yet. -/

section
variable {Q : Except Exn γ → Session → World → Prop} {t : Session} {w : World}
variable {pend : List Write}

theorem select_begin {q : Query β} {k : β → Prog Cmd Exn γ} (ht : t.written = [])
    (h : Ends Q (t.begin w.now) w (k (q.eval w.db))) : Ends Q t w (.cmd (.select q) k) := by
  refine Machine.Ends.cmd ?_
  show Ends Q (t.begin w.now) w (k (q.eval (t.view w.db)))
  rw [Session.view_of_nil ht]
  exact h

theorem select_ends {q : Query β} {k : β → Prog Cmd Exn γ} (ht : t.written = [])
    (h : ∀ t', t'.written = [] → Ends Q t' w (k (q.eval w.db))) :
    Ends Q t w (.cmd (.select q) k) := select_begin ht (h _ ht)

theorem utcnow_ends {k : Time → Prog Cmd Exn γ} (h : Ends Q t w (k w.now)) :
    Ends Q t w (.cmd .utcnow k) := h

theorem txnow_ends {k : Time → Prog Cmd Exn γ} (ht : t.written = [])
    (h : ∀ t' now, t'.written = [] → Ends Q t' w (k now)) : Ends Q t w (.cmd .txnow k) :=
  Machine.Ends.cmd (h (t.begin w.now) _ ht)

theorem redis_ends {c : RedisCmd β} {k : β → Prog Cmd Exn γ}
    (h : Ends Q t { w with redis := (c.exec w.now w.redis).2 } (k (c.exec w.now w.redis).1)) :
    Ends Q t w (.cmd (.redis c) k) := h

theorem ite_ends {c : Prop} [Decidable c] {h h' : Handler β} {k : β × List Write → Prog Cmd Exn γ}
    (hthen : c → Ends Q t w ((h pend).bind k)) (helse : ¬ c → Ends Q t w ((h' pend).bind k)) :
    Ends Q t w (((if c then h else h') pend).bind k) := by
  by_cases hc : c
  · rw [if_pos hc]; exact hthen hc
  · rw [if_neg hc]; exact helse hc

theorem when_ends {c : Prop} [Decidable c] {h : Handler Unit}
    {k : Unit × List Write → Prog Cmd Exn γ}
    (hthen : c → Ends Q t w ((h pend).bind k)) (helse : ¬ c → Ends Q t w (k ((), pend))) :
    Ends Q t w ((Handler.when c h pend).bind k) := ite_ends hthen helse

theorem raiseIf_ends {c : Prop} [Decidable c] {k : Unit × List Write → Prog Cmd Exn γ}
    (herr : c → Q (.error (.httpException status detail)) t w)
    (hok : ¬ c → Ends Q t w (k ((), pend))) :
    Ends Q t w ((Handler.raiseIf c status detail pend).bind k) := when_ends herr hok

theorem ofExcept_ends {r : Except Exn β} {k : β × List Write → Prog Cmd Exn γ}
    (herr : ∀ e, r = .error e → Q (.error e) t w)
    (hok : ∀ b, r = .ok b → Ends Q t w (k (b, pend))) :
    Ends Q t w ((Handler.ofExcept r pend).bind k) := by
  cases r with
  | ok b => exact hok b rfl
  | error e => exact herr e rfl

theorem getCurrentUser_begin {E : Env} {credentials : String}
    {k : CurrentUser × List Write → Prog Cmd Exn γ} (ht : t.written = [])
    (herr : ∀ t', (∀ u user, ¬ Authenticated E credentials u user w) →
      Q (.error credentialsException) t' w)
    (hok : ∀ u user, Authenticated E credentials u user w →
      Ends Q (t.begin w.now) w (k (⟨u, user⟩, pend))) :
    Ends Q t w ((getCurrentUser E credentials pend).bind k) := by
  have hnone (h : ∀ payload user, decodeToken E.crypto w.now credentials = some payload →
      payload.type = .access → w.db.users.get? payload.sub = some user → user.isActive = false) :
      ∀ u user, ¬ Authenticated E credentials u user w := by
    rintro _ user ⟨payload, hp, htype, rfl, hu, ha⟩
    exact absurd ha (Bool.eq_false_iff.mp (h payload user hp htype hu))
  refine utcnow_ends ?_
  simp only [Prog.pure_bind]
  cases hd : decodeToken E.crypto w.now credentials with
  | none =>
    refine herr t (hnone fun payload user hp => ?_)
    cases hd.symm.trans hp
  | some payload =>
    by_cases htype : payload.type = .access
    · simp only [htype, ne_eq, not_true_eq_false, if_false]
      refine select_begin ht ?_
      cases hu : w.db.users.get? payload.sub with
      | none =>
        simp only [Query.eval, hu]
        refine herr _ (hnone fun payload' user hp _ hu' => ?_)
        cases hd.symm.trans hp
        cases hu.symm.trans hu'
      | some user =>
        simp only [Query.eval, hu]
        cases ha : user.isActive
        · simp only [Prog.pure_bind, ha]
          refine herr _ (hnone fun payload' user' hp _ hu' => ?_)
          cases hd.symm.trans hp
          cases hu.symm.trans hu'
          exact ha
        · simp only [Prog.pure_bind, ha]
          exact hok payload.sub user ⟨payload, hd, htype, rfl, hu, ha⟩
    · simp only [ne_eq, htype, not_false_eq_true, if_true]
      refine herr t (hnone fun payload' user hp htype' => ?_)
      cases hd.symm.trans hp
      exact absurd htype' htype

theorem getCurrentUser_ends {E : Env} {credentials : String}
    {k : CurrentUser × List Write → Prog Cmd Exn γ} (ht : t.written = [])
    (herr : ∀ t', (∀ u user, ¬ Authenticated E credentials u user w) →
      Q (.error credentialsException) t' w)
    (hok : ∀ t' u user, t'.written = [] → Authenticated E credentials u user w →
      Ends Q t' w (k (⟨u, user⟩, pend))) :
    Ends Q t w ((getCurrentUser E credentials pend).bind k) :=
  getCurrentUser_begin ht herr fun u user ha => hok _ u user ht ha

theorem flush_ends {k : Unit × List Write → Prog Cmd Exn γ}
    (hok : ∀ t', Write.flushed pend (t.view w.db) = .ok (t'.view w.db) → Ends Q t' w (k ((), [])))
    (herr : ∀ t' e, Write.flushed pend (t.view w.db) = .error e → Q (.error e) t' w) :
    Ends Q t w ((Handler.flush pend).bind k) := by
  rw [Handler.flush_apply, Prog.bind_assoc]
  exact Machine.Ends.bind (R := fun r t' w' => r.Satisfies (fun _ => Ends Q t' w' (k ((), [])))
    fun e => Q (.error e) t' w') (flushAll_ends hok herr) (fun _ _ _ h => h) fun _ _ _ h => h

/-- The flush of one statement that finds its row. -/
theorem flush_one_begin {wr : Write} {k : Unit × List Write → Prog Cmd Exn γ}
    (hnoop : ∀ db, wr.noop db = false)
    (hok : wr.violates (t.view w.db) = none →
      Ends Q { t.begin w.now with written := t.written ++ [wr] } w (k ((), [])))
    (herr : ∀ t' e, wr.violates (t.view w.db) = some e → Q (.error e) t' w) :
    Ends Q t w ((Handler.flush [wr]).bind k) := by
  refine Machine.Ends.cmd ?_
  simp only [machine, Cmd.exec]
  cases hv : wr.violates (t.view w.db) with
  | some e => exact herr _ e hv
  | none =>
    simp only [hnoop, Bool.false_eq_true, if_false]
    exact hok hv

theorem isMember_begin {d u : Uuid} {k : Bool × List Write → Prog Cmd Exn γ} (ht : t.written = [])
    (h : Ends Q (t.begin w.now) w (k (w.db.userDevices.contains (u, d), pend))) :
    Ends Q t w ((DeviceAccess.isMember d u pend).bind k) := by
  refine select_begin ht ?_
  simp only [Query.eval]
  cases hm : w.db.userDevices.contains (u, d) <;> rw [hm] at h <;> exact h

theorem assertDeviceMember_begin {d u : Uuid} {k : Device × List Write → Prog Cmd Exn γ}
    (ht : t.written = [])
    (herr : ∀ t', (∀ device, ¬ DeviceMember d u device w) →
      Q (.error (.httpException 404 "Device not found.")) t' w)
    (hok : ∀ device, DeviceMember d u device w → Ends Q (t.begin w.now) w (k (device, pend))) :
    Ends Q t w ((DeviceAccess.assertDeviceMember d u pend).bind k) := by
  refine select_begin ht ?_
  cases hd : w.db.devices.get? d with
  | none =>
    simp only [Query.eval, hd]
    refine herr _ fun device h => ?_
    cases hd.symm.trans h.1
  | some device =>
    simp only [Query.eval, hd]
    simp only [Prog.pure_bind, Handler.bind_apply, Prog.bind_assoc]
    refine isMember_begin ht (ite_ends (fun hm => ?_) fun hm => ?_)
    · exact hok device ⟨hd, hm⟩
    · exact herr _ fun device' h => hm h.2

theorem assertDeviceMember_ends {d u : Uuid} {k : Device × List Write → Prog Cmd Exn γ}
    (ht : t.written = [])
    (herr : ∀ t', (∀ device, ¬ DeviceMember d u device w) →
      Q (.error (.httpException 404 "Device not found.")) t' w)
    (hok : ∀ t' device, t'.written = [] → DeviceMember d u device w →
      Ends Q t' w (k (device, pend))) :
    Ends Q t w ((DeviceAccess.assertDeviceMember d u pend).bind k) :=
  assertDeviceMember_begin ht herr fun device hm => hok _ device ht hm

/-- A SELECT in any session. -/
theorem query_ends {q : Query β} {k : β → Prog Cmd Exn γ}
    (h : Ends Q (t.begin w.now) w (k (q.eval (t.view w.db)))) : Ends Q t w (.cmd (.select q) k) := h

/-- `add_member` issues the one INSERT, unless there is a row. -/
theorem addMember_insert {d u : Uuid} {k : Bool × List Write → Prog Cmd Exn γ}
    (hold : (t.view w.db).userDevices.contains (u, d) = true →
      Ends Q (t.begin w.now) w (k (false, [])))
    (hnew : (t.view w.db).userDevices.contains (u, d) = false →
      Ends Q { t.begin w.now with
        written := t.written ++ [.insertUserDevice u d ⟨t.began.getD w.now⟩] } w (k (true, [])))
    (herr : ∀ t' row e, (t.view w.db).userDevices.contains (u, d) = false →
      (Write.insertUserDevice u d row).violates (t.view w.db) = some e → Q (.error e) t' w) :
    Ends Q t w ((DeviceAccess.addMember d u []).bind k) := by
  rw [DeviceAccess.addMember, Handler.bind_apply, Prog.bind_assoc]
  refine query_ends ?_
  cases hm : (t.view w.db).userDevices.contains (u, d)
  · simp only [Query.eval, hm, Bool.false_eq_true, if_false]
    refine Machine.Ends.cmd ?_
    simp only [Prog.pure_bind, Handler.bind_apply, Prog.bind_assoc, Handler.add_apply]
    exact flush_one_begin (fun _ => rfl) (fun _ => hnew hm) fun t' e => herr t' _ e hm
  · simp only [Query.eval, hm, if_true]
    exact hold hm

theorem addMember_begin {d u : Uuid} {k : Bool × List Write → Prog Cmd Exn γ}
    (hold : (t.view w.db).userDevices.contains (u, d) = true →
      Ends Q (t.begin w.now) w (k (false, [])))
    (hnew : (t.view w.db).userDevices.contains (u, d) = false →
      Ends Q { t.begin w.now with
        written := t.written ++ [.insertUserDevice u d ⟨t.began.getD w.now⟩] } w (k (true, [])))
    (herr : ∀ t' wr e, Write.violates wr (t.view w.db) = some e → Q (.error e) t' w) :
    Ends Q t w ((DeviceAccess.addMember d u []).bind k) :=
  addMember_insert hold hnew fun t' _ e _ => herr t' _ e

/-- A member is added by one statement, or not at all. -/
theorem addMember_ends {d u : Uuid} {k : Bool × List Write → Prog Cmd Exn γ}
    (herr : ∀ t' e, Q (.error e) t' w) (hok : ∀ t' b, Ends Q t' w (k (b, []))) :
    Ends Q t w ((DeviceAccess.addMember d u []).bind k) :=
  addMember_begin (fun _ => hok _ false) (fun _ => hok _ true) fun t' _ e _ => herr t' e

end

end Rawbin
