import Rawbin.Verify.Handshake
import Rawbin.Verify.PlainRoutes

/-!
# Two stores and one confirm

A confirm deletes the nonce in Redis at once and leaves the pairing flag to the commit of `get_db`.
Here every statement of that commit may fail, without an effect or after it; the rollback that
follows does not reach Redis.
-/

namespace Rawbin

/-! ## Commits that may fail -/

/-- The flush of a session whose connection may fail. -/
def flushOrFail : List Write → Prog Cmd Exn Unit
  | [] => .pure ()
  | w :: ws => .cmd (.attempt (.execute w)) fun
    | .ok (.ok _) => flushOrFail ws
    | .ok (.error e) => .raise e
    | .error e => .raise e

/-- The end of a session whose connection may fail. -/
def finishFailing (pending : List Write) : Prog Cmd Exn Unit :=
  closeSession (flushOrFail pending) commitOrFail

/-- A route with the session of `get_db`, whose connection may fail after the response. -/
def getDbFailing (route : Handler Response) : Prog Cmd Exn Response := getDbWith finishFailing route

/-- The world that a request leaves when its commands fail as `x` says. -/
def serveFailing (E : Env) (r : Request) (w : World) (x : ℕ → Choice) : World :=
  (machine.run x (getDbFailing (r.handle E)) .idle w).2.2

/-- How many commands the request issues before it answers. -/
def commandsBefore (E : Env) (r : Request) (w : World) (x : ℕ → Choice) : ℕ :=
  machine.steps x (r.handle E []) .idle w

/-- The confirm had both effects, or none: the device is paired and its nonce gone, or both are as
they were. -/
def ConfirmAtomic (d : Uuid) (w w' : World) : Prop :=
  (w'.db.devices.get? d).any Device.isPaired = true ∧ w'.redis (.challenge d) = none ∨
    w'.db.devices.get? d = w.db.devices.get? d ∧
      w'.redis (.challenge d) = w.redis (.challenge d)

/-! ## What the choices decide -/

theorem Cmd.exec_of_data {c : Cmd β} (h : c.isData = true) (x y : Choice) (t : Session)
    (w : World) : c.exec x t w = c.exec y t w := by
  cases c with
  | commit | rollback | respond | attempt => cases h
  | _ => rfl

/-- A route has no command that may fail. -/
theorem Plain.run_eq {p : Prog Cmd Exn α} (h : Plain p) (x : ℕ → Choice) (t : Session) (w : World) :
    machine.run x p t w = machine.runConst .ok p t w := by
  induction p generalizing x t w with
  | pure | raise => rfl
  | cmd c k ih =>
    have hexec : machine.exec (x 0) c t w = machine.exec .ok c t w := c.exec_of_data h.1 ..
    rw [Machine.run, hexec]
    exact ih _ (h.2 _ ⟨.ok, t, w, rfl⟩) ..

/-- The commit of one statement takes effect iff the statement and the COMMIT do, and the session
hears of the first. -/
theorem finishFailing_run {wr : Write} {t : Session} {w : World} (ht : t.written = [])
    (hv : wr.violates w.db = none) (hnoop : wr.noop w.db = false) (x : ℕ → Choice) :
    (machine.run x (finishFailing [wr]) t w).2.2 =
      if x 0 = .ok ∧ x 1 ≠ .fault then { w with db := wr.apply w.db } else w := by
  have hexec : (Cmd.execute wr).exec .ok t w =
      (.ok (), { t.begin w.now with written := t.written ++ [wr] }, w) := by
    simp only [Cmd.exec, Session.view_of_nil ht, hv, hnoop, Bool.false_eq_true, if_false]
  show (machine.run x (.cmd (.attempt (.execute wr)) _) t w).2.2 = _
  rw [run_attempt, hexec]
  cases h0 : x 0 with
  | fault | lost => simp only [reduceCtorEq, false_and, if_false]; rfl
  | ok =>
    have hcommitted (b : Option Time) :
        ({ w with db := Session.view ⟨t.written ++ [wr], b⟩ w.db } : World) =
          { w with db := wr.apply w.db } := by
      rw [Session.view_snoc, Session.view_of_nil ht]
    show (machine.run _ (.cmd (.attempt .commit) _) _ w).2.2 = _
    rw [run_attempt]
    cases h1 : x 1 with
    | ok | lost =>
      rw [if_pos ⟨rfl, by simp⟩]
      exact hcommitted _
    | fault =>
      rw [if_neg fun h => h.2 rfl]
      rfl

section
variable {E : Env} {w : World}

/-- Up to the response nothing can fail; after it the commit decides. -/
theorem serveFailing_eq {r : Request} (hplain : Plain (r.handle E [])) (x : ℕ → Choice) :
    serveFailing E r w x = match machine.runConst .ok (r.handle E []) .idle w with
      | (.ok (_, pending), t, w') => (machine.run (fun n => x (n + 1 + commandsBefore E r w x))
          (finishFailing pending) t w').2.2
      | (.error _, _, w') => w' := by
  rw [serveFailing, getDbFailing, getDbWith, Machine.run_bind, Machine.run_outcome,
    Machine.steps_outcome,
    hplain.run_eq]
  generalize machine.runConst .ok (r.handle E []) .idle w = res
  obtain ⟨res, t, w'⟩ := res
  cases res with
  | error e => rfl
  | ok res =>
    obtain ⟨response, pending⟩ := res
    exact congrArg Prod.snd (machine.run_bind_const _ (finishFailing pending) response t w')

/-- The condition: the confirm is not accepted, or its UPDATE and its COMMIT take effect. -/
def ConfirmCommits (E : Env) (credentials : String) (body : PairingConfirmRequest) (draws : Draws)
    (w : World) (x : ℕ → Choice) : Prop :=
  let n := commandsBefore E (.user credentials (.pairingConfirm body) draws) w x
  Confirmable E w credentials body → x (n + 1) = .ok ∧ x (n + 2) ≠ .fault

theorem Confirmable.unpaired {credentials : String} {body : PairingConfirmRequest}
    (h : Confirmable E w credentials body) : ∃ device,
      w.db.devices.get? body.deviceId = some device ∧ device.isPaired = false ∧
        w.redis (.challenge body.deviceId) ≠ none := by
  obtain ⟨_, _, device, _, hm, hpaired, hnonce, _⟩ := h
  refine ⟨device, hm.1, hpaired, fun hnone => ?_⟩
  cases (Expiring.get_of_none hnone).symm.trans hnonce

/-- **A confirm and the commit.** A confirm pairs the device and consumes its nonce, or does
neither, iff it is not accepted, or its UPDATE and its COMMIT take effect. -/
theorem confirm_atomic (credentials : String) (body : PairingConfirmRequest) (draws : Draws)
    (x : ℕ → Choice) : ConfirmAtomic body.deviceId w
        (serveFailing E (.user credentials (.pairingConfirm body) draws) w x) ↔
      ConfirmCommits E credentials body draws w x := by
  have hplain : Plain ((Request.user credentials (.pairingConfirm body) draws).handle E []) := by
    refine Request.plain_of_refuses (fun e he => ?_) []
    obtain ⟨_, _, he⟩ := he
    exact verifyDeviceHmac_refuses he
  have hends : Ends (ConfirmEnds E w credentials body) .idle w
      ((Request.user credentials (.pairingConfirm body) draws).handle E []) :=
    pairingConfirm_ends body
  rw [serveFailing_eq hplain, ConfirmCommits]
  rw [Ends, Machine.Ends] at hends
  generalize machine.runConst .ok
    ((Request.user credentials (.pairingConfirm body) draws).handle E []) .idle w = res at hends ⊢
  obtain ⟨res, t, w'⟩ := res
  cases hends with
  | rejected e t h => exact iff_of_true (.inr ⟨rfl, rfl⟩) fun hc => absurd hc h
  | accepted confirm t h hd ht =>
    generalize commandsBefore E (.user credentials (.pairingConfirm body) draws) w x = n
    obtain ⟨device, hdevice, hunpaired, hnonce⟩ := h.unpaired
    have hgone : w.redis.delAll [.challenge body.deviceId] (.challenge body.deviceId) = none :=
      Expiring.delAll_of_mem (List.mem_singleton_self _)
    simp only [finishFailing_run (w := { w with redis := w.redis.delAll _ }) ht
      (h.update_violates _) rfl, Nat.add_comm _ n, Nat.zero_add, Nat.reduceAdd]
    by_cases hcommit : x (n + 1) = .ok ∧ x (n + 2) ≠ .fault
    · rw [if_pos hcommit]
      refine iff_of_true (.inl ⟨?_, hgone⟩) fun _ => hcommit
      show ((w.db.devices.update body.deviceId _).get? body.deviceId).any _ = true
      rw [Table.get?_update_self, hdevice]
      rfl
    · rw [if_neg hcommit]
      refine iff_of_false ?_ fun hc => hcommit (hc h)
      rintro (⟨hpaired, _⟩ | ⟨_, hsame⟩)
      · rw [hdevice] at hpaired
        cases hunpaired.symm.trans hpaired
      · exact hnonce (hsame.symm.trans hgone)

end

/-! ## A COMMIT that fails -/

namespace Sample

/-- Alice has challenged device 7. -/
def challenged : World := (challengeUid.apply env ⟨deviceWorld, []⟩).world

/-- Everything works but the COMMIT of her confirm. -/
def commitFails (n : ℕ) : Choice := if n = 9 then .fault else .ok

/-- The world after her confirm. -/
def confirmedInVain : World :=
  serveFailing env (.user (jwtEncode ⟨1, .access, 0, 0, 0⟩)
    (.pairingConfirm ⟨7, "nonce", ".nonce"⟩) (draws 0)) challenged commitFails

end Sample

/-- The nonce is used up, and the device is not paired. -/
theorem failedCommit_consumes : ¬ ∀ (E : Env) (w : World) (credentials : String)
      (body : PairingConfirmRequest) (draws : Draws) (x : ℕ → Choice),
    ConfirmAtomic body.deviceId w
      (serveFailing E (.user credentials (.pairingConfirm body) draws) w x) := by
  intro h
  have hpaired : (Sample.confirmedInVain.db.devices.get? 7).any Device.isPaired = false := by
    decide +kernel
  have hstored : (Sample.challenged.redis (.challenge 7)).isNone = false := by decide +kernel
  have hgone : (Sample.confirmedInVain.redis (.challenge 7)).isNone = true := by decide +kernel
  rcases h Sample.env Sample.challenged (Sample.jwtEncode ⟨1, .access, 0, 0, 0⟩)
    ⟨7, "nonce", ".nonce"⟩ (Sample.draws 0) Sample.commitFails with ⟨hp, _⟩ | ⟨_, hsame⟩
  · cases hpaired.symm.trans hp
  · cases hgone.symm.trans ((congrArg Option.isNone hsame).trans hstored)

end Rawbin
