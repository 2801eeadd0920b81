import Rawbin.Verify.PlainRoutes
import Rawbin.Verify.Sequential

/-!
# At most one active cycle

`create_cycle` looks for an active cycle of the device before it inserts one. `update_cycle` does
not, but a PATCH that changes a column is rolled back when its response is serialised: every batch
stays as it was created, so there is none to make active again.
-/

namespace Rawbin

/-- No device has two active cycles. -/
def Db.OneActive (db : Db) : Prop :=
  ∀ id c, db.compostCycles.get? id = some c → c.status = .active →
    db.activeTaken c.deviceId (some id) = false

/-- The requests that write cycles. -/
inductive CycleRequest where
  | create (credentials : String) (deviceId : Uuid) (body : CompostCycleCreate) (draws : Draws)
  | update (credentials : String) (cycleId : Uuid) (body : CompostCycleUpdate) (draws : Draws)

inductive CycleEvent where
  | request (r : CycleRequest)
  | tick (dt : Nat)

namespace CycleRequest

def toRequest : CycleRequest → Request
  | .create credentials d body draws => .user credentials (.createCycle d body) draws
  | .update credentials id body draws => .user credentials (.updateCycle id body) draws

/-- A member asks for an active cycle of a device that has another one. -/
def AsksSecond (E : Env) (w : World) : CycleRequest → Prop
  | .create credentials d _ _ => ∃ u user device, Authenticated E credentials u user w ∧
    DeviceMember d u device w ∧ w.db.activeTaken d none = true
  | .update credentials id body _ => ∃ u user device c, Authenticated E credentials u user w ∧
    w.db.compostCycles.get? id = some c ∧ DeviceMember c.deviceId u device w ∧
    body.status = some .active ∧ w.db.activeTaken c.deviceId (some id) = true

/-- The key that the request draws is new. -/
def DrawsNew (w : World) : CycleRequest → Prop
  | .create _ _ _ draws => w.db.compostCycles.contains draws.id = false
  | .update _ _ _ _ => True

end CycleRequest

def CycleEvent.apply (E : Env) : CycleEvent → World → World
  | .request r, w => (serve E r.toRequest w).2
  | .tick dt, w => w.tick dt

/-- The handler itself keeps a second active cycle out: it answers with the conflict and leaves all
cycles as they are, and the database has nothing to reject. -/
structure Guarded (E : Env) (w : World) (r : CycleRequest) (response : Response)
    (raised : Option Exn) (w' : World) : Prop where
  conflict : r.AsksSecond E w → response.status = 409 ∧ w'.db.compostCycles = w.db.compostCycles
  accepted : r.DrawsNew w → raised ≠ some .integrityError

/-- Every batch is as it was created: active and without an end time. -/
def Db.AsCreated (db : Db) : Prop :=
  ∀ id c, db.compostCycles.get? id = some c → c.status = .active ∧ c.endedAt = none

/-! ## The index -/

namespace Db

variable {db : Db}

theorem activeTaken_eq_false_iff {d : Uuid} {except : Option Uuid} :
    db.activeTaken d except = false ↔ ∀ id c, db.compostCycles.get? id = some c →
      c.deviceId = d → c.status = .active → some id = except := by
  rw [activeTaken, Bool.not_eq_false', List.isEmpty_iff, List.eq_nil_iff_forall_not_mem]
  constructor
  · intro h id c hc hd ha
    by_contra hne
    exact h (id, c) (Table.mem_select.mpr ⟨hc, by simp [hd, ha, hne]⟩)
  · intro h e he
    obtain ⟨hc, hp⟩ := Table.mem_select.mp he
    simp only [Bool.and_eq_true, decide_eq_true_eq] at hp
    exact hp.2 (h e.1 e.2 hc hp.1.1 hp.1.2)

theorem activeCycles_eq (d : Uuid) : (Query.activeCycles d).eval db =
    db.compostCycles.select fun _ c => c.deviceId = d && c.status = .active := by
  simp only [Query.eval, cyclesOf, Table.select, List.filter_filter]
  exact List.filter_congr fun _ _ => Bool.and_comm ..

theorem activeCycles_eq_nil_iff {d : Uuid} :
    (Query.activeCycles d).eval db = [] ↔ db.activeTaken d none = false := by
  rw [activeCycles_eq, activeTaken, Bool.not_eq_false', List.isEmpty_iff]
  simp

/-- What the lookup of `create_cycle` finds. -/
theorem OneActive.activeCycles (h : db.OneActive) (d : Uuid) :
    (Query.activeCycles d).eval db = [] ∧ db.activeTaken d none = false ∨
      ∃ e, (Query.activeCycles d).eval db = [e] ∧ db.activeTaken d none = true := by
  rw [activeCycles_eq]
  have htaken : db.activeTaken d none =
      !(db.compostCycles.select fun _ c => c.deviceId = d && c.status = .active).isEmpty := by
    simp [activeTaken]
  rw [htaken]
  generalize hl : (db.compostCycles.select fun _ c => c.deviceId = d && c.status = .active) = l
  cases l with
  | nil => exact .inl ⟨rfl, rfl⟩
  | cons e l =>
    refine .inr ⟨e, ?_, rfl⟩
    cases l with
    | nil => rfl
    | cons e' l =>
      have hmem : e ∈ db.compostCycles.select fun _ c => c.deviceId = d && c.status = .active :=
        hl ▸ List.mem_cons_self
      obtain ⟨hc, hp⟩ := Table.mem_select.mp hmem
      obtain ⟨id, c, hne, hc', hp'⟩ := Table.exists_ne_of_one_lt
        (p := fun _ (c : CompostCycle) => c.deviceId = d && c.status = .active)
        (by rw [hl]; simp) e.1
      simp only [Bool.and_eq_true, decide_eq_true_eq] at hp hp'
      have := activeTaken_eq_false_iff.mp (h e.1 e.2 hc hp.2) id c hc' (hp'.1.trans hp.1.symm) hp'.2
      exact absurd (Option.some.inj this) hne

/-- The index lets a new cycle pass. -/
def RoomFor (db : Db) (row : CompostCycle) : Prop :=
  row.status = .active → db.activeTaken row.deviceId none = false

theorem OneActive.insert (h : db.OneActive) {id : Uuid} {row : CompostCycle}
    (hroom : db.RoomFor row) : ((Write.insertCompostCycle id row).apply db).OneActive := by
  intro id₁ c₁ h₁ ha₁
  refine activeTaken_eq_false_iff.mpr fun id₂ c₂ h₂ hd ha₂ => ?_
  rcases Table.get?_of_insert h₁ with old₁ | ⟨rfl, rfl⟩ <;>
    rcases Table.get?_of_insert h₂ with old₂ | ⟨rfl, rfl⟩
  · exact activeTaken_eq_false_iff.mp (h id₁ c₁ old₁ ha₁) id₂ c₂ old₂ hd ha₂
  · cases activeTaken_eq_false_iff.mp (hroom ha₂) id₁ c₁ old₁ hd.symm ha₁
  · cases activeTaken_eq_false_iff.mp (hroom ha₁) id₂ c₂ old₂ hd ha₂
  · rfl

/-- An update of a cycle of device `d` that the index lets pass. -/
theorem OneActive.update (h : db.OneActive) {id d : Uuid} {patch : CompostCyclePatch} {now : Time}
    {c : CompostCycle} (hc : db.compostCycles.get? id = some c) (hd : c.deviceId = d)
    (hv : (Write.updateCompostCycle id d patch now).violates db = none) :
    ((Write.updateCompostCycle id d patch now).apply db).OneActive := by
  have hcase (id' : Uuid) (c' : CompostCycle)
      (h' : ((Write.updateCompostCycle id d patch now).apply db).compostCycles.get? id' = some c')
      (ha' : c'.status = .active) : ∃ c₀, db.compostCycles.get? id' = some c₀ ∧
        c₀.deviceId = c'.deviceId ∧ (c₀.status = .active ∨
          id' = id ∧ c'.deviceId = d ∧ db.activeTaken d (some id) = false) := by
    rw [Write.apply, Table.get?_update] at h'
    split at h'
    · subst id'
      rw [hc] at h'
      cases h'
      refine ⟨c, hc, rfl, ?_⟩
      cases hs : patch.status with
      | none =>
        simp only [CompostCyclePatch.apply, hs, Option.getD_none] at ha'
        exact .inl ha'
      | some s =>
        simp only [CompostCyclePatch.apply, hs, Option.getD_some] at ha'
        subst ha'
        refine .inr ⟨rfl, hd, ?_⟩
        simpa [Write.updateCompostCycle_violates hc, hs] using hv
    · exact ⟨c', h', rfl, .inl ha'⟩
  intro id₁ c₁ h₁ ha₁
  refine activeTaken_eq_false_iff.mpr fun id₂ c₂ h₂ hd₂ ha₂ => ?_
  obtain ⟨c₁', h₁', hd₁', hs₁⟩ := hcase id₁ c₁ h₁ ha₁
  obtain ⟨c₂', h₂', hd₂', hs₂⟩ := hcase id₂ c₂ h₂ ha₂
  rcases hs₁ with hs₁ | ⟨rfl, hd₁, hfree⟩
  · rcases hs₂ with hs₂ | ⟨rfl, hd₂'', hfree⟩
    · exact activeTaken_eq_false_iff.mp (h id₁ c₁' h₁' hs₁) id₂ c₂' h₂'
        (hd₂'.trans (hd₂.trans hd₁'.symm)) hs₂
    · exact (activeTaken_eq_false_iff.mp hfree id₁ c₁' h₁' (hd₁'.trans (hd₂.symm.trans hd₂''))
        hs₁).symm
  · rcases hs₂ with hs₂ | ⟨rfl, _⟩
    · exact activeTaken_eq_false_iff.mp hfree id₂ c₂' h₂' (hd₂'.trans (hd₂.trans hd₁)) hs₂
    · rfl

end Db

/-! ## The handlers -/

section
variable {E : Env} {w : World}

theorem orNow_ends {Q : Except Exn γ → Session → World → Prop} {t : Session} {pend : List Write}
    {k : Time × List Write → Prog Cmd Exn γ} {given : Option Time}
    (h : Ends Q t w (k (given.getD w.now, pend))) : Ends Q t w ((orNow given pend).bind k) := by
  cases given with
  | none => exact utcnow_ends h
  | some time => exact h

/-- How `create_cycle` ends: turned away, in a conflict, with a new row, or with a key that is not
new. -/
inductive CreateOutcome (E : Env) (w : World) (credentials : String) (d : Uuid)
    (body : CompostCycleCreate) (draws : Draws) : Response → Option Exn → World → Prop where
  | refused {response : Response} {raised : Option Exn} {w' : World}
      (hno : ∀ u user device, Authenticated E credentials u user w → ¬ DeviceMember d u device w)
      (hraised : raised ≠ some .integrityError) (hdb : w'.db = w.db) :
      CreateOutcome E w credentials d body draws response raised w'
  | conflict {response : Response} {raised : Option Exn} {w' : World}
      (htaken : w.db.activeTaken d none = true) (h409 : w.db.OneActive → response.status = 409)
      (hraised : raised ≠ some .integrityError) (hdb : w'.db = w.db) :
      CreateOutcome E w credentials d body draws response raised w'
  | created {u : Uuid} {user : User} {device : Device} {row : CompostCycle} {createdAt : Time}
      {w' : World} (hauth : Authenticated E credentials u user w) (hm : DeviceMember d u device w)
      (hrow : row = ⟨d, .active, body.startedAt.getD w.now, none, body.label, body.notes, createdAt,
        createdAt⟩) (hv : (Write.insertCompostCycle draws.id row).violates w.db = none)
      (hdb : w'.db = (Write.insertCompostCycle draws.id row).apply w.db) :
      CreateOutcome E w credentials d body draws ⟨201, .cycle draws.id row, []⟩ none w'
  | failed {response : Response} {raised : Option Exn} {w' : World}
      (hfree : w.db.activeTaken d none = false)
      (hkey : w.db.compostCycles.contains draws.id = true) (hdb : w'.db = w.db) :
      CreateOutcome E w credentials d body draws response raised w'

theorem createCycle_outcome {credentials : String} {d : Uuid} {body : CompostCycleCreate}
    {draws : Draws} : CreateOutcome E w credentials d body draws
      (serve E (.user credentials (.createCycle d body) draws) w).1
      (Request.raised E (.user credentials (.createCycle d body) draws) w)
      (serve E (.user credentials (.createCycle d body) draws) w).2 := by
  refine serve_raised_ends (P := CreateOutcome E w credentials d body draws) ?_
  refine getCurrentUser_ends rfl (fun t hnone => ?_) fun t u user ht hauth => ?_
  · exact .refused (fun u user _ hauth => absurd hauth (hnone u user)) nofun rfl
  refine assertDeviceMember_ends ht (fun t hnone => ?_) fun t device ht hm => ?_
  · refine .refused (fun u' user' device hauth' => ?_) nofun rfl
    obtain ⟨rfl, rfl⟩ := hauth.unique hauth'
    exact hnone device
  refine select_ends ht fun t ht => ?_
  rcases hactive : (Query.activeCycles d).eval w.db with _ | ⟨e, l⟩
  · have hfree := Db.activeCycles_eq_nil_iff.mp hactive
    simp only [Handler.scalarOneOrNone, Handler.bind_apply, Handler.pure_apply, Prog.pure_bind]
    refine raiseIf_ends (absurd · Bool.false_ne_true) fun _ => orNow_ends ?_
    refine txnow_ends ht fun t createdAt ht => flush_ends (fun t' hf => ?_) fun t' e hf => ?_
    all_goals rw [Session.view_of_nil ht] at hf
    · obtain ⟨hv, hdb⟩ := Write.of_flushed_one hf
      exact .created hauth hm rfl hv hdb
    · have hv := Write.of_flushed_one_error hf
      refine .failed hfree ?_ rfl
      by_contra hkey
      cases hv.symm.trans (Write.insertCompostCycle_violates_iff.mpr
        ⟨Bool.eq_false_iff.mpr hkey, Table.contains_of_get? hm.1, fun _ => hfree⟩)
  · have htaken : w.db.activeTaken d none = true := by
      rw [← Bool.not_eq_false, ← Db.activeCycles_eq_nil_iff, hactive]
      exact List.cons_ne_nil e l
    cases l with
    | nil => exact .conflict htaken (fun _ => rfl) nofun rfl
    | cons e' l =>
      refine .conflict htaken (fun h => ?_) nofun rfl
      rcases h.activeCycles d with ⟨hnil, _⟩ | ⟨e'', hone, _⟩
      · cases hactive.symm.trans hnil
      · cases hactive.symm.trans hone

theorem CreateOutcome.guarded {credentials : String} {d : Uuid} {body : CompostCycleCreate}
    {draws : Draws} {response : Response} {raised : Option Exn} {w' : World}
    (houtcome : CreateOutcome E w credentials d body draws response raised w')
    (h : w.db.OneActive) :
    w'.db.OneActive ∧ Guarded E w (.create credentials d body draws) response raised w' := by
  cases houtcome with
  | refused hno hraised hdb =>
    refine ⟨hdb ▸ h, ?_, fun _ => hraised⟩
    rintro ⟨u, user, device, hauth, hm, _⟩
    exact absurd hm (hno u user device hauth)
  | conflict htaken h409 hraised hdb =>
    exact ⟨hdb ▸ h, fun _ => ⟨h409 h, congrArg Db.compostCycles hdb⟩, fun _ => hraised⟩
  | created hauth hm hrow hv hdb =>
    obtain ⟨_, _, hroom⟩ := Write.insertCompostCycle_violates_iff.mp hv
    refine ⟨hdb ▸ h.insert hroom, ?_, fun _ => nofun⟩
    rintro ⟨_, _, _, _, _, htaken⟩
    subst hrow
    cases (hroom rfl).symm.trans htaken
  | failed hfree hkey hdb =>
    refine ⟨hdb ▸ h, ?_, fun hnew => ?_⟩
    · rintro ⟨_, _, _, _, _, htaken⟩
      cases hfree.symm.trans htaken
    · cases hkey.symm.trans hnew

theorem CreateOutcome.asCreated {credentials : String} {d : Uuid} {body : CompostCycleCreate}
    {draws : Draws} {response : Response} {raised : Option Exn} {w' : World}
    (houtcome : CreateOutcome E w credentials d body draws response raised w')
    (h : w.db.AsCreated) : w'.db.AsCreated := by
  cases houtcome with
  | refused _ _ hdb | conflict _ _ _ hdb | failed _ _ hdb => exact hdb ▸ h
  | created _ _ hrow _ hdb =>
    intro id c hc
    rw [hdb] at hc
    rcases Table.get?_of_insert hc with hc | ⟨_, rfl⟩
    · exact h id c hc
    · subst hrow
      exact ⟨rfl, rfl⟩

theorem stampedPatch_ends {Q : Except Exn γ → Session → World → Prop} {t : Session}
    {pend : List Write} {k : CompostCyclePatch × List Write → Prog Cmd Exn γ}
    {body : CompostCycleUpdate} {c : CompostCycle}
    (h : ∀ patch, patch.status = (annotated body c).status →
      (patch = {} ↔ annotated body c = {}) → Ends Q t w (k (patch, pend))) :
    Ends Q t w ((stampedPatch body c pend).bind k) :=
  ite_ends (fun hneeds => utcnow_ends (h _ rfl (iff_of_false
    (fun hempty => nomatch congrArg CompostCyclePatch.endedAt hempty)
    (annotated_ne_of_needsEndTime hneeds)))) fun _ => h _ rfl Iff.rfl

theorem annotated_status_eq_active_iff {body : CompostCycleUpdate} {c : CompostCycle} :
    (annotated body c).status = some .active ↔ body.status = some .active ∧ c.status ≠ .active := by
  rw [annotated, Option.bind_eq_some_iff]
  simp only [changed_eq_some_iff]
  constructor
  · rintro ⟨_, hs, rfl, hne⟩
    exact ⟨hs, hne⟩
  · rintro ⟨hs, hne⟩
    exact ⟨_, hs, rfl, hne⟩

/-- How `update_cycle` ends: turned away, without a change, with an UPDATE that is rolled back when
the response is serialised, or with one that the index stops. -/
inductive PatchOutcome (E : Env) (w : World) (credentials : String) (id : Uuid)
    (body : CompostCycleUpdate) : Response → Option Exn → Prop where
  | refused {response : Response} {raised : Option Exn}
      (hno : ∀ u user device c, Authenticated E credentials u user w →
        w.db.compostCycles.get? id = some c → ¬ DeviceMember c.deviceId u device w)
      (hs : response.isSuccess = false) (hraised : raised ≠ some .integrityError) :
      PatchOutcome E w credentials id body response raised
  | unchanged {c : CompostCycle} (hc : w.db.compostCycles.get? id = some c)
      (hsame : annotated body c = {}) :
      PatchOutcome E w credentials id body ⟨200, .cycle id c, []⟩ none
  | expired {c : CompostCycle} (hc : w.db.compostCycles.get? id = some c)
      (hne : annotated body c ≠ {}) :
      PatchOutcome E w credentials id body Exn.responseValidationError.response
        (some .responseValidationError)
  | second {c : CompostCycle} (hc : w.db.compostCycles.get? id = some c)
      (hactivates : body.status = some .active ∧ c.status ≠ .active)
      (htaken : w.db.activeTaken c.deviceId (some id) = true) :
      PatchOutcome E w credentials id body Exn.integrityError.response (some .integrityError)

/-- **A PATCH stores nothing**: the database is what it was. -/
theorem updateCycle_outcome {credentials : String} {id : Uuid} {body : CompostCycleUpdate}
    (draws : Draws) : PatchOutcome E w credentials id body
        (serve E (.user credentials (.updateCycle id body) draws) w).1
        (Request.raised E (.user credentials (.updateCycle id body) draws) w) ∧
      (serve E (.user credentials (.updateCycle id body) draws) w).2.db = w.db := by
  refine serve_raised_ends (P := fun response raised w' =>
    PatchOutcome E w credentials id body response raised ∧ w'.db = w.db) ?_
  refine getCurrentUser_ends rfl (fun t hnone => ?_) fun t u user ht hauth => ?_
  · exact ⟨.refused (fun u user _ _ hauth => absurd hauth (hnone u user)) rfl nofun, rfl⟩
  refine select_ends ht fun t ht => ?_
  cases hc : (Query.cycleById id).eval w.db with
  | none =>
    refine ⟨.refused (fun _ _ _ _ _ hc' => ?_) rfl nofun, rfl⟩
    cases hc.symm.trans hc'
  | some c =>
    simp only [Handler.bind_apply, Prog.pure_bind, Prog.bind_assoc]
    refine assertDeviceMember_ends ht (fun t hnone => ?_) fun t device ht hm => ?_
    · refine ⟨.refused (fun u' user' device c' hauth' hc' => ?_) rfl nofun, rfl⟩
      obtain ⟨rfl, rfl⟩ := hauth.unique hauth'
      cases hc.symm.trans hc'
      exact hnone device
    refine stampedPatch_ends fun patch hstatus hempty => ?_
    simp only [Handler.ite_apply]
    split
    · rename_i hsame
      exact ⟨.unchanged hc (hempty.mp hsame), Session.view_of_nil ht w.db⟩
    · rename_i hne
      refine txnow_ends ht fun t updatedAt ht => flush_ends (fun t' hf => ?_) fun t' e hf => ?_
      · exact ⟨.expired hc (mt hempty.mpr hne), rfl⟩
      · rw [Session.view_of_nil ht] at hf
        have hv := Write.of_flushed_one_error hf
        rw [Write.updateCompostCycle_violates hc, Option.ite_none_right_eq_some,
          Option.some_inj] at hv
        obtain ⟨⟨hactive, htaken⟩, rfl⟩ := hv
        exact ⟨.second hc (annotated_status_eq_active_iff.mp (hstatus.symm.trans hactive)) htaken,
          rfl⟩

/-- Where every batch is active, no PATCH asks for a second active one. -/
theorem PatchOutcome.guarded {credentials : String} {id : Uuid} {body : CompostCycleUpdate}
    {response : Response} {raised : Option Exn} {w' : World} {draws : Draws}
    (houtcome : PatchOutcome E w credentials id body response raised) (h : w.db.OneActive)
    (hnew : w.db.AsCreated) :
    Guarded E w (.update credentials id body draws) response raised w' := by
  constructor
  · rintro ⟨_, _, _, c, _, hc, _, _, htaken⟩
    cases htaken.symm.trans (h id c hc (hnew id c hc).1)
  · intro _
    cases houtcome with
    | refused _ _ hraised => exact hraised
    | unchanged | expired => nofun
    | second hc hactivates => exact absurd (hnew _ _ hc).1 hactivates.2

/-! ## Runs -/

theorem CycleEvent.invariant (e : CycleEvent) (h : w.db.OneActive ∧ w.db.AsCreated) :
    (e.apply E w).db.OneActive ∧ (e.apply E w).db.AsCreated := by
  cases e with
  | request r =>
    cases r with
    | create =>
      exact ⟨(createCycle_outcome.guarded h.1).1, createCycle_outcome.asCreated h.2⟩
    | update credentials id body draws =>
      have hdb : (serve E (.user credentials (.updateCycle id body) draws) w).2.db = w.db :=
        (updateCycle_outcome draws).2
      rw [CycleEvent.apply, CycleRequest.toRequest, hdb]
      exact h
  | tick dt => exact h

/-- In a run that starts without batches, each is as it was created, and no device has two. -/
theorem run_asCreated {w₀ : World} (h₀ : w₀.db.compostCycles = .empty)
    (H : Reach (CycleEvent.apply E) (fun _ _ => True) w₀ w) :
    w.db.OneActive ∧ w.db.AsCreated := by
  refine H.invariant (P := fun w => w.db.OneActive ∧ w.db.AsCreated) ⟨?_, ?_⟩
    fun _ e h _ => e.invariant h
  all_goals
    intro id c hc
    rw [h₀] at hc
    cases hc

/-- **One active cycle.** In every run of requests that write cycles, no device ever has two active
ones, and the handler of the next request keeps a second one out itself. -/
theorem cycles_guarded {w₀ : World} (h₀ : w₀.db.compostCycles = .empty)
    (H : Reach (CycleEvent.apply E) (fun _ _ => True) w₀ w) :
    w.db.OneActive ∧ ∀ r : CycleRequest, Guarded E w r (serve E r.toRequest w).1
      (r.toRequest.raised E w) (serve E r.toRequest w).2 := by
  obtain ⟨h, hnew⟩ := run_asCreated h₀ H
  refine ⟨h, fun r => ?_⟩
  cases r with
  | create => exact (createCycle_outcome.guarded h).2
  | update _ _ _ draws => exact (updateCycle_outcome draws).1.guarded h hnew

end

/-! ## A second batch -/

namespace Sample

def alice : String := jwtEncode ⟨1, .access, 0, 0, 0⟩

def startCycle (id : Uuid) : CycleRequest := .create alice 7 ⟨none, none, none⟩ (draws id)

def setStatus (id : Uuid) (status : CycleStatus) : CycleRequest :=
  .update alice id ⟨some status, none, none, none⟩ (draws 0)

end Sample

/-- Alice starts batch 1 and tries to finish it; the second batch of her device is turned down. -/
theorem startCycle_guarded : ∃ w, Reach (CycleEvent.apply Sample.env) (fun _ _ => True)
      Sample.deviceWorld w ∧ w.db.activeTaken 7 none = true ∧
    Guarded Sample.env w (Sample.startCycle 2)
      (serve Sample.env (Sample.startCycle 2).toRequest w).1
      ((Sample.startCycle 2).toRequest.raised Sample.env w)
      (serve Sample.env (Sample.startCycle 2).toRequest w).2 := by
  have H : Reach (CycleEvent.apply Sample.env) (fun _ _ => True) Sample.deviceWorld _ :=
    (Reach.refl.step (e := .request (Sample.startCycle 1)) trivial).step
      (e := .request (Sample.setStatus 1 .completed)) trivial
  exact ⟨_, H, by decide +kernel, (cycles_guarded rfl H).2 (Sample.startCycle 2)⟩

end Rawbin
