import Rawbin.Verify.LocalAssertions

/-!
# The lifecycle of a batch

A batch goes from active to curing to completed. `update_cycle` compares the new status with the old
one for inequality only; but a PATCH that changes a column is rolled back when its response is
serialised, so no batch ever leaves the status that it was created with.
-/

namespace Rawbin

/-- How far a batch has come. -/
def CycleStatus.rank : CycleStatus → Nat
  | .active => 0
  | .curing => 1
  | .completed => 2

def isCycleJob : Job → Bool
  | .http (.user _ (.createCycle _ _) _) => true
  | .http (.user _ (.updateCycle _ _) _) => true
  | .http (.user _ (.createWasteLog _ _) _) => true
  | _ => false

/-! ## What the routes commit -/

/-- What the job knows about the cycle of a new entry. -/
def LogSource (j : Job) (log : Log) (id : Uuid) (row : WasteLog) : Prop :=
  ∃ credentials d body draws, j = .http (.user credentials (.createWasteLog d body) draws) ∧
    draws.id = id ∧ row.deviceId = d ∧ match body.compostCycleId with
    | some cycleId => row.compostCycleId = some cycleId ∧
      ∃ c, ⟨_, .select (.cycleOfDevice cycleId d), some c⟩ ∈ log
    | none => ∃ l, ⟨_, .select (.activeCycles d), l⟩ ∈ log ∧ l.length ≤ 1 ∧
      row.compostCycleId = l.head?.map Prod.fst

/-- A statement that the routes about cycles commit, and where its contents come from. -/
def CycleWrite (j : Job) (log : Log) : Write → Prop
  | .insertCompostCycle .. => True
  | .insertWasteLog id row => LogSource j log id row
  | _ => False

/-- A job reads before it writes, and commits one of the above. -/
def CycleAssertion (j : Job) : Assertion := fun log ws c =>
  c.plain = true ∧ (c.isSelect = true → ws = []) ∧
    (c.isCommit = true → ∀ w ∈ ws, CycleWrite j log w)

theorem CycleAssertion.routine (j : Job) : Assertion.Routine (CycleAssertion j) where
  select _ _ _ := ⟨rfl, fun _ => rfl, nofun⟩
  execute _ _ _ := ⟨rfl, nofun, nofun⟩
  utcnow _ _ := ⟨rfl, nofun, nofun⟩
  txnow _ _ := ⟨rfl, nofun, nofun⟩
  respond _ _ _ := ⟨rfl, nofun, nofun⟩
  rollback _ _ := ⟨rfl, nofun, nofun⟩

theorem LogSource.mono {j : Job} {log log' : Log} {id : Uuid} {row : WasteLog} (hl : log ⊆ log')
    (h : LogSource j log id row) : LogSource j log' id row := by
  obtain ⟨credentials, d, body, draws, hj, hid, hd, h⟩ := h
  refine ⟨credentials, d, body, draws, hj, hid, hd, ?_⟩
  cases hgiven : body.compostCycleId with
  | some cycleId =>
    rw [hgiven] at h
    exact ⟨h.1, h.2.imp fun _ hc => hl hc⟩
  | none =>
    rw [hgiven] at h
    exact h.imp fun _ h => ⟨hl h.1, h.2⟩

theorem CycleWrite.mono {j : Job} {log log' : Log} {w : Write} (hl : log ⊆ log')
    (h : CycleWrite j log w) : CycleWrite j log' w := by
  cases w with
  | insertCompostCycle => trivial
  | insertWasteLog id row => exact LogSource.mono hl h
  | _ => exact h.elim

section
variable {E : Env} {user : CurrentUser} {draws : Draws} {log : Log} {j : Job} {credentials : String}

abbrev CycleLeaves (j : Job) : Ending (Response × List Write) :=
  Leaves fun log ws => ∀ w ∈ ws, CycleWrite j log w

/-- The last part of the routes that INSERT: the one statement is executed. -/
theorem executeOne_keeps {wr : Write} {response : Response} (hw : CycleWrite j log wr)
    (hnoop : ∀ db, wr.noop db = false) :
    Keeps (CycleAssertion j) (CycleLeaves j) log []
      ((Handler.flush [wr]).bind fun r => .pure (response, r.2)) := by
  refine .execute ((CycleAssertion.routine j).execute ..) (fun _ => .raise Leaves.error)
    (fun db h => ?_) ?_
  · rw [hnoop db] at h
    cases h
  · refine .pure (Leaves.of_executed fun log' hl => List.forall_mem_singleton.mpr ?_)
    exact hw.mono (List.Subset.trans (List.subset_append_left ..) hl.subset)

theorem createCycle_keeps {d : Uuid} {body : CompostCycleCreate} :
    Keeps (CycleAssertion j) (CycleLeaves j) log [] (createCycle d body user draws []) := by
  refine assertDeviceMember_keeps (CycleAssertion.routine j).reads (fun _ => Leaves.error)
    fun device link => ?_
  refine .select ((CycleAssertion.routine j).select ..) fun db => ?_
  refine scalarOneOrNone_keeps Leaves.error fun _ => raiseIf_keeps Leaves.error fun _ => ?_
  refine orNow_keeps ((CycleAssertion.routine j).utcnow ..) fun log' startedAt _ => ?_
  refine .txnow ((CycleAssertion.routine j).txnow ..) fun createdAt => ?_
  exact executeOne_keeps trivial fun _ => rfl

theorem stampedPatch_keeps {Q : Ending γ} {pend : List Write} {body : CompostCycleUpdate}
    {c : CompostCycle} {k : CompostCyclePatch × List Write → Prog Cmd Exn γ}
    (h : ∀ log' patch, Keeps (CycleAssertion j) Q log' [] (k (patch, pend))) :
    Keeps (CycleAssertion j) Q log [] ((stampedPatch body c pend).bind k) :=
  ite_keeps (fun _ => .utcnow ((CycleAssertion.routine j).utcnow ..) fun _ => h _ _) fun _ => h _ _

/-- The UPDATE of a PATCH is executed, and the exception after it rolls it back. -/
theorem updateCycle_keeps {id : Uuid} {body : CompostCycleUpdate} :
    Keeps (CycleAssertion j) (CycleLeaves j) log [] (updateCycle id body user []) := by
  refine .select ((CycleAssertion.routine j).select ..) fun db => ?_
  cases (Query.cycleById id).eval db with
  | none => exact .raise Leaves.error
  | some c =>
    simp only [Handler.bind_apply, Prog.pure_bind, Prog.bind_assoc]
    refine assertDeviceMember_keeps (CycleAssertion.routine j).reads (fun _ => Leaves.error)
      fun device link => stampedPatch_keeps fun log' patch => ?_
    simp only [Handler.ite_apply]
    split
    · exact .pure (Leaves.of_executed fun _ _ w hw => absurd hw List.not_mem_nil)
    · refine .txnow ((CycleAssertion.routine j).txnow ..) fun updatedAt => ?_
      exact .execute ((CycleAssertion.routine j).execute ..) (fun _ => .raise Leaves.error)
        (fun _ _ => .raise Leaves.error) (.raise Leaves.error)

theorem createWasteLog_keeps {d : Uuid} {body : WasteLogCreate}
    (hj : j = .http (.user credentials (.createWasteLog d body) draws)) :
    Keeps (CycleAssertion j) (CycleLeaves j) log [] (createWasteLog d body user draws []) := by
  refine assertDeviceMember_keeps (CycleAssertion.routine j).reads (fun _ => Leaves.error)
    fun device link => ?_
  have hrest {log : Log} {cycleId : Option Uuid} (hid : ∀ row : WasteLog, row.deviceId = d →
      row.compostCycleId = cycleId → LogSource j log draws.id row) :
      Keeps (CycleAssertion j) (CycleLeaves j) log [] ((do
        let loggedAt ← orNow body.loggedAt
        let createdAt ← Handler.txnow
        let entry : WasteLog := {
          deviceId := d
          compostCycleId := cycleId
          userId := some user.id
          loggedAt := loggedAt
          wasteType := body.wasteType
          weightKg := body.weightKg
          notes := body.notes
          createdAt := createdAt }
        .add (.insertWasteLog draws.id entry)
        .flush
        pure ⟨201, .wasteLog draws.id entry, []⟩ : Handler Response) []) := by
    refine orNow_keeps ((CycleAssertion.routine j).utcnow ..) fun log' loggedAt hlog => ?_
    refine .txnow ((CycleAssertion.routine j).txnow ..) fun createdAt => ?_
    refine executeOne_keeps (LogSource.mono ?_ (hid _ rfl rfl)) fun _ => rfl
    exact List.Subset.trans hlog.subset (List.subset_append_left ..)
  simp only [Handler.bind_apply, attributedCycle]
  cases hgiven : body.compostCycleId with
  | some id =>
    refine .select ((CycleAssertion.routine j).select ..) fun db => ?_
    cases (Query.cycleOfDevice id d).eval db with
    | none => exact .raise Leaves.error
    | some c =>
      refine hrest fun row hd hrow => ⟨credentials, d, body, draws, hj, rfl, hd, ?_⟩
      rw [hgiven]
      exact ⟨hrow, c, List.mem_append_right _ (List.mem_singleton_self _)⟩
  | none =>
    refine .select ((CycleAssertion.routine j).select ..) fun db => ?_
    simp only [Prog.pure_bind, Handler.bind_apply, Prog.bind_assoc]
    refine scalarOneOrNone_keeps Leaves.error fun hone => ?_
    refine hrest fun row hd hrow => ⟨credentials, d, body, draws, hj, rfl, hd, ?_⟩
    rw [hgiven]
    exact ⟨_, List.mem_append_right _ (List.mem_singleton_self _), hone, hrow⟩

theorem cycleJob_keeps (hj : isCycleJob j = true) :
    Keeps (CycleAssertion j) (fun _ _ _ => True) [] [] (j.prog E) := by
  cases j with
  | http r =>
    cases r with
    | user credentials route draws =>
      refine Request.keeps_of_routine (CycleAssertion.routine _)
        (fun _ _ h => ⟨rfl, nofun, fun _ => h⟩)
        fun _ _ _ _ _ _ => ?_
      cases route with
      | createCycle d body => exact createCycle_keeps
      | updateCycle id body => exact updateCycle_keeps
      | createWasteLog d body => exact createWasteLog_keeps rfl
      | _ => cases hj
    | auth => cases hj
  | _ => cases hj

end

/-! ## Runs -/

/-- No batch has gone back. -/
def Db.Advances (db db' : Db) : Prop :=
  ∀ id c, db.compostCycles.get? id = some c →
    ∃ c', db'.compostCycles.get? id = some c' ∧ c.status.rank ≤ c'.status.rank

theorem Db.Advances.refl (db : Db) : db.Advances db := fun _ c hc => ⟨c, hc, Nat.le_refl _⟩

theorem Db.Advances.trans {db db' db'' : Db} (h : db.Advances db') (h' : db'.Advances db'') :
    db.Advances db'' := by
  intro id c hc
  obtain ⟨c', hc', hle⟩ := h id c hc
  obtain ⟨c'', hc'', hle'⟩ := h' id c' hc'
  exact ⟨c'', hc'', hle.trans hle'⟩

/-- A committed statement leaves the cycles of before as they are. -/
theorem CycleWrite.get? {j : Job} {log : Log} {w : Write} {db : Db} {id : Uuid} {c : CompostCycle}
    (hw : CycleWrite j log w) (hc : db.compostCycles.get? id = some c) :
    (w.apply db).compostCycles.get? id = some c := by
  cases w with
  | insertCompostCycle id' row => exact Table.get?_insert_of_some hc ..
  | insertWasteLog => exact hc
  | _ => exact hw.elim

theorem CycleWrite.get?_view {j : Job} {log : Log} {ws : List Write} {db : Db} {id : Uuid}
    {c : CompostCycle} (hws : ∀ w ∈ ws, CycleWrite j log w)
    (hc : db.compostCycles.get? id = some c) :
    (ws.foldl (fun db w => w.apply db) db).compostCycles.get? id = some c := by
  induction ws generalizing db with
  | nil => exact hc
  | cons w ws ih =>
    exact ih (fun w' hw' => hws w' (List.mem_cons_of_mem _ hw'))
      ((hws w List.mem_cons_self).get? hc)

/-- Any job about cycles may start, and any command may be issued. -/
def anyCycleJob : Pool → Label Choice Job ℕ → Prop :=
  fun c l => guarded isCycleJob (fun _ _ => true) c l = true

section
variable {E : Env} {w₀ : World} {c c' : Pool} {l : Label Choice Job ℕ}

theorem run_cycleAssertion (H : (backend E).Run anyCycleJob ⟨w₀, []⟩ c)
    {t : Thread Cmd Session Exn Job Outcome} (ht : t ∈ c.threads) {β : Type} {cm : Cmd β}
    {k : β → Prog Cmd Exn Outcome} (hp : t.prog = .cmd cm k) :
    CycleAssertion t.req t.log t.sess.written cm :=
  run_keeps (I := CycleAssertion) H (fun _ _ hj => cycleJob_keeps hj) ht hp

/-- A step leaves every cycle that is stored as it is. -/
theorem step_cycles (H : (backend E).Run anyCycleJob ⟨w₀, []⟩ c) (hs : (backend E).Step c l c')
    {id : Uuid} {cycle : CompostCycle} (hc : c.state.db.compostCycles.get? id = some cycle) :
    c'.state.db.compostCycles.get? id = some cycle := by
  rcases step_db_cases hs with hdb | ⟨i, x, t, rfl, hi, β, cm, k, hp, hcommit, hdb⟩
  · rw [hdb]
    exact hc
  · have hI : CycleAssertion t.req t.log t.sess.written cm :=
      run_cycleAssertion H (List.mem_of_getElem? hi) hp
    rw [hdb]
    exact CycleWrite.get?_view (hI.2.2 hcommit) hc

/-- **The lifecycle.** In no run of requests about cycles, however they are interleaved, does a
batch ever go back. -/
theorem cycle_advances (H : (backend E).Run anyCycleJob ⟨w₀, []⟩ c)
    (H' : (backend E).Run anyCycleJob c c') : c.state.db.Advances c'.state.db := by
  induction H' with
  | refl => exact .refl _
  | @step c₁ l c₂ H₁ hok hs ih =>
    exact ih.trans fun id cycle hc => ⟨cycle, step_cycles (H.trans H₁) hs hc, Nat.le_refl _⟩

end

/-! ## A batch that is not finished -/

/-- Alice asks for batch 1 of device 7. -/
def newBatch : Job := Sample.request 1 (.createCycle 7 ⟨none, none, none⟩) 1

/-- Alice sets the status of batch 1. -/
def moveBatch (status : CycleStatus) : Job :=
  Sample.request 1 (.updateCycle 1 ⟨some status, none, none, none⟩) 0

def newThenCompleted : List (Label Choice Job Nat) :=
  .spawn newBatch :: Sample.steps 0 10 ++ .spawn (moveBatch .completed) :: Sample.steps 1 10

/-- Alice finishes batch 1: she is answered 500, and the batch is still active. -/
theorem newThenCompleted_advances : ∃ c c',
    (backend Sample.env).followIf (guarded isCycleJob fun _ _ => true) ⟨Sample.deviceWorld, []⟩
      newThenCompleted = some c ∧
    (backend Sample.env).followIf (guarded isCycleJob fun _ _ => true) c
      (.spawn (moveBatch .curing) :: Sample.steps 2 9) = some c' ∧
    c.state.db.Advances c'.state.db ∧
    (c'.state.db.compostCycles.get? 1).map (·.status) = some .active := by
  have h : ((backend Sample.env).followIf (guarded isCycleJob fun _ _ => true)
      ⟨Sample.deviceWorld, []⟩ newThenCompleted).any (fun c =>
        ((backend Sample.env).followIf (guarded isCycleJob fun _ _ => true) c
          (.spawn (moveBatch .curing) :: Sample.steps 2 9)).any fun c' =>
            (c'.state.db.compostCycles.get? 1).map (·.status) = some .active) = true := by
    decide +kernel
  obtain ⟨c, hc, h⟩ := (Option.any_eq_true _ _).mp h
  obtain ⟨c', hc', h⟩ := (Option.any_eq_true _ _).mp h
  exact ⟨c, c', hc, hc', cycle_advances (.of_followIf hc) (.of_followIf hc'), by simpa using h⟩

end Rawbin
