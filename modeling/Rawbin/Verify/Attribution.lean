import Rawbin.Verify.ActiveCycle
import Rawbin.Verify.Lifecycle

/-!
# The cycle of a waste log

The device of a log is stored twice: in the log, and in the cycle that it refers to. The route looks
up the cycle that it is given together with the device, and without one the active cycle of the
device; cycles are not deleted and do not change their device, so the two stay the same.
-/

namespace Rawbin

namespace Db

/-- The cycle belongs to the device. -/
def CycleOf (db : Db) (d id : Uuid) : Prop :=
  ∃ c, db.compostCycles.get? id = some c ∧ c.deviceId = d

/-- The logs refer to cycles of their devices. -/
def Attributed (db : Db) : Prop :=
  ∀ id row, db.wasteLogs.get? id = some row →
    ∀ cycleId, row.compostCycleId = some cycleId → db.CycleOf row.deviceId cycleId

/-- The active cycle of the device, if it has one. -/
def ActiveIs (db : Db) (d : Uuid) (cycleId : Option Uuid) : Prop :=
  ∀ id, cycleId = some id ↔
    ∃ c, db.compostCycles.get? id = some c ∧ c.deviceId = d ∧ c.status = .active

end Db

/-- The answer shows that the cycle belongs to the device. -/
def Shows (d id : Uuid) (e : Event Cmd) : Prop :=
  (∃ c, e = ⟨_, .select (.cycleOfDevice id d), some c⟩) ∨
    ∃ l c, e = ⟨_, .select (.activeCycles d), l⟩ ∧ (id, c) ∈ l

section
variable {j : Job} {log : Log} {db db₀ : Db} {d id : Uuid} {row : WasteLog} {w : Write}

theorem mem_activeCycles {c : CompostCycle} : (id, c) ∈ (Query.activeCycles d).eval db ↔
    db.compostCycles.get? id = some c ∧ c.deviceId = d ∧ c.status = .active := by
  rw [Db.activeCycles_eq, Table.mem_select]
  simp

theorem Shows.cycleOf {cm : Cmd β} {x : Choice} {t : Session} {w : World}
    (h : Shows d id ⟨β, cm, (cm.exec x t w).1⟩) :
    cm.isSelect = true ∧ (t.view w.db).CycleOf d id := by
  rcases h with ⟨c, he⟩ | ⟨l, c, he, hc⟩
  · obtain ⟨hsel, heval⟩ := Cmd.eval_of_event he
    obtain ⟨hget, hd⟩ := Option.filter_eq_some_iff.mp heval
    exact ⟨hsel, c, hget, of_decide_eq_true hd⟩
  · obtain ⟨hsel, rfl⟩ := Cmd.eval_of_event he
    obtain ⟨hget, hd, _⟩ := mem_activeCycles.mp hc
    exact ⟨hsel, c, hget, hd⟩

theorem LogSource.shows (h : LogSource j log id row) {cycleId : Uuid}
    (hrow : row.compostCycleId = some cycleId) : ∃ e ∈ log, Shows row.deviceId cycleId e := by
  obtain ⟨credentials, d, body, draws, rfl, _, rfl, h⟩ := h
  cases hgiven : body.compostCycleId with
  | some id' =>
    rw [hgiven] at h
    obtain ⟨hid, c, hc⟩ := h
    cases hrow.symm.trans hid
    exact ⟨_, hc, .inl ⟨c, rfl⟩⟩
  | none =>
    rw [hgiven] at h
    obtain ⟨l, hl, _, hid⟩ := h
    obtain ⟨e, he, rfl⟩ := Option.map_eq_some_iff.mp (hid.symm.trans hrow)
    exact ⟨_, hl, .inr ⟨l, e.2, rfl, List.mem_of_head? he⟩⟩

theorem Db.CycleOf.apply (h : db.CycleOf d id) (hw : CycleWrite j log w) :
    (w.apply db).CycleOf d id := by
  obtain ⟨c, hc, hd⟩ := h
  cases w with
  | insertCompostCycle id' row => exact ⟨c, Table.get?_insert_of_some hc .., hd⟩
  | insertWasteLog => exact ⟨c, hc, hd⟩
  | _ => exact hw.elim

/-- What a job that commits makes of the logs. -/
structure LogsBy (j : Job) (log : Log) (db₀ db : Db) : Prop where
  attributed : db.Attributed
  kept : ∀ d id, db₀.CycleOf d id → db.CycleOf d id
  source : ∀ id row, db.wasteLogs.get? id = some row →
    db₀.wasteLogs.get? id = some row ∨ LogSource j log id row

theorem LogsBy.apply (h : LogsBy j log db₀ db) (hw : CycleWrite j log w)
    (hshown : ∀ d id, (∃ e ∈ log, Shows d id e) → db₀.CycleOf d id) :
    LogsBy j log db₀ (w.apply db) := by
  refine ⟨fun id row hrow cycleId hcycle => ?_, fun d id hd => (h.kept d id hd).apply hw,
    fun id row hrow => ?_⟩
  · cases w with
    | insertWasteLog id' row' =>
      rcases Table.get?_of_insert hrow with hrow | ⟨_, rfl⟩
      · exact h.attributed id row hrow cycleId hcycle
      · exact h.kept _ _ (hshown _ _ (LogSource.shows hw hcycle))
    | insertCompostCycle =>
      exact (h.attributed id row hrow cycleId hcycle).apply hw
    | _ => exact hw.elim
  · cases w with
    | insertWasteLog id' row' =>
      rcases Table.get?_of_insert hrow with hrow | ⟨rfl, rfl⟩
      · exact h.source id row hrow
      · exact .inr hw
    | insertCompostCycle => exact h.source id row hrow
    | _ => exact hw.elim

theorem LogsBy.foldl {ws : List Write} (h : LogsBy j log db₀ db)
    (hws : ∀ w ∈ ws, CycleWrite j log w)
    (hshown : ∀ d id, (∃ e ∈ log, Shows d id e) → db₀.CycleOf d id) :
    LogsBy j log db₀ (ws.foldl (fun db w => w.apply db) db) := by
  induction ws generalizing db with
  | nil => exact h
  | cons w ws ih =>
    rw [List.foldl_cons]
    exact ih (h.apply (hws w List.mem_cons_self) hshown) fun w hw =>
      hws w (List.mem_cons_of_mem _ hw)

end

/-! ## Runs -/

section
variable {E : Env} {w₀ : World} {c c' : Pool} {l : Label Choice Job ℕ}

structure AttributionInv (w₀ : World) (c : Pool) : Prop where
  attributed : c.state.db.Attributed
  shown : ∀ t ∈ c.threads, ∀ d id, (∃ e ∈ t.log, Shows d id e) → c.state.db.CycleOf d id
  source : ∀ id row, c.state.db.wasteLogs.get? id = some row →
    w₀.db.wasteLogs.get? id = some row ∨
      ∃ (i : ℕ) (t : Thread Cmd Session Exn Job Outcome), c.threads[i]? = some t ∧
        LogSource t.req t.log id row

theorem AttributionInv.step (ih : AttributionInv w₀ c)
    (H : (backend E).Run anyCycleJob ⟨w₀, []⟩ c) (hs : (backend E).Step c l c') :
    AttributionInv w₀ c' := by
  have hby : c'.state.db = c.state.db ∨
      ∃ (i : ℕ) (t : Thread Cmd Session Exn Job Outcome), c.threads[i]? = some t ∧
        LogsBy t.req t.log c.state.db c'.state.db := by
    rcases step_db_cases hs with hdb | ⟨i, x, t, rfl, hi, β, cm, k, hp, hcommit, hdb⟩
    · exact .inl hdb
    · have ht := List.mem_of_getElem? hi
      refine .inr ⟨i, t, hi, hdb ▸ LogsBy.foldl ?_ ((run_cycleAssertion H ht hp).2.2 hcommit)
        (ih.shown t ht)⟩
      exact ⟨ih.attributed, fun _ _ h => h, fun _ _ h => .inl h⟩
  have hkept : ∀ d id, c.state.db.CycleOf d id → c'.state.db.CycleOf d id := by
    rcases hby with hdb | ⟨_, t, _, hby⟩
    · exact fun _ _ h => hdb ▸ h
    · exact hby.kept
  refine ⟨?_, fun t' ht' d id ⟨e, he, hshows⟩ => ?_, fun id row hrow => ?_⟩
  · rcases hby with hdb | ⟨_, t, _, hby⟩
    · exact hdb ▸ ih.attributed
    · exact hby.attributed
  · obtain ⟨i, hi⟩ := List.getElem?_of_mem ht'
    obtain ⟨t, hit, hold | ⟨x, rfl, β, cm, k, hp, rfl⟩⟩ := step_log hs hi he
    · exact hkept d id (ih.shown t (List.mem_of_getElem? hit) d id ⟨e, hold, hshows⟩)
    · obtain ⟨hsel, hcycle⟩ := hshows.cycleOf
      have hnil : t.sess.written = [] :=
        (run_cycleAssertion H (List.mem_of_getElem? hit) hp).2.1 hsel
      rw [Session.view_of_nil hnil] at hcycle
      exact hkept d id hcycle
  · have hgrows {i : ℕ} {t : Thread Cmd Session Exn Job Outcome} (hi : c.threads[i]? = some t)
        (hsource : LogSource t.req t.log id row) :
        ∃ (i : ℕ) (t : Thread Cmd Session Exn Job Outcome), c'.threads[i]? = some t ∧
          LogSource t.req t.log id row := by
      obtain ⟨t', hi', hreq, hpre⟩ := hs.thread_grows hi
      exact ⟨i, t', hi', hreq ▸ hsource.mono hpre.subset⟩
    rcases hby with hdb | ⟨i, t, hi, hby⟩
    · rw [hdb] at hrow
      exact (ih.source id row hrow).imp_right fun ⟨_, _, hi, h⟩ => hgrows hi h
    · rcases hby.source id row hrow with hold | hnew
      · exact (ih.source id row hold).imp_right fun ⟨_, _, hi, h⟩ => hgrows hi h
      · exact .inr (hgrows hi hnew)

theorem run_attributionInv (h₀ : w₀.db.Attributed)
    (H : (backend E).Run anyCycleJob ⟨w₀, []⟩ c) : AttributionInv w₀ c := by
  induction H with
  | refl => exact ⟨h₀, fun _ h => (nomatch h), fun _ _ h => .inl h⟩
  | step H hok hs ih => exact ih.step H hs

/-- In some configuration of the run, while the request of thread `i` was in progress, the committed
database satisfied `P`. -/
def Meanwhile (E : Env) (w₀ : World) (c : Pool) (i : ℕ) (P : Db → Prop) : Prop :=
  ∃ c₁ t, (backend E).Run anyCycleJob ⟨w₀, []⟩ c₁ ∧ (backend E).Run anyCycleJob c₁ c ∧
    c₁.threads[i]? = some t ∧ t.ended = false ∧ P c₁.state.db

/-- A SELECT of a job about cycles has read the committed database. -/
theorem Meanwhile.of_select (H : (backend E).Run anyCycleJob ⟨w₀, []⟩ c)
    {t : Thread Cmd Session Exn Job Outcome} {i : ℕ} (hi : c.threads[i]? = some t) {q : Query β}
    {b : β} (he : ⟨β, .select q, b⟩ ∈ t.log) : Meanwhile E w₀ c i fun db => b = q.eval db := by
  obtain ⟨c₁, t₁, x, γ, cm, k, H₁, H₂, hi₁, hp, he, _⟩ := H.answered rfl hi he
  obtain ⟨hsel, heval⟩ := Cmd.eval_of_event he.symm
  have hnil : t₁.sess.written = [] :=
    (run_cycleAssertion H₁ (List.mem_of_getElem? hi₁) hp).2.1 hsel
  rw [Session.view_of_nil hnil] at heval
  exact ⟨c₁, t₁, H₁, H₂, hi₁, by rw [Thread.ended, hp], heval.symm⟩

end

/-! ## Refusals -/

/-- The job asks for an entry of a cycle that it names. -/
def namesCycle : Job → Bool
  | .http (.user _ (.createWasteLog _ body) _) => body.compostCycleId.isSome
  | _ => false

/-- The device has no such cycle. -/
def missed (e : Event Cmd) : Bool :=
  match e with
  | ⟨_, .select (.cycleOfDevice _ _), none⟩ => true
  | _ => false

/-- A command of a request that is refused with a 400. -/
structure Refusing (c : Cmd β) : Prop where
  statement : c.statement = none
  commit : c.isCommit = false
  response : ∀ r, c.response = some r → r.status = 400

def RefusalAssertion (j : Job) : Assertion := fun log _ c =>
  namesCycle j = true → log.any missed = true → Refusing c ∧ ∀ e ∈ log, Refusing e.cmd

def RefusalEnd (j : Job) (log : Log) : Prop :=
  namesCycle j = true → log.any missed = true → ∀ e ∈ log, Refusing e.cmd

section
variable {j : Job} {log log' : Log} {d id : Uuid} {ws : List Write}

theorem missed_isSelect {e : Event Cmd} (h : missed e = true) : e.cmd.isSelect = true := by
  unfold missed at h
  split at h
  · rfl
  · cases h

theorem Log.Extends.any_missed (h : log.Extends log') (hlog : log.any missed = false) :
    log'.any missed = false := by
  obtain ⟨es, rfl, hes⟩ := h
  rw [List.any_append, hlog, Bool.false_or, List.any_eq_false]
  exact fun e he hmissed => nomatch (hes e he).symm.trans (missed_isSelect hmissed)

theorem RefusalAssertion.of_found (h : log.any missed = false) {c : Cmd β} :
    RefusalAssertion j log ws c := fun _ h' => absurd h' (by rw [h]; nofun)

theorem RefusalEnd.of_found (h : log.any missed = false) : RefusalEnd j log :=
  fun _ h' => absurd h' (by rw [h]; nofun)

theorem Refusing.of_quiet {c : Cmd β} (hs : c.statement = none) (hc : c.isCommit = false)
    (hr : c.response = none) : Refusing c := ⟨hs, hc, fun _ h => nomatch hr.symm.trans h⟩

/-- A route has found the cycle, or ends with a 400. -/
inductive FoundOrRefused (log : Log) (ws : List Write) :
    Except Exn (Response × List Write) → Prop where
  | found (h : log.any missed = false) : FoundOrRefused log ws r
  | refused (h : ∀ e ∈ log, Refusing e.cmd) :
    FoundOrRefused log ws (.error (.httpException 400 detail))

theorem createWasteLog_refusal {body : WasteLogCreate} {user : CurrentUser} {draws : Draws}
    (hgiven : body.compostCycleId = some id) (hlog : log.any missed = false)
    (hreads : ∀ e ∈ log, Refusing e.cmd) :
    Keeps (RefusalAssertion j) FoundOrRefused log [] (createWasteLog d body user draws []) := by
  have hadd {es : Log} (hes : es.any missed = false) : (log ++ es).any missed = false := by
    rw [List.any_append, hlog, hes]
    rfl
  refine assertDeviceMember_reads (.of_found hlog) (fun _ => .of_found (hadd (by simp [missed])))
    (fun _ => .found (hadd (by simp [missed]))) (fun _ _ => .found (hadd (by simp [missed])))
    fun device link => ?_
  simp only [Handler.bind_apply, attributedCycle, hgiven]
  refine .select (.of_found (hadd (by simp [missed]))) fun db => ?_
  rw [List.append_assoc]
  cases (Query.cycleOfDevice id d).eval db with
  | none =>
    refine .raise (.refused fun e he => ?_)
    simp only [List.cons_append, List.nil_append, List.mem_append, List.mem_cons, List.not_mem_nil,
      or_false] at he
    rcases he with he | rfl | rfl | rfl
    · exact hreads e he
    · exact .of_quiet rfl rfl rfl
    · exact .of_quiet rfl rfl rfl
    · exact .of_quiet rfl rfl rfl
  | some c =>
    refine orNow_keeps (.of_found (hadd (by simp [missed]))) fun log' loggedAt hlog' => ?_
    have hfound : log'.any missed = false := hlog'.any_missed (hadd (by simp [missed]))
    refine .txnow (.of_found hfound) fun createdAt => ?_
    have hlater (b : Time) (e : Event Cmd) (he : e.cmd.isSelect = false) :
        (log' ++ ([⟨_, .txnow, b⟩] : Log) ++ [e]).any missed = false :=
      (((Log.Extends.refl log').snoc rfl).snoc he).any_missed hfound
    refine .execute (.of_found ?_) (fun e => .raise (.found (hlater _ _ rfl)))
      (fun _ _ => .pure (.found (hlater _ _ rfl))) (.pure (.found (hlater _ _ rfl)))
    exact ((Log.Extends.refl log').snoc rfl).any_missed hfound

theorem handle_refusal {E : Env} {credentials : String} {body : WasteLogCreate} {draws : Draws}
    (hgiven : body.compostCycleId = some id) : Keeps (RefusalAssertion j) FoundOrRefused [] []
      (Request.handle E (.user credentials (.createWasteLog d body) draws) []) := by
  refine getCurrentUser_reads (.of_found rfl) (fun _ _ => .of_found (by simp [missed]))
    (fun _ => .found (by simp [missed])) (fun _ _ _ => .found (by simp [missed]))
    fun now payload user _ _ _ => createWasteLog_refusal hgiven (by simp [missed]) fun e he => ?_
  simp only [List.nil_append, List.mem_cons, List.not_mem_nil, or_false] at he
  rcases he with rfl | rfl
  · exact .of_quiet rfl rfl rfl
  · exact .of_quiet rfl rfl rfl

theorem RefusalEnd.snoc {e : Event Cmd} (h : ∀ e ∈ log, Refusing e.cmd) (he : Refusing e.cmd) :
    ∀ e' ∈ log ++ [e], Refusing e'.cmd := by
  intro e' he'
  rcases List.mem_append.mp he' with he' | he'
  · exact h e' he'
  · exact List.mem_singleton.mp he' ▸ he

/-- The end of a request that has found no cycle. -/
theorem rollback_refusal {e : Exn} (h : FoundOrRefused log ws (.error e)) :
    Keeps (RefusalAssertion j) (fun log _ _ => RefusalEnd j log) log ws
      (.cmd .rollback fun _ => .cmd (.respond e.response) fun _ => .pure e.response) := by
  cases h with
  | found hfound =>
    have hext := (Log.Extends.refl log).snoc (e := ⟨_, .rollback, ()⟩) rfl
    refine .rollback (.of_found hfound) (.respond (.of_found (hext.any_missed hfound)) ?_)
    exact .pure (.of_found ((hext.snoc rfl).any_missed hfound))
  | @refused detail hreads =>
    have hrollback : Refusing .rollback := .of_quiet rfl rfl rfl
    have hrespond : Refusing (.respond (Exn.httpException 400 detail).response) :=
      ⟨rfl, rfl, fun r hr => Option.some.inj hr ▸ rfl⟩
    have hreads' := RefusalEnd.snoc (e := ⟨_, .rollback, ()⟩) hreads hrollback
    refine .rollback (fun _ _ => ⟨hrollback, hreads⟩) (.respond (fun _ _ => ⟨hrespond, hreads'⟩) ?_)
    exact .pure fun _ _ => RefusalEnd.snoc hreads' hrespond

/-- The end of a request that has found the cycle. -/
theorem finish_refusal {response : Response} {pending : List Write}
    (hfound : log.any missed = false) :
    Keeps (RefusalAssertion j) (fun log _ _ => RefusalEnd j log) log ws
      (.cmd (.respond response) fun _ => (finish pending).bind fun _ => .pure response) := by
  have hext := (Log.Extends.refl log).snoc (e := ⟨_, .respond response, ()⟩) rfl
  have hlater {log'} (h : Log.Extends (log ++ [⟨_, .respond response, ()⟩]) log') :
      log'.any missed = false := (hext.trans h).any_missed hfound
  refine .respond (.of_found hfound) ?_
  refine .bind (R := fun log _ _ => RefusalEnd j log) ?_ (fun _ _ _ h => .pure h) fun _ _ _ h => h
  refine finish_keeps (fun _ _ _ h _ _ => .of_found (hlater h))
    (fun _ _ h _ => ?_) fun _ _ h _ => ?_
  · exact .commit (.of_found (hlater h)) (.pure (.of_found (hlater (h.snoc rfl))))
  · exact .rollback (.of_found (hlater h)) (.pure (.of_found (hlater (h.snoc rfl))))

theorem namesCycle_keeps {E : Env} (j : Job) :
    Keeps (RefusalAssertion j) (fun log _ _ => RefusalEnd j log) [] [] (j.prog E) := by
  by_cases hj : namesCycle j = true
  · obtain ⟨credentials, d, body, draws, id, rfl, hgiven⟩ : ∃ credentials d body draws id,
        j = .http (.user credentials (.createWasteLog d body) draws) ∧
          body.compostCycleId = some id := by
      unfold namesCycle at hj
      split at hj
      · exact ⟨_, _, _, _, _, rfl, (Option.some_get hj).symm⟩
      · cases hj
    refine .bind (R := fun log _ _ => RefusalEnd _ log) (getDb_keeps (handle_refusal hgiven)
      (fun _ _ _ h => rollback_refusal h) fun _ _ _ _ h => ?_) (fun _ _ _ h => .pure h)
      fun _ _ _ h => h
    cases h with
    | found hfound => exact finish_refusal hfound
  · exact .of_forall (fun _ _ _ _ h => absurd h hj) fun _ _ _ h => absurd h hj

end

/-! ## Every run -/

section
variable {E : Env} {w₀ : World} {c : Pool}

/-- The log was created in the run, with the cycle that the request names, or with the active cycle
of the device at the moment of the lookup. -/
def Created (E : Env) (w₀ : World) (c : Pool) (id : Uuid) (row : WasteLog) : Prop :=
  ∃ (i : ℕ) (t : Thread Cmd Session Exn Job Outcome), ∃ credentials d body draws,
    c.threads[i]? = some t ∧ t.req = .http (.user credentials (.createWasteLog d body) draws) ∧
    draws.id = id ∧ row.deviceId = d ∧ match body.compostCycleId with
    | some cycleId => row.compostCycleId = some cycleId
    | none => Meanwhile E w₀ c i fun db => db.ActiveIs d row.compostCycleId

theorem Db.activeIs_head? {db : Db} {d : Uuid} {l : List (Uuid × CompostCycle)}
    (h : l = (Query.activeCycles d).eval db) (hone : l.length ≤ 1) :
    db.ActiveIs d (l.head?.map Prod.fst) := by
  have hmem (id : Uuid) (c : CompostCycle) : (id, c) ∈ l ↔
      db.compostCycles.get? id = some c ∧ c.deviceId = d ∧ c.status = .active := by
    rw [h]
    exact mem_activeCycles
  intro id
  constructor
  · intro hid
    obtain ⟨⟨id, c⟩, he, rfl⟩ := Option.map_eq_some_iff.mp hid
    exact ⟨c, (hmem id c).mp (List.mem_of_head? he)⟩
  · rintro ⟨c, hc⟩
    have hc := (hmem id c).mpr hc
    match l with
    | [] => cases hc
    | [e] =>
      rw [← List.mem_singleton.mp hc]
      rfl
    | _ :: _ :: _ =>
      simp only [List.length_cons] at hone
      omega

theorem LogSource.created (H : (backend E).Run anyCycleJob ⟨w₀, []⟩ c)
    {t : Thread Cmd Session Exn Job Outcome} {i : ℕ} (hi : c.threads[i]? = some t) {id : Uuid}
    {row : WasteLog} (h : LogSource t.req t.log id row) : Created E w₀ c id row := by
  obtain ⟨credentials, d, body, draws, hreq, hid, hd, h⟩ := h
  refine ⟨i, t, credentials, d, body, draws, hi, hreq, hid, hd, ?_⟩
  cases hgiven : body.compostCycleId with
  | some cycleId =>
    rw [hgiven] at h
    exact h.1
  | none =>
    rw [hgiven] at h
    obtain ⟨l, hl, hone, hrow⟩ := h
    obtain ⟨c₁, t₁, H₁, H₂, hi₁, hended, heval⟩ := Meanwhile.of_select H hi hl
    exact ⟨c₁, t₁, H₁, H₂, hi₁, hended, hrow ▸ Db.activeIs_head? heval hone⟩

/-- **The cycle of a log.** In every run of requests about cycles, a log refers to a cycle of its
own device; a log that is created carries the cycle that its request names, or else the active
cycle; and a request that names a cycle which its device does not have is refused with a 400. -/
theorem waste_logs_attributed (h₀ : w₀.db.Attributed)
    (H : (backend E).Run anyCycleJob ⟨w₀, []⟩ c) :
    c.state.db.Attributed ∧
    (∀ id row, c.state.db.wasteLogs.get? id = some row →
      w₀.db.wasteLogs.get? id = some row ∨ Created E w₀ c id row) ∧
    ∀ (i : ℕ) (t : Thread Cmd Session Exn Job Outcome), c.threads[i]? = some t →
      ∀ credentials d body draws cycleId b,
      t.req = .http (.user credentials (.createWasteLog d body) draws) →
      body.compostCycleId = some cycleId → ⟨_, .select (.cycleOfDevice cycleId d), b⟩ ∈ t.log →
        Meanwhile E w₀ c i (fun db => b.isSome = true ↔ db.CycleOf d cycleId) ∧
        (b = none → ∀ e ∈ t.log, Refusing e.cmd) := by
  have hinv := run_attributionInv h₀ H
  refine ⟨hinv.attributed, fun id row hrow => ?_, fun i t hi => ?_⟩
  · exact (hinv.source id row hrow).imp_right fun ⟨_, _, hi, h⟩ => h.created H hi
  · intro credentials d body draws cycleId b hreq hgiven he
    constructor
    · obtain ⟨c₁, t₁, H₁, H₂, hi₁, hended, heval⟩ := Meanwhile.of_select H hi he
      refine ⟨c₁, t₁, H₁, H₂, hi₁, hended, ?_⟩
      rw [heval]
      simp [Query.eval, Option.isSome_filter, Db.CycleOf, Option.any_eq_true]
    · rintro rfl
      have hend : RefusalEnd t.req t.log := run_holds (I := RefusalAssertion)
        (J := fun j log _ => RefusalEnd j log) H (fun _ j _ => namesCycle_keeps j)
        (fun h hn hm => (h hn hm).2) (List.mem_of_getElem? hi)
      refine hend ?_ (List.any_eq_true.mpr ⟨_, he, rfl⟩)
      rw [hreq, namesCycle, hgiven]
      rfl

end

/-- Alice logs an entry for device 7. -/
def logWaste (cycleId : Option Uuid) (n : Nat) : Job :=
  Sample.request 1 (.createWasteLog 7 ⟨.food, none, none, none, cycleId⟩) n

/-- Batch 1 is started; an entry goes to it, and one for a batch that does not exist is refused. -/
def loggedWaste : List (Label Choice Job Nat) :=
  .spawn newBatch :: Sample.steps 0 10 ++ .spawn (logWaste none 2) :: Sample.steps 1 10 ++
    .spawn (logWaste (some 9) 3) :: Sample.steps 2 7

theorem deviceWorld_attributed : Sample.deviceWorld.db.Attributed := by
  intro id row h
  cases h

theorem loggedWaste_attributed : ∃ c, (backend Sample.env).followIf
      (guarded isCycleJob fun _ _ => true) ⟨Sample.deviceWorld, []⟩ loggedWaste = some c ∧
    c.state.db.wasteLogs.rows.map (fun e => (e.1, e.2.compostCycleId)) = [(2, some 1)] ∧
    c.state.db.Attributed := by
  have h : ((backend Sample.env).followIf (guarded isCycleJob fun _ _ => true)
      ⟨Sample.deviceWorld, []⟩ loggedWaste).any (fun c =>
        c.state.db.wasteLogs.rows.map (fun e => (e.1, e.2.compostCycleId)) = [(2, some 1)]) =
      true := by decide +kernel
  obtain ⟨c, hc, h⟩ := (Option.any_eq_true _ _).mp h
  exact ⟨c, hc, by simpa using h, (waste_logs_attributed deviceWorld_attributed
    (System.Run.of_followIf hc)).1⟩

end Rawbin
