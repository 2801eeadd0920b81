import Rawbin.Backend

/-!
# Local assertions about jobs

What a job knows of itself, whatever the other jobs do: the events so far and the statements
that its transaction has executed. `Keeps` is `Machine.Always` with the session reduced to these
statements; there is one rule for each command, and `getDb_keeps` reduces a request to its route.
-/

namespace Rawbin

abbrev Log := List (Event Cmd)

/-- An assertion about each command of a job, before it is issued. -/
abbrev Assertion := {β : Type} → Log → List Write → Cmd β → Prop

/-- An assertion about the end of a program. -/
abbrev Ending (α : Type) := Log → List Write → Except Exn α → Prop

def Keeps (I : Assertion) (Q : Ending α) (log : Log) (ws : List Write) (p : Prog Cmd Exn α) :
    Prop :=
  ∀ t : Session, t.written = ws →
    machine.Always (fun log t c => I log t.written c) (fun log t r => Q log t.written r) log t p

namespace Keeps

variable {I : Assertion} {Q Q' : Ending α} {log : Log} {ws : List Write}

theorem always (h : Keeps I Q log ws p) (t : Session) (ht : t.written = ws) :
    machine.Always (fun log t c => I log t.written c) (fun log t r => Q log t.written r) log t p :=
  h t ht

protected theorem pure (h : Q log ws (.ok a)) : Keeps I Q log ws (.pure a) := fun _ ht => by
  rw [Machine.Always, ht]; exact h

protected theorem raise (h : Q log ws (.error e)) : Keeps I Q log ws (.raise e) := fun _ ht => by
  rw [Machine.Always, ht]; exact h

theorem mono (h : Keeps I Q log ws p) (hQ : ∀ log ws r, Q log ws r → Q' log ws r) :
    Keeps I Q' log ws p := fun t ht => (h t ht).mono fun _ _ _ => hQ _ _ _

theorem of_forall (hI : ∀ log ws {β : Type} (c : Cmd β), I log ws c) (hQ : ∀ log ws r, Q log ws r) :
    Keeps I Q log ws p := fun _ _ => .of_forall (fun _ _ _ => hI _ _) fun _ _ => hQ _ _

theorem bind {R : Ending β} {p : Prog Cmd Exn β} {f : β → Prog Cmd Exn α}
    (h : Keeps I R log ws p) (hok : ∀ log ws b, R log ws (.ok b) → Keeps I Q log ws (f b))
    (herr : ∀ log ws e, R log ws (.error e) → Q log ws (.error e)) :
    Keeps I Q log ws (p.bind f) := fun t ht =>
  (h t ht).bind (fun _ _ _ hR => hok _ _ _ hR _ rfl) fun _ _ _ => herr _ _ _

theorem outcome (h : Keeps I Q log ws p) :
    Keeps I (fun log ws r => ∃ r', r = .ok r' ∧ Q log ws r') log ws p.outcome := fun t ht =>
  ((h t ht).mono fun _ _ r hQ => ⟨r, rfl, hQ⟩).outcome

theorem tryCatch {f : Exn → Prog Cmd Exn α} (h : Keeps I Q log ws p)
    (hok : ∀ log ws a, Q log ws (.ok a) → Q' log ws (.ok a))
    (herr : ∀ log ws e, Q log ws (.error e) → Keeps I Q' log ws (f e)) :
    Keeps I Q' log ws (p.tryCatch f) := fun t ht =>
  (h t ht).tryCatch (fun _ _ _ => hok _ _ _) fun _ _ _ hR => herr _ _ _ hR _ rfl

/-! One rule for each command. -/

theorem select {q : Query β} {k : β → Prog Cmd Exn α} (hI : I log ws (.select q))
    (h : ∀ db, Keeps I Q (log ++ [⟨β, .select q, q.eval db⟩]) ws (k (q.eval db))) :
    Keeps I Q log ws (.cmd (.select q) k) := by
  rintro t rfl
  exact ⟨hI, fun _ w => h _ (t.begin w.now) rfl⟩

theorem redis {c : RedisCmd β} {k : β → Prog Cmd Exn α} (hI : I log ws (.redis c))
    (h : ∀ b, Keeps I Q (log ++ [⟨β, .redis c, b⟩]) ws (k b)) :
    Keeps I Q log ws (.cmd (.redis c) k) := by
  rintro t rfl
  exact ⟨hI, fun _ _ => h _ t rfl⟩

theorem utcnow {k : Time → Prog Cmd Exn α} (hI : I log ws .utcnow)
    (h : ∀ now, Keeps I Q (log ++ [⟨_, .utcnow, now⟩]) ws (k now)) :
    Keeps I Q log ws (.cmd .utcnow k) := by
  rintro t rfl
  exact ⟨hI, fun _ _ => h _ t rfl⟩

theorem txnow {k : Time → Prog Cmd Exn α} (hI : I log ws .txnow)
    (h : ∀ now, Keeps I Q (log ++ [⟨_, .txnow, now⟩]) ws (k now)) :
    Keeps I Q log ws (.cmd .txnow k) := by
  rintro t rfl
  exact ⟨hI, fun _ w => h _ (t.begin w.now) rfl⟩

theorem respond {r : Response} {k : Unit → Prog Cmd Exn α} (hI : I log ws (.respond r))
    (h : Keeps I Q (log ++ [⟨_, .respond r, ()⟩]) ws (k ())) :
    Keeps I Q log ws (.cmd (.respond r) k) := by
  rintro t rfl
  exact ⟨hI, fun _ _ => h t rfl⟩

theorem commit {k : Unit → Prog Cmd Exn α} (hI : I log ws .commit)
    (h : Keeps I Q (log ++ [⟨_, .commit, ()⟩]) [] (k ())) :
    Keeps I Q log ws (.cmd .commit k) := by
  rintro t rfl
  exact ⟨hI, fun _ _ => h .idle rfl⟩

theorem rollback {k : Unit → Prog Cmd Exn α} (hI : I log ws .rollback)
    (h : Keeps I Q (log ++ [⟨_, .rollback, ()⟩]) [] (k ())) :
    Keeps I Q log ws (.cmd .rollback k) := by
  rintro t rfl
  exact ⟨hI, fun _ _ => h .idle rfl⟩

/-- A statement fails, does nothing, or joins the statements of the transaction. -/
theorem execute {w : Write} {k : Except Exn Unit → Prog Cmd Exn α} (hI : I log ws (.execute w))
    (herr : ∀ e, Keeps I Q (log ++ [⟨_, .execute w, .error e⟩]) ws (k (.error e)))
    (hnoop : ∀ db, w.noop db = true → Keeps I Q (log ++ [⟨_, .execute w, .ok ()⟩]) ws (k (.ok ())))
    (hok : Keeps I Q (log ++ [⟨_, .execute w, .ok ()⟩]) (ws ++ [w]) (k (.ok ()))) :
    Keeps I Q log ws (.cmd (.execute w) k) := by
  rintro t rfl
  refine ⟨hI, fun _ s => ?_⟩
  simp only [machine, Cmd.exec]
  split
  · exact herr _ (t.begin s.now) rfl
  · split
    · exact hnoop _ ‹_› (t.begin s.now) rfl
    · exact hok _ rfl

/-- Any command that is no statement, in a session that has executed none. -/
theorem quiet {c : Cmd β} {k : β → Prog Cmd Exn α} (hc : c.statement = none) (hI : I log [] c)
    (h : ∀ b, Keeps I Q (log ++ [⟨β, c, b⟩]) [] (k b)) : Keeps I Q log [] (.cmd c k) := by
  intro t ht
  have hI' : I log t.written c := ht ▸ hI
  refine ⟨hI', fun x s => h _ _ ?_⟩
  rcases c.exec_written x t s with h | h | ⟨_, h, _⟩
  · exact h.trans ht
  · exact h
  · cases hc.symm.trans h

end Keeps

/-! ## Requests -/

/-- A log with more events, none of them a SELECT. -/
def Log.Extends (log log' : Log) : Prop :=
  ∃ es : Log, log' = log ++ es ∧ ∀ e ∈ es, e.cmd.isSelect = false

theorem Log.Extends.refl (log : Log) : log.Extends log := ⟨[], by simp⟩

theorem Log.Extends.isPrefix {log log' : Log} (h : log.Extends log') : log <+: log' :=
  ⟨h.choose, h.choose_spec.1.symm⟩

theorem Log.Extends.subset {log log' : Log} (h : log.Extends log') : log ⊆ log' := h.isPrefix.subset

theorem Log.Extends.snoc {log log' : Log} (h : log.Extends log') (he : e.cmd.isSelect = false) :
    log.Extends (log' ++ [e]) := by
  obtain ⟨es, rfl, hes⟩ := h
  refine ⟨es ++ [e], List.append_assoc .., fun e' he' => ?_⟩
  rcases List.mem_append.mp he' with h | h
  · exact hes e' h
  · exact List.mem_singleton.mp h ▸ he

theorem Log.Extends.trans {log log' log'' : Log} (h : log.Extends log') (h' : log'.Extends log'') :
    log.Extends log'' := by
  obtain ⟨es, rfl, hes⟩ := h
  obtain ⟨es', rfl, hes'⟩ := h'
  refine ⟨es ++ es', List.append_assoc .., fun e he => ?_⟩
  rcases List.mem_append.mp he with h | h
  · exact hes e h
  · exact hes' e h

/-- A flush executes some of the pending statements, in order; those that match no row are
skipped. -/
theorem flushAll_keeps {I : Assertion} {Q : Ending Unit} {pending : List Write} {log : Log}
    {ws : List Write}
    (hI : ∀ log' sub w, log.Extends log' → sub.Sublist pending → w ∈ pending →
      I log' (ws ++ sub) (.execute w))
    (hok : ∀ log' sub, log.Extends log' → sub.Sublist pending → Q log' (ws ++ sub) (.ok ()))
    (herr : ∀ log' sub e, log.Extends log' → sub.Sublist pending → Q log' (ws ++ sub) (.error e)) :
    Keeps I Q log ws (Handler.flushAll pending) := by
  suffices H : ∀ rest log' sub done, log.Extends log' → done ++ rest = pending →
      sub.Sublist done → Keeps I Q log' (ws ++ sub) (Handler.flushAll rest) by
    simpa using H pending log [] [] (.refl _) rfl (List.Sublist.refl _)
  intro rest
  induction rest with
  | nil =>
    rintro log' sub done hlog rfl hsub
    exact .pure (hok log' sub hlog (by simpa using hsub))
  | cons w rest ih =>
    rintro log' sub done hlog rfl hsub
    have hs : sub.Sublist (done ++ w :: rest) := hsub.trans (List.sublist_append_left ..)
    have hnext (sub' : List Write) (h : sub'.Sublist (done ++ [w])) :
        Keeps I Q (log' ++ [⟨_, .execute w, .ok ()⟩]) (ws ++ sub') (Handler.flushAll rest) :=
      ih _ sub' (done ++ [w]) (hlog.snoc rfl) (by simp) h
    refine .execute (hI log' sub w hlog hs (by simp)) (fun e => .raise ?_) ?_ ?_
    · exact herr _ sub e (hlog.snoc rfl) hs
    · exact fun _ _ => hnext sub (hsub.trans (List.sublist_append_left ..))
    · rw [List.append_assoc]
      exact hnext (sub ++ [w]) (hsub.append (List.Sublist.refl [w]))

/-- The end of a request: the flush of what is pending, then the commit. -/
theorem finish_keeps {I : Assertion} {Q : Ending Unit} {pending : List Write} {log : Log}
    {ws : List Write}
    (hI : ∀ log' sub w, log.Extends log' → sub.Sublist pending → w ∈ pending →
      I log' (ws ++ sub) (.execute w))
    (hcommit : ∀ log' sub, log.Extends log' → sub.Sublist pending →
      Keeps I Q log' (ws ++ sub) (.cmd .commit .pure))
    (herr : ∀ log' sub, log.Extends log' → sub.Sublist pending →
      Keeps I Q log' (ws ++ sub) (.cmd .rollback .pure)) :
    Keeps I Q log ws (finish pending) := by
  let R : Ending Unit := fun log' ws' => Except.Satisfies (fun a => Q log' ws' (.ok a))
    fun _ => ∃ sub, log.Extends log' ∧ sub.Sublist pending ∧ ws' = ws ++ sub
  refine .tryCatch (Q := R) ?_ (fun _ _ _ hQ => hQ) ?_
  · refine .bind (R := fun log' ws' _ => ∃ sub : List Write, log.Extends log' ∧
      sub.Sublist pending ∧ ws' = ws ++ sub) ?_ ?_ fun _ _ _ h => h
    · exact flushAll_keeps hI (fun log' sub hl hs => ⟨sub, hl, hs, rfl⟩)
        fun log' sub _ hl hs => ⟨sub, hl, hs, rfl⟩
    · rintro log' ws' _ ⟨sub, hl, hs, rfl⟩
      have h := hcommit log' sub hl hs
      exact fun t ht => ⟨(h t ht).1, fun x w => (h t ht).2 x w⟩
  · rintro log' ws' _ ⟨sub, hl, hs, rfl⟩
    exact herr log' sub hl hs

theorem getDb_keeps {I : Assertion} {R : Ending (Response × List Write)} {Q : Ending Response}
    {route : Handler Response} (hroute : Keeps I R [] [] (route []))
    (herr : ∀ log ws e, R log ws (.error e) → Keeps I Q log ws
      (.cmd .rollback fun _ => .cmd (.respond e.response) fun _ => .pure e.response))
    (hok : ∀ log ws response pending, R log ws (.ok (response, pending)) → Keeps I Q log ws
      (.cmd (.respond response) fun _ => (finish pending).bind fun _ => .pure response)) :
    Keeps I Q [] [] (getDb route) := by
  refine hroute.outcome.bind ?_ fun _ _ _ h => nomatch h.choose_spec.1
  rintro log ws r ⟨r', hr, hR⟩
  cases hr
  rcases r with e | ⟨response, pending⟩
  · exact herr log ws e hR
  · exact hok log ws response pending hR

/-- The commands before the first statement: the assertion says nothing about them. -/
structure Assertion.Reads (I : Assertion) : Prop where
  select : ∀ log {β : Type} (q : Query β), I log [] (.select q)
  utcnow : ∀ log, I log [] .utcnow

/-- The commands that any request may issue: the assertion says nothing about them. -/
structure Assertion.Routine (I : Assertion) : Prop where
  select : ∀ log {β : Type} (q : Query β), I log [] (.select q)
  execute : ∀ log ws w, I log ws (.execute w)
  utcnow : ∀ log ws, I log ws .utcnow
  txnow : ∀ log ws, I log ws .txnow
  respond : ∀ log ws r, I log ws (.respond r)
  rollback : ∀ log ws, I log ws .rollback

theorem Assertion.Routine.reads {I : Assertion} (h : I.Routine) : I.Reads :=
  ⟨h.select, fun _ => h.utcnow _ _⟩

/-! ## Parts of routes

Each rule is about a part of a route followed by the rest of the route. -/

section
variable {I : Assertion} {log : Log} {ws pend : List Write} {Q : Ending γ}

theorem ite_keeps {c : Prop} [Decidable c] {h h' : Handler β} {k : β × List Write → Prog Cmd Exn γ}
    (hthen : c → Keeps I Q log ws ((h pend).bind k))
    (helse : ¬ c → Keeps I Q log ws ((h' pend).bind k)) :
    Keeps I Q log ws (((if c then h else h') pend).bind k) := by
  by_cases hc : c
  · rw [if_pos hc]; exact hthen hc
  · rw [if_neg hc]; exact helse hc

theorem when_keeps {c : Prop} [Decidable c] {h : Handler Unit}
    {k : Unit × List Write → Prog Cmd Exn γ}
    (hthen : c → Keeps I Q log ws ((h pend).bind k))
    (helse : ¬ c → Keeps I Q log ws (k ((), pend))) :
    Keeps I Q log ws ((Handler.when c h pend).bind k) := ite_keeps hthen helse

theorem raiseIf_keeps {c : Prop} [Decidable c] {k : Unit × List Write → Prog Cmd Exn γ}
    (herr : Q log ws (.error (.httpException status detail)))
    (hok : ¬ c → Keeps I Q log ws (k ((), pend))) :
    Keeps I Q log ws ((Handler.raiseIf c status detail pend).bind k) :=
  when_keeps (fun _ => .raise herr) hok

theorem ofExcept_keeps {r : Except Exn β} {k : β × List Write → Prog Cmd Exn γ}
    (herr : ∀ e, r = .error e → Q log ws (.error e))
    (hok : ∀ b, r = .ok b → Keeps I Q log ws (k (b, pend))) :
    Keeps I Q log ws ((Handler.ofExcept r pend).bind k) := by
  cases r with
  | ok b => exact hok b rfl
  | error e => exact .raise (herr e rfl)

/-- The user is looked up; the rule says what is read. -/
theorem getCurrentUser_reads {E : Env} {credentials : String}
    {k : CurrentUser × List Write → Prog Cmd Exn γ} (hutcnow : I log [] .utcnow)
    (hselect : ∀ now u, I (log ++ [⟨_, .utcnow, now⟩]) [] (.select (.userById u)))
    (hbad : ∀ now, Q (log ++ [⟨_, .utcnow, now⟩]) [] (.error credentialsException))
    (herr : ∀ now u user, Q (log ++ [⟨_, .utcnow, now⟩, ⟨_, .select (.userById u), user⟩]) []
      (.error credentialsException))
    (hok : ∀ now payload user, decodeToken E.crypto now credentials = some payload →
      payload.type = .access → user.isActive = true →
      Keeps I Q (log ++ [⟨_, .utcnow, now⟩, ⟨_, .select (.userById payload.sub), some user⟩]) []
        (k (⟨payload.sub, user⟩, pend))) :
    Keeps I Q log [] ((getCurrentUser E credentials pend).bind k) := by
  refine .utcnow hutcnow fun now => ?_
  simp only [Prog.pure_bind]
  cases hd : decodeToken E.crypto now credentials with
  | none => exact .raise (hbad now)
  | some payload =>
    by_cases ht : payload.type = .access
    · simp only [ht, ne_eq, not_true_eq_false, if_false]
      refine .select (hselect ..) fun db => ?_
      rw [List.append_assoc]
      cases (Query.userById payload.sub).eval db with
      | none => exact .raise (herr ..)
      | some user =>
        cases ha : user.isActive
        · simp only [Prog.pure_bind, ha]
          exact .raise (herr ..)
        · simp only [Prog.pure_bind, ha]
          exact hok now payload user hd ht ha
    · simp only [ne_eq, ht, not_false_eq_true, if_true]
      exact .raise (hbad now)

theorem getCurrentUser_keeps {E : Env} {credentials : String}
    {k : CurrentUser × List Write → Prog Cmd Exn γ}
    (hI : I.Reads) (herr : ∀ log', Q log' [] (.error credentialsException))
    (hok : ∀ now payload user, decodeToken E.crypto now credentials = some payload →
      payload.type = .access → user.isActive = true →
      Keeps I Q (log ++ [⟨_, .utcnow, now⟩, ⟨_, .select (.userById payload.sub), some user⟩]) []
        (k (⟨payload.sub, user⟩, pend))) :
    Keeps I Q log [] ((getCurrentUser E credentials pend).bind k) :=
  getCurrentUser_reads (hI.utcnow _) (fun _ _ => hI.select ..) (fun _ => herr _)
    (fun _ _ _ => herr _) hok

theorem isMember_keeps {d u : Uuid} {k : Bool × List Write → Prog Cmd Exn γ}
    (hI : I log ws (.select (.member d u)))
    (h : ∀ link, Keeps I Q (log ++ [⟨_, .select (.member d u), link⟩]) ws (k (link.isSome, pend))) :
    Keeps I Q log ws ((DeviceAccess.isMember d u pend).bind k) :=
  .select hI fun _ => h _

/-- The device and the membership are looked up; the rule says what is read. -/
theorem assertDeviceMember_reads {d u : Uuid} {k : Device × List Write → Prog Cmd Exn γ}
    (hdevice : I log [] (.select (.deviceById d)))
    (hmember : ∀ device, I (log ++ [⟨_, .select (.deviceById d), device⟩]) []
      (.select (.member d u)))
    (hnone : ∀ device, Q (log ++ [⟨_, .select (.deviceById d), device⟩]) []
      (.error (.httpException 404 "Device not found.")))
    (herr : ∀ device link, Q (log ++ [⟨_, .select (.deviceById d), device⟩,
      ⟨_, .select (.member d u), link⟩]) [] (.error (.httpException 404 "Device not found.")))
    (hok : ∀ device link, Keeps I Q (log ++ [⟨_, .select (.deviceById d), some device⟩,
      ⟨_, .select (.member d u), some link⟩]) [] (k (device, pend))) :
    Keeps I Q log [] ((DeviceAccess.assertDeviceMember d u pend).bind k) := by
  refine .select hdevice fun db => ?_
  cases (Query.deviceById d).eval db with
  | none => exact .raise (hnone none)
  | some device =>
    refine .select (hmember _) fun db' => ?_
    rw [List.append_assoc]
    cases (Query.member d u).eval db' with
    | none => exact .raise (herr ..)
    | some link => exact hok device link

theorem assertDeviceMember_keeps {d u : Uuid} {k : Device × List Write → Prog Cmd Exn γ}
    (hI : I.Reads) (herr : ∀ log', Q log' [] (.error (.httpException 404 "Device not found.")))
    (hok : ∀ device link, Keeps I Q (log ++ [⟨_, .select (.deviceById d), some device⟩,
      ⟨_, .select (.member d u), some link⟩]) [] (k (device, pend))) :
    Keeps I Q log [] ((DeviceAccess.assertDeviceMember d u pend).bind k) :=
  assertDeviceMember_reads (hI.select ..) (fun _ => hI.select ..) (fun _ => herr _)
    (fun _ _ => herr _) hok

theorem orNow_keeps {given : Option Time} {k : Time × List Write → Prog Cmd Exn γ}
    (hI : I log ws .utcnow)
    (h : ∀ log' time, log.Extends log' → Keeps I Q log' ws (k (time, pend))) :
    Keeps I Q log ws ((orNow given pend).bind k) := by
  cases given with
  | none => exact .utcnow hI fun _ => h _ _ ((Log.Extends.refl log).snoc rfl)
  | some time => exact h _ _ (.refl log)

theorem scalarOneOrNone_keeps {as : List β} {k : Option β × List Write → Prog Cmd Exn γ}
    (herr : Q log ws (.error .multipleResultsFound))
    (hok : as.length ≤ 1 → Keeps I Q log ws (k (as.head?, pend))) :
    Keeps I Q log ws ((Handler.scalarOneOrNone as pend).bind k) := by
  match as with
  | [] => exact hok (Nat.zero_le 1)
  | [a] => exact hok (Nat.le_refl 1)
  | _ :: _ :: _ => exact .raise herr

/-- A member is added by one statement, or not at all. -/
theorem addMember_keeps {d u : Uuid} {k : Bool × List Write → Prog Cmd Exn γ}
    (hI : ∀ log' {β} (c : Cmd β), c.plain = true → c.isCommit = false → I log' ws c)
    (herr : ∀ log' e, Q log' ws (.error e))
    (hsame : ∀ log' b, Keeps I Q log' ws (k (b, [])))
    (hadd : ∀ log' row, Keeps I Q log' (ws ++ [.insertUserDevice u d row]) (k (true, []))) :
    Keeps I Q log ws ((DeviceAccess.addMember d u []).bind k) := by
  rw [DeviceAccess.addMember, Handler.bind_apply, Prog.bind_assoc]
  refine isMember_keeps (hI _ _ rfl rfl) fun link => ?_
  cases link with
  | some _ => exact hsame _ false
  | none =>
    refine .txnow (hI _ _ rfl rfl) fun now => ?_
    exact .execute (hI _ _ rfl rfl) (fun _ => .raise (herr ..)) (fun _ _ => hsame _ true)
      (hadd _ _)

end

/-! ## Runs -/

/-- The program is about to commit. -/
def atCommit {ε α : Type} : Prog Cmd ε α → Bool
  | .cmd c _ => c.isCommit
  | _ => false

/-- The statement that the program is about to execute. -/
def nextStatement {ε α : Type} : Prog Cmd ε α → Option Write
  | .cmd c _ => c.statement
  | _ => none

abbrev Pool := Config Cmd World Session Exn Job Outcome

/-- A restriction of runs: which jobs start, and what a job finds when it takes a step. -/
def guarded (start : Job → Bool) (find : World → Thread Cmd Session Exn Job Outcome → Bool)
    (c : Pool) : Label Choice Job ℕ → Bool
  | .spawn j => start j
  | .step i _ => c.threads[i]?.all (find c.state)
  | .env _ => true

/-- The assertion of the jobs whose statements matter only when they are committed. -/
def AtCommit (Ok : Log → List Write → Prop) : Assertion := fun log ws c =>
  c.plain = true ∧ (c.isCommit = true → Ok log ws)

/-- A route leaves behind what may be committed, whichever of its pending statements have an
effect. -/
def Leaves (Ok : Log → List Write → Prop) : Ending (Response × List Write) := fun log ws r =>
  ∀ response pending, r = .ok (response, pending) →
    ∀ log' sub, log.Extends log' → sub.Sublist pending → Ok log' (ws ++ sub)

theorem AtCommit.plain {Ok : Log → List Write → Prop} {c : Cmd β} (h : c.plain = true)
    (hc : c.isCommit = false) : AtCommit Ok log ws c :=
  ⟨h, fun h => absurd h (by rw [hc]; nofun)⟩

theorem Leaves.error {Ok : Log → List Write → Prop} : Leaves Ok log ws (.error e) :=
  fun _ _ => nofun

/-- A route with a response, and statements that are still pending. -/
theorem Leaves.of_pending {Ok : Log → List Write → Prop} {log : Log} {ws pending : List Write}
    (h : ∀ log' sub, log.Extends log' → sub.Sublist pending → Ok log' (ws ++ sub)) :
    Leaves Ok log ws (.ok (response, pending)) := by
  intro _ _ hr
  cases hr
  exact h

/-- A route with one pending statement, which is executed or not. -/
theorem Leaves.of_pending_one {Ok : Log → List Write → Prop} {log : Log} {w : Write}
    (h₀ : ∀ log', log.Extends log' → Ok log' []) (h₁ : ∀ log', log.Extends log' → Ok log' [w]) :
    Leaves Ok log [] (.ok (response, [w])) := by
  refine .of_pending fun log' sub hl hs => ?_
  rcases List.sublist_singleton.mp hs with rfl | rfl
  · exact h₀ log' hl
  · exact h₁ log' hl

/-- A route that has executed its statements. -/
theorem Leaves.of_executed {Ok : Log → List Write → Prop} {log : Log} {ws : List Write}
    (h : ∀ log', log.Extends log' → Ok log' ws) : Leaves Ok log ws (.ok (response, [])) := by
  refine .of_pending fun log' sub hl hs => ?_
  rw [List.sublist_nil.mp hs, List.append_nil]
  exact h log' hl

theorem AtCommit.routine {Ok : Log → List Write → Prop} : Assertion.Routine (AtCommit Ok) where
  select _ _ _ := .plain rfl rfl
  execute _ _ _ := .plain rfl rfl
  utcnow _ _ := .plain rfl rfl
  txnow _ _ := .plain rfl rfl
  respond _ _ _ := .plain rfl rfl
  rollback _ _ := .plain rfl rfl

theorem Request.keeps_of_handle {E : Env} {I : Assertion} {Ok : Log → List Write → Prop}
    {r : Request} (hI : I.Routine) (hcommit : ∀ log ws, Ok log ws → I log ws .commit)
    (h : Keeps I (Leaves Ok) [] [] (r.handle E [])) :
    Keeps I (fun _ _ _ => True) [] [] (Job.prog E (.http r)) := by
  refine .bind (R := fun _ _ _ => True) (getDb_keeps (R := Leaves Ok) h ?_ ?_)
    (fun _ _ _ _ => .pure trivial) fun _ _ _ _ => trivial
  · exact fun _ _ _ _ => .rollback (hI.rollback ..) (.respond (hI.respond ..) (.pure trivial))
  · refine fun log ws response pending hQ => .respond (hI.respond ..) ?_
    refine .bind (R := fun _ _ _ => True)
      (finish_keeps (fun _ _ _ _ _ _ => hI.execute ..) ?_ ?_)
      (fun _ _ _ _ => .pure trivial) fun _ _ _ _ => trivial
    · intro log' sub hl hs
      refine .commit (hcommit _ _ ?_) (.pure trivial)
      exact hQ response pending rfl log' sub (((Log.Extends.refl log).snoc rfl).trans hl) hs
    · exact fun _ _ _ _ => .rollback (hI.rollback ..) (.pure trivial)

theorem Request.keeps_of_routine {E : Env} {I : Assertion} {Ok : Log → List Write → Prop}
    {credentials : String} {route : Route} {draws : Draws} (hI : I.Routine)
    (hcommit : ∀ log ws, Ok log ws → I log ws .commit)
    (h : ∀ now payload user, decodeToken E.crypto now credentials = some payload →
      payload.type = .access → user.isActive = true →
      Keeps I (Leaves Ok) [⟨_, .utcnow, now⟩, ⟨_, .select (.userById payload.sub), some user⟩] []
        (route.handle E ⟨payload.sub, user⟩ draws [])) :
    Keeps I (fun _ _ _ => True) [] [] (Job.prog E (.http (.user credentials route draws))) :=
  keeps_of_handle hI hcommit (getCurrentUser_keeps hI.reads (fun _ => Leaves.error) h)

theorem Request.keeps_of_route {E : Env} {Ok : Log → List Write → Prop} {credentials : String}
    {route : Route} {draws : Draws}
    (h : ∀ now payload user, decodeToken E.crypto now credentials = some payload →
      payload.type = .access → user.isActive = true →
      Keeps (AtCommit Ok) (Leaves Ok)
        [⟨_, .utcnow, now⟩, ⟨_, .select (.userById payload.sub), some user⟩] []
        (route.handle E ⟨payload.sub, user⟩ draws [])) :
    Keeps (AtCommit Ok) (fun _ _ _ => True) [] []
      (Job.prog E (.http (.user credentials route draws))) :=
  keeps_of_routine AtCommit.routine (fun _ _ h => ⟨rfl, fun _ => h⟩) h

/-- In a run whose jobs all keep their assertions, the assertion of a job holds at the command
that it is about to issue. -/
theorem run_keeps {E : Env} {ok : Pool → Label Choice Job ℕ → Prop}
    {w₀ : World} {I : Job → Assertion} (H : (backend E).Run ok ⟨w₀, []⟩ c)
    (hnew : ∀ c j, ok c (.spawn j) → Keeps (I j) (fun _ _ _ => True) [] [] (j.prog E))
    (ht : t ∈ c.threads) {β : Type} {cm : Cmd β} {k : β → Prog Cmd Exn Outcome}
    (hp : t.prog = .cmd cm k) : I t.req t.log t.sess.written cm := by
  have hnew' (c) (j : Job) (hj : ok c (.spawn j)) :
      machine.Always (fun log t c => I j log t.written c) (fun _ _ _ => True) [] .idle (j.prog E) :=
    hnew c j hj .idle rfl
  have h := H.always (I := fun j {_} log (t : Session) c => I j log t.written c)
    (Q := fun _ _ _ _ => True) (fun _ h => absurd h List.not_mem_nil) hnew' t ht
  rw [hp] at h
  exact h.1

/-- What every program guarantees of its end holds of the jobs that have ended. -/
theorem run_ends {E : Env} {ok : Pool → Label Choice Job ℕ → Prop} {w₀ : World}
    {I : Job → Assertion} {Q : Job → Ending Outcome} (H : (backend E).Run ok ⟨w₀, []⟩ c)
    (hnew : ∀ c j, ok c (.spawn j) → Keeps (I j) (Q j) [] [] (j.prog E)) (ht : t ∈ c.threads)
    (hp : t.prog = .pure a) : Q t.req t.log t.sess.written (.ok a) := by
  have hnew' (c) (j : Job) (hj : ok c (.spawn j)) :
      machine.Always (fun log t c => I j log t.written c) (fun log t r => Q j log t.written r) []
        .idle (j.prog E) := hnew c j hj .idle rfl
  have h := H.always (I := fun j {_} log (t : Session) c => I j log t.written c)
    (Q := fun j log (t : Session) r => Q j log t.written r) (fun _ h => absurd h List.not_mem_nil)
    hnew' t ht
  rw [hp] at h
  exact h

/-- What holds at each command and at the end holds of every job, in every configuration. -/
theorem run_holds {E : Env} {ok : Pool → Label Choice Job ℕ → Prop} {w₀ : World}
    {I : Job → Assertion} {J : Job → Log → List Write → Prop}
    (H : (backend E).Run ok ⟨w₀, []⟩ c)
    (hnew : ∀ c j, ok c (.spawn j) → Keeps (I j) (fun log ws _ => J j log ws) [] [] (j.prog E))
    (hI : ∀ {j log ws β} {c : Cmd β}, I j log ws c → J j log ws) (ht : t ∈ c.threads) :
    J t.req t.log t.sess.written := by
  have hnew' (c) (j : Job) (hj : ok c (.spawn j)) :
      machine.Always (fun log t c => I j log t.written c)
      (fun log t _ => J j log t.written) [] .idle (j.prog E) := hnew c j hj .idle rfl
  have h := H.always (I := fun j {_} log (t : Session) c => I j log t.written c)
    (Q := fun j log (t : Session) _ => J j log t.written) (fun _ h => absurd h List.not_mem_nil)
    hnew' t ht
  cases hp : t.prog with
  | pure | raise => rw [hp] at h; exact h
  | cmd => rw [hp] at h; exact hI h.1

/-- The committed database changes only when a job commits. -/
theorem step_db_cases {E : Env} {c c' : Pool}
    (H : (backend E).Step c l c') : c'.state.db = c.state.db ∨
      ∃ i x t, l = .step i x ∧ c.threads[i]? = some t ∧
        ∃ (β : Type) (cm : Cmd β) (k : β → Prog Cmd Exn Outcome), t.prog = .cmd cm k ∧
          cm.isCommit = true ∧ c'.state.db = t.sess.view c.state.db := by
  cases H with
  | spawn | env => exact .inl rfl
  | @step _ _ _ β cm k t x hi hp hb =>
    rcases Cmd.exec_db cm x t.sess _ with h | ⟨hc, h⟩
    · exact .inl h
    · exact .inr ⟨_, x, t, rfl, hi, β, cm, k, hp, hc, congrArg (·.2.db) h⟩

/-- **Inversion for statements**: what a transaction has executed after a step it had executed
before, while at most another transaction committed, or it has executed it in this step. -/
theorem step_written {E : Env} {c c' : Pool} {j : ℕ} (H : (backend E).Step c l c')
    (hj : c'.threads[j]? = some t') (hw : w ∈ t'.sess.written) :
    ∃ t, c.threads[j]? = some t ∧ t.sess.written <+: t'.sess.written ∧
      (w ∈ t.sess.written ∧ (c'.state.db = c.state.db ∨ ∃ i t₁, i ≠ j ∧
        c.threads[i]? = some t₁ ∧ c'.state.db = t₁.sess.view c.state.db) ∨
      (∃ x, l = .step j x ∧ nextStatement t.prog = some w) ∧
        w.violates (t.sess.view c.state.db) = none ∧ c'.state.db = c.state.db) := by
  rcases H.getElem?_cases hj with ⟨hold, hne⟩ | ⟨r, _, _, rfl⟩ |
    ⟨x, t, β, cm, k, rfl, hold, hp, hb, rfl, hst⟩
  · refine ⟨t', hold, List.prefix_rfl, .inl ⟨hw, ?_⟩⟩
    rcases step_db_cases H with h | ⟨i, x, t₁, rfl, hi, _, _, _, _, _, h⟩
    · exact .inl h
    · exact .inr ⟨i, t₁, fun h => hne x (h ▸ rfl), hi, h⟩
  · exact absurd hw List.not_mem_nil
  · have hdb : c'.state.db = c.state.db := by
      rcases cm.exec_db x t.sess c.state with h | ⟨_, h⟩
      · exact hst ▸ h
      · have hnil : ((backend E).advance x t cm k c.state).sess.written = [] :=
          congrArg (·.1.written) h
        exact absurd (hnil ▸ hw) List.not_mem_nil
    refine ⟨t, hold, ?_⟩
    rcases cm.exec_written x t.sess c.state with h | h | ⟨wr, hwr, hv, h⟩
    · exact ⟨⟨[], by rw [List.append_nil]; exact h.symm⟩, .inl ⟨h ▸ hw, .inl hdb⟩⟩
    · exact absurd (h ▸ hw) List.not_mem_nil
    · refine ⟨⟨[wr], h.symm⟩, ?_⟩
      rcases List.mem_append.mp (h ▸ hw) with hw | hw
      · exact .inl ⟨hw, .inl hdb⟩
      · obtain rfl := List.mem_singleton.mp hw
        exact .inr ⟨⟨x, rfl, by rw [hp]; exact hwr⟩, hv, hdb⟩

/-- **Inversion for events**: what a job has seen after a step it had seen before or sees now. -/
theorem step_log {E : Env} {c c' : Pool} {j : ℕ} {e : Event Cmd} (H : (backend E).Step c l c')
    (hj : c'.threads[j]? = some t') (he : e ∈ t'.log) :
    ∃ t, c.threads[j]? = some t ∧ (e ∈ t.log ∨ ∃ x, l = .step j x ∧
      ∃ (β : Type) (cm : Cmd β) (k : β → Prog Cmd Exn Outcome), t.prog = .cmd cm k ∧
        e = ⟨β, cm, (cm.exec x t.sess c.state).1⟩) := by
  rcases H.getElem?_cases hj with ⟨hold, hne⟩ | ⟨r, _, _, rfl⟩ |
    ⟨x, t, β, cm, k, rfl, hold, hp, hb, rfl, hst⟩
  · exact ⟨t', hold, .inl he⟩
  · exact absurd he List.not_mem_nil
  · refine ⟨t, hold, ?_⟩
    rcases List.mem_append.mp he with he | he
    · exact .inl he
    · exact .inr ⟨x, rfl, β, cm, k, hp, List.mem_singleton.mp he⟩

/-- **Inversion for reads**: the answer to a SELECT was known before the step, or the committed
database gives it, if the job reads before it writes. -/
theorem step_read {E : Env} {c c' : Pool} {q : Query γ} {a : γ} (H : (backend E).Step c l c')
    (ht' : t' ∈ c'.threads) (he : ⟨γ, .select q, a⟩ ∈ t'.log)
    (hnil : ∀ t ∈ c.threads, t.req = t'.req → ∀ {β} {cm : Cmd β} {k}, t.prog = .cmd cm k →
      cm.isSelect = true → t.sess.written = []) :
    (∃ t ∈ c.threads, t.req = t'.req ∧ ⟨γ, .select q, a⟩ ∈ t.log) ∨ q.eval c.state.db = a := by
  obtain ⟨j, hj⟩ := List.getElem?_of_mem ht'
  obtain ⟨t, hold, he | ⟨x, rfl, β, cm, k, hp, he⟩⟩ := step_log H hj he
  · exact .inl ⟨t, List.mem_of_getElem? hold, (H.req_eq hold hj).symm, he⟩
  · obtain ⟨hsel, heval⟩ := Cmd.eval_of_event he.symm
    have hw := hnil t (List.mem_of_getElem? hold) (H.req_eq hold hj).symm hp hsel
    rw [Session.view, hw] at heval
    exact .inr heval

/-- No lock is held twice. -/
def LocksDisjoint (t t' : Thread Cmd Session Exn Job Outcome) : Prop :=
  ∀ w ∈ t.sess.written, ∀ w' ∈ t'.sess.written, ∀ l ∈ w.locks, l ∉ w'.locks

/-- **Locks are exclusive**: in every run, two transactions hold different locks. -/
theorem run_locks_disjoint {E : Env} {ok : Pool → Label Choice Job ℕ → Prop} {w₀ : World}
    (H : (backend E).Run ok ⟨w₀, []⟩ c) : System.Pairs LocksDisjoint c.threads := by
  refine H.invariant (P := fun c => System.Pairs LocksDisjoint c.threads)
    (fun _ _ _ _ _ h => nomatch h) fun c l c' hc _ hs => ?_
  refine hs.pairs (fun t t' h w hw w' hw' l hl hl' => h w' hw' w hw l hl' hl) hc
    (fun _ _ _ _ _ _ _ h => nomatch h) fun {β cm k i t x} _ hi hp hb j t' hij hj => ?_
  have hold := hc i j t t' hij.symm hi hj
  intro w hw w' hw' l hl
  rcases cm.exec_written x t.sess c.state with h | h | ⟨wr, hwr, _, h⟩
  · exact hold w (h ▸ hw) w' hw' l hl
  · exact nomatch h ▸ hw
  · rcases List.mem_append.mp (h ▸ hw) with hw | hw
    · exact hold w hw w' hw' l hl
    · obtain rfl := List.mem_singleton.mp hw
      exact Write.not_mem_locks_of_not_conflicts
        (Cmd.conflicts_of_not_blocked hb hwr (System.mem_others hj hij)) hw' hl

end Rawbin
