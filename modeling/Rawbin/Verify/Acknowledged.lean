import Rawbin.Verify.Rotation
import Rawbin.Verify.PlainRoutes

/-!
# What a client is told and what is committed

`get_db` commits after its `yield`, when the response has left. Here the commit may fail; the
`except` block then rolls back, and the client has its response already.
-/

namespace Rawbin

variable (E : Env)

/-! ## Requests whose commit may fail -/

/-- `await session.commit()`, which flushes what is pending first; an exception rolls back. -/
def finishOrFail (pending : List Write) : Prog Cmd Exn Unit :=
  closeSession (Handler.flushAll pending) commitOrFail

def getDbOrFail (route : Handler Response) : Prog Cmd Exn Response := getDbWith finishOrFail route

def requests : System Cmd World Session Choice Exn Request Response Nat where
  toMachine := machine
  start := .idle
  prog r := getDbOrFail (r.handle E)
  env dt w := w.tick dt

abbrev RequestThread := Thread Cmd Session Exn Request Response

abbrev RequestPool := Config Cmd World Session Exn Request Response

namespace Cmd

def isRollback : {β : Type} → Cmd β → Bool
  | _, .rollback => true
  | _, _ => false

/-- The command ends the transaction. -/
def ends (c : Cmd β) : Bool := c.isCommit || c.isRollback

/-- The command sends a 2xx response. -/
def acknowledges (c : Cmd β) : Bool := c.response.any Response.isSuccess

theorem isData_ends {c : Cmd β} (h : c.isData = true) :
    c.ends = false ∧ c.acknowledges = false := by
  cases c <;> first | exact ⟨rfl, rfl⟩ | cases h

end Cmd

/-- A statement or a commit that raised. -/
def failed : Event Cmd → Bool
  | ⟨_, .execute _, .error _⟩ => true
  | ⟨_, .attempt .commit, .error _⟩ => true
  | _ => false

/-- A commit that did not raise. -/
def succeeded : Event Cmd → Bool
  | ⟨_, .attempt .commit, .ok _⟩ => true
  | _ => false

/-- The client has received a 2xx response. -/
def acknowledged (log : Log) : Bool := log.any (·.cmd.acknowledges)

/-- The statements that the request has executed. -/
def statements (log : Log) : List Write := log.filterMap (·.cmd.statement)

/-- The request has nothing left to do. -/
def ended {ε α : Type} : Prog Cmd ε α → Bool
  | .cmd .. => false
  | _ => true

/-- Request `i` is over, and one step of the run put everything that it has executed into the
database. -/
def Landed (c₀ c : RequestPool) (i : ℕ) (t : RequestThread) : Prop :=
  ended t.prog = true ∧ ∃ c₁ l c₂ t₁, (requests E).Run (fun _ _ => True) c₀ c₁ ∧
    (requests E).Step c₁ l c₂ ∧
    (requests E).Run (fun _ _ => True) c₂ c ∧ c₁.threads[i]? = some t₁ ∧
    statements t.log = statements t₁.log ∧ c₂.state.db = t₁.sess.view c₁.state.db

/-- The statement that the request is about to execute violates nothing, and its commit does not
fail. -/
def proceeds (w : World) (x : Choice) (t : RequestThread) : Bool :=
  (nextStatement t.prog).all (fun wr => (wr.violates (t.sess.view w.db)).isNone) &&
    (!atCommit t.prog || x = .ok)

/-- A request begins when none is between its 2xx response and its end, and nothing fails there. -/
def inTime (c : RequestPool) : Label Choice Request ℕ → Bool
  | .spawn _ => c.threads.all fun t => !acknowledged t.log || ended t.prog
  | .step i x => c.threads[i]?.all fun t => !acknowledged t.log || proceeds c.state x t
  | .env _ => true

/-! ## One request -/

/-- What the request has done before its response. -/
def Early (log : Log) : Prop :=
  acknowledged log = false ∧ ∀ e ∈ log, e.cmd.ends = false

/-- A 2xx response comes before the end of the transaction, and after it only a failure makes the
request roll back. -/
def Orderly (log : Log) (c : Cmd β) : Prop :=
  (c.acknowledges = true → ∀ e ∈ log, e.cmd.ends = false) ∧
    (c.isRollback = true → acknowledged log = true → ∃ e ∈ log.getLast?, failed e = true)

/-- A request that told its client of a success has committed, or has rolled back. -/
def Settled (log : Log) : Prop :=
  acknowledged log = true → ∃ e ∈ log.getLast?, succeeded e = true ∨ e.cmd.isRollback = true

theorem acknowledged_snoc (log : Log) (e : Event Cmd) :
    acknowledged (log ++ [e]) = (acknowledged log || e.cmd.acknowledges) := by
  simp [acknowledged]

theorem Early.snoc {log : Log} {e : Event Cmd} (h : Early log) (he : e.cmd.isData = true) :
    Early (log ++ [e]) := by
  obtain ⟨hends, hack⟩ := Cmd.isData_ends he
  refine ⟨by rw [acknowledged_snoc, h.1, hack]; rfl, fun e' he' => ?_⟩
  rcases List.mem_append.mp he' with h' | h'
  · exact h.2 e' h'
  · exact List.mem_singleton.mp h' ▸ hends

theorem Orderly.of_data {log : Log} {c : Cmd β} (h : c.isData = true) : Orderly log c := by
  obtain ⟨hends, hack⟩ := Cmd.isData_ends h
  obtain ⟨_, hroll⟩ := Bool.or_eq_false_iff.mp hends
  exact ⟨fun ha => absurd ha (by rw [hack]; nofun), fun hr => absurd hr (by rw [hroll]; nofun)⟩

section
variable {E} {log : Log} {t : Session}

/-- A plain program is early until it ends. -/
theorem Plain.always {p : Prog Cmd Exn α} (hp : Plain p) (h : Early log) :
    machine.Always (fun log _ c => Orderly log c)
      (fun log _ r => Early log ∧ ∀ e, r = .error e → e.Refuses) log t p := by
  induction p generalizing log t with
  | pure a => exact ⟨h, nofun⟩
  | raise e =>
    refine ⟨h, fun e' he => ?_⟩
    cases he
    exact hp
  | cmd c k ih =>
    exact ⟨.of_data hp.1, fun x w => ih _ (hp.2 _ ⟨x, t, w, rfl⟩) (h.snoc hp.1)⟩

/-- A flush ends with the statement that failed, if one did. -/
theorem flushAll_always (pending : List Write) :
    machine.Always (fun log _ c => Orderly log c)
      (fun log _ r => ∀ e, r = .error e → ∃ e' ∈ log.getLast?, failed e' = true) log t
      (Handler.flushAll pending) := by
  induction pending generalizing log t with
  | nil => exact nofun
  | cons w ws ih =>
    refine ⟨.of_data rfl, fun x s => ?_⟩
    intro r
    generalize r.1 = b
    cases b with
    | ok => exact ih
    | error e => exact fun _ _ => ⟨_, List.getLast?_concat, rfl⟩

/-- The commit succeeds, or something fails and the request rolls back. -/
theorem finishOrFail_always (pending : List Write) :
    machine.Always (fun log _ c => Orderly log c) (fun log _ _ => Settled log) log t
      (finishOrFail pending) := by
  refine .tryCatch (Q := fun log _ => Except.Satisfies (fun _ => Settled log)
    fun _ => ∃ e ∈ log.getLast?, failed e = true)
    (.bind (flushAll_always pending) ?_ ?_) (fun _ _ _ h => h) ?_
  · intro log t _ _
    refine ⟨⟨fun h => absurd h Bool.false_ne_true, fun h => absurd h Bool.false_ne_true⟩,
      fun x s => ?_⟩
    intro r
    generalize r.1 = b
    cases b with
    | ok => exact fun _ => ⟨_, List.getLast?_concat, .inl rfl⟩
    | error e => exact ⟨_, List.getLast?_concat, rfl⟩
  · exact fun _ _ e h => h e rfl
  · intro log t e hf
    exact ⟨⟨nofun, fun _ _ => hf⟩, fun _ _ _ => ⟨_, List.getLast?_concat, .inr rfl⟩⟩

theorem getDbOrFail_always {route : Handler Response} (hroute : route.Plain) :
    machine.Always (fun log _ c => Orderly log c) (fun log _ _ => Settled log) [] t
      (getDbOrFail route) := by
  have hearly : Early [] := ⟨rfl, fun _ h => nomatch h⟩
  refine .bind (Q := fun log _ r => ∃ r', r = .ok r' ∧ Early log ∧ ∀ e, r' = .error e → e.Refuses)
    (.outcome ((Plain.always (hroute []) hearly).mono fun _ _ r h => ⟨r, rfl, h⟩)) ?_ ?_
  · intro log t r h
    obtain ⟨r', hr, hlog, he⟩ := h
    cases hr
    cases r with
    | ok r =>
      refine ⟨⟨fun _ => hlog.2, nofun⟩, fun _ _ => ?_⟩
      exact (finishOrFail_always r.2).bind (fun _ _ _ h => h) fun _ _ _ h => h
    | error e =>
      have hrefuse : (Cmd.respond e.response).acknowledges = false := he e rfl
      refine ⟨⟨nofun, fun _ ha => absurd ha (by rw [hlog.1]; nofun)⟩, fun _ _ => ?_⟩
      refine ⟨⟨fun ha => absurd ha (by rw [hrefuse]; nofun), nofun⟩, fun _ _ ha => ?_⟩
      rw [acknowledged_snoc, acknowledged_snoc, hlog.1, hrefuse] at ha
      cases ha
  · exact fun _ _ _ h => nomatch h.choose_spec.1

end

/-! ## Runs -/

section
variable {E} {ok : RequestPool → Label Choice Request ℕ → Prop} {w₀ : World} {c c' : RequestPool}

theorem run_orderly (hE : E.crypto.Refuses) (H : (requests E).Run ok ⟨w₀, []⟩ c) :
    ∀ t ∈ c.threads, machine.Always (fun log _ c => Orderly log c) (fun log _ _ => Settled log)
      t.log t.sess t.prog :=
  H.always (I := fun _ {_} log _ c => Orderly log c) (Q := fun _ log _ _ => Settled log)
    (fun _ h => nomatch h) fun _ r _ => getDbOrFail_always (r.plain hE)

theorem not_failed {t : RequestThread} {x : Choice} {w : World} {cm : Cmd β}
    {k : β → Prog Cmd Exn Response} (hp : t.prog = .cmd cm k) (h : proceeds w x t = true) :
    failed ⟨β, cm, (cm.exec x t.sess w).1⟩ = false := by
  rw [proceeds, hp] at h
  obtain ⟨hs, hc⟩ := Bool.and_eq_true_iff.mp h
  cases cm with
  | execute wr =>
    have hv : wr.violates (t.sess.view w.db) = none := by
      simpa [nextStatement, Cmd.statement] using hs
    simp only [Cmd.exec, hv]
    split <;> rfl
  | attempt cm =>
    cases cm with
    | commit =>
      obtain rfl : x = .ok := by simpa [atCommit, Cmd.isCommit] using hc
      rfl
    | _ => rfl
  | _ => rfl

/-- What has been acknowledged has not failed. -/
def Kept (log : Log) : Prop :=
  acknowledged log = true → (∀ e ∈ log, e.cmd.isRollback = false) ∧
    ∀ e ∈ log.getLast?, failed e = false

theorem Kept.snoc {log : Log} {cm : Cmd β} {b : β} (h : Kept log) (ho : Orderly log cm)
    (hf : acknowledged log = true → failed ⟨β, cm, b⟩ = false) : Kept (log ++ [⟨β, cm, b⟩]) := by
  intro hack
  rw [acknowledged_snoc] at hack
  have hlast {e : Event Cmd} (he : e ∈ (log ++ [(⟨β, cm, b⟩ : Event Cmd)]).getLast?) :
      e = ⟨β, cm, b⟩ := by
    rw [List.getLast?_concat] at he
    exact (Option.some.inj he).symm
  cases hlog : acknowledged log with
  | true =>
    obtain ⟨hroll, hnf⟩ := h hlog
    refine ⟨fun e he => ?_, fun e he => hlast he ▸ hf hlog⟩
    rcases List.mem_append.mp he with he | he
    · exact hroll e he
    · rw [List.mem_singleton.mp he, Bool.eq_false_iff]
      intro hr
      obtain ⟨e', he', hfail⟩ := ho.2 hr hlog
      rw [hnf e' he'] at hfail
      cases hfail
  | false =>
    rw [hlog, Bool.false_or] at hack
    have hends : ∀ e ∈ log, e.cmd.ends = false := ho.1 hack
    refine ⟨fun e he => ?_, fun e he => hlast he ▸ ?_⟩
    · rcases List.mem_append.mp he with he | he
      · exact (Bool.or_eq_false_iff.mp (hends e he)).2
      · rw [List.mem_singleton.mp he]
        cases cm <;> first | rfl | cases hack
    · cases cm with
      | execute => cases hack
      | attempt cm => cases cm <;> first | rfl | cases hack
      | _ => rfl

theorem run_kept (hE : E.crypto.Refuses)
    (H : (requests E).Run (fun c l => inTime c l = true) ⟨w₀, []⟩ c) :
    ∀ t ∈ c.threads, Kept t.log := by
  induction H with
  | refl => exact fun _ h => nomatch h
  | @step c l c' H hok hs ih =>
    intro t ht
    obtain ⟨i, hi⟩ := List.getElem?_of_mem ht
    rcases hs.getElem?_cases hi with ⟨hold, _⟩ | ⟨r, _, _, rfl⟩ |
      ⟨x, t, β, cm, k, rfl, hold, hp, _, rfl, _⟩
    · exact ih t (List.mem_of_getElem? hold)
    · exact fun h => nomatch h
    · have hmem := List.mem_of_getElem? hold
      have ho := run_orderly hE H t hmem
      rw [hp] at ho
      refine (ih t hmem).snoc ho.1 fun hack => not_failed hp ?_
      simpa [inTime, hold, hack] using hok

/-- A commit that succeeds puts everything into the database that its transaction has executed. -/
theorem succeeded_lands {cm : Cmd β} {x : Choice} {t : Session} {w : World}
    (h : succeeded ⟨β, cm, (cm.exec x t w).1⟩ = true) :
    cm.statement = none ∧ (cm.exec x t w).2.2.db = t.view w.db := by
  cases cm with
  | attempt cm =>
    cases cm with
    | commit => cases x <;> first | exact ⟨rfl, rfl⟩ | cases h
    | _ => cases h
  | _ => cases h

theorem run_landed (H : (requests E).Run ok ⟨w₀, []⟩ c) {i : ℕ} {t : RequestThread}
    (hi : c.threads[i]? = some t) (hend : ended t.prog = true)
    (h : ∃ e ∈ t.log.getLast?, succeeded e = true) : Landed E ⟨w₀, []⟩ c i t := by
  induction H generalizing t with
  | refl => cases hi
  | @step c l c' H hok hs ih =>
    rcases hs.getElem?_cases hi with ⟨hold, _⟩ | ⟨r, _, _, rfl⟩ |
      ⟨x, t, β, cm, k, rfl, hold, hp, _, rfl, hst⟩
    · obtain ⟨_, c₁, l₁, c₂, t₁, H₁, hs₁, H₂, hrest⟩ := ih hold hend h
      exact ⟨hend, c₁, l₁, c₂, t₁, H₁, hs₁, H₂.step trivial hs, hrest⟩
    · obtain ⟨_, h, _⟩ := h
      cases h
    · obtain ⟨e, he, hsucc⟩ := h
      have he : e ∈ (t.log ++ [(⟨β, cm, (cm.exec x t.sess c.state).1⟩ : Event Cmd)]).getLast? := he
      rw [List.getLast?_concat] at he
      cases he
      obtain ⟨hnone, hdb⟩ := succeeded_lands hsucc
      refine ⟨hend, c, _, c', t, H.mono fun _ _ _ => trivial, hs, .refl, hold, ?_, hst ▸ hdb⟩
      show statements (t.log ++ [_]) = statements t.log
      rw [statements, statements, List.filterMap_append, List.filterMap_cons, hnone]
      exact List.append_nil _

/-- **Acknowledged writes.** When a 2xx response is sent nothing of its request is committed. In a
run in which requests begin in time, no request fails after its 2xx response, and whatever a
request was told to be done when another one begins has landed in the database. -/
theorem acknowledged_lands (hE : E.crypto.Refuses) (w₀ : World) :
    (∀ c, (requests E).Run (fun _ _ => True) ⟨w₀, []⟩ c → ∀ t ∈ c.threads, ∀ r k,
      t.prog = .cmd (.respond r) k → r.isSuccess = true → ∀ e ∈ t.log, e.cmd.isCommit = false) ∧
    ∀ c, (requests E).Run (fun c l => inTime c l = true) ⟨w₀, []⟩ c →
      (∀ t ∈ c.threads, Kept t.log) ∧
      ∀ r, inTime c (.spawn r) = true → ∀ i t, c.threads[i]? = some t →
        acknowledged t.log = true → Landed E ⟨w₀, []⟩ c i t := by
  refine ⟨fun c H t ht r k hp hr e he => ?_, fun c H => ⟨run_kept hE H, fun r hr i t hi hack => ?_⟩⟩
  · have ho := run_orderly hE H t ht
    rw [hp] at ho
    exact (Bool.or_eq_false_iff.mp (ho.1.1 hr e he)).1
  · have ht := List.mem_of_getElem? hi
    have hend : ended t.prog = true := by
      simpa [hack] using List.all_eq_true.mp hr t ht
    obtain ⟨e, he, hsettled⟩ : ∃ e ∈ t.log.getLast?,
        succeeded e = true ∨ e.cmd.isRollback = true := by
      have hs := run_orderly hE H t ht
      cases hp : t.prog with
      | cmd => rw [hp] at hend; cases hend
      | pure | raise => rw [hp] at hs; exact hs hack
    refine run_landed H hi hend ⟨e, he, hsettled.resolve_right fun h => ?_⟩
    rw [(run_kept hE H t ht hack).1 e (List.mem_of_getLast? he)] at h
    cases h

end

/-! ## A token that was logged out -/

def logoutRequest : Request := .auth (.logout ⟨"token"⟩) (Sample.draws 1)

def refreshLater : Request := .auth (.refresh ⟨"token"⟩) (Sample.draws 2)

/-- The refresh begins when the logout has been committed. -/
def logoutThenRefresh : List (Label Choice Request Nat) :=
  .spawn logoutRequest :: List.replicate 4 (.step 0 .ok)

/-- The client has the response to its logout, whose UPDATE is still pending. -/
def logoutAnswered : List (Label Choice Request Nat) :=
  .spawn logoutRequest :: List.replicate 2 (.step 0 .ok)

theorem sampleCrypto_refuses : Sample.env.crypto.Refuses := ⟨nofun, nofun⟩

theorem logoutThenRefresh_lands : ∃ c t,
    (requests Sample.env).followIf inTime ⟨tokenWorld, []⟩ logoutThenRefresh = some c ∧
    c.threads[0]? = some t ∧ acknowledged t.log = true ∧
    Landed Sample.env ⟨tokenWorld, []⟩ c 0 t := by
  have h : ((requests Sample.env).followIf inTime ⟨tokenWorld, []⟩ logoutThenRefresh).any (fun c =>
      inTime c (.spawn refreshLater) && c.threads[0]?.any (acknowledged ·.log)) = true := by
    decide +kernel
  obtain ⟨c, hc, h⟩ := (Option.any_eq_true _ _).mp h
  obtain ⟨hr, h⟩ := Bool.and_eq_true_iff.mp h
  obtain ⟨t, ht, hack⟩ := (Option.any_eq_true _ _).mp h
  exact ⟨c, t, hc, ht, hack, ((acknowledged_lands sampleCrypto_refuses tokenWorld).2 c
    (.of_followIf hc)).2 refreshLater hr 0 t ht hack⟩

/-- The logout has not landed when the client has its response, and a refresh that begins then is
answered with a new pair. -/
theorem logoutAnswered_not_landed : (¬ ∀ c, (requests Sample.env).Run (fun _ _ => True)
      ⟨tokenWorld, []⟩ c → ∀ i t, c.threads[i]? = some t → acknowledged t.log = true →
        Landed Sample.env ⟨tokenWorld, []⟩ c i t) ∧
    ((requests Sample.env).follow ⟨tokenWorld, []⟩ (logoutAnswered ++
      .spawn refreshLater :: List.replicate 10 (.step 1 .ok))).any
        (·.threads[1]?.any (acknowledged ·.log)) = true := by
  refine ⟨fun hevery => ?_, by decide +kernel⟩
  have h : ((requests Sample.env).followIf (fun _ _ => true) ⟨tokenWorld, []⟩ logoutAnswered).any
      (·.threads[0]?.any fun t => acknowledged t.log && !ended t.prog) = true := by decide +kernel
  obtain ⟨c, hc, h⟩ := (Option.any_eq_true _ _).mp h
  obtain ⟨t, ht, h⟩ := (Option.any_eq_true _ _).mp h
  obtain ⟨hack, hend⟩ := Bool.and_eq_true_iff.mp h
  have hrun : (requests Sample.env).Run (fun _ _ => True) ⟨tokenWorld, []⟩ c :=
    (System.Run.of_followIf hc).mono fun _ _ _ => trivial
  rw [(hevery c hrun 0 t ht hack).1] at hend
  cases hend

end Rawbin
