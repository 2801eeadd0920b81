import Rawbin.Verify.Statements

/-!
# Where rows come from

A rule for the origin of what the database says, in every interleaving: if each statement that
says something new is justified by what its request has seen, and what was there at the start is
justified, then so is everything that is committed, pending or seen.
-/

namespace Rawbin

/-! ## The rule -/

/-- A kind of facts: which databases state one, which statements create one, and which answers
show one. -/
structure Facts (A : Type) where
  Has : Db → A → Prop
  Creates : Write → A → Prop
  Shows : {β : Type} → Query β → β → A → Prop
  has_apply : ∀ (w : Write) (db : Db) (a : A), Has (w.apply db) a → Has db a ∨ Creates w a
  has_of_shows : ∀ {β : Type} (q : Query β) (db : Db) (a : A), Shows q (q.eval db) a → Has db a

/-- Every thread is still there, with the same request and a longer log. -/
def Continues (ts ts' : List JobThread) : Prop :=
  ∀ t ∈ ts, ∃ t' ∈ ts', t'.req = t.req ∧ t.log <+: t'.log

theorem Continues.of_step {E : Env} {c c' : Pool} {l : Label Choice Job ℕ}
    (H : (backend E).Step c l c') : Continues c.threads c'.threads := by
  intro t ht
  obtain ⟨i, hi⟩ := List.getElem?_of_mem ht
  obtain ⟨t', hi', h⟩ := H.thread_grows hi
  exact ⟨t', List.mem_of_getElem? hi', h⟩

namespace Facts

variable {A : Type} (F : Facts A)

/-- What a transaction sees is committed, or it has created it. -/
theorem has_view {ws : List Write} {db : Db} {a : A}
    (h : F.Has (ws.foldl (fun db w => w.apply db) db) a) :
    F.Has db a ∨ ∃ w ∈ ws, F.Creates w a := by
  induction ws generalizing db with
  | nil => exact .inl h
  | cons w ws ih =>
    rcases ih h with h | ⟨w', hw', h⟩
    · exact (F.has_apply w db a h).imp_right fun h => ⟨w, List.mem_cons_self, h⟩
    · exact .inr ⟨w', List.mem_cons_of_mem w hw', h⟩

/-- What a job has been shown is justified. -/
def Seen (J : A → Prop) (log : Log) : Prop :=
  ∀ (β : Type) (q : Query β) (b : β) (a : A), (⟨β, .select q, b⟩ : Event Cmd) ∈ log →
    F.Shows q b a → J a

/-- Everything in a configuration is justified. -/
structure Justified (J : A → Prop) (c : Pool) : Prop where
  committed : ∀ a, F.Has c.state.db a → J a
  pending : ∀ t ∈ c.threads, ∀ w ∈ t.sess.written, ∀ a, F.Creates w a → J a
  seen : ∀ t ∈ c.threads, F.Seen J t.log

variable {F} {E : Env} {ok : Pool → Label Choice Job ℕ → Prop} {w₀ : World} {c c' : Pool}
variable {l : Label Choice Job ℕ} {J J' : A → Prop}

theorem Justified.view (hc : F.Justified J c) {t : JobThread} (ht : t ∈ c.threads) {a : A}
    (h : F.Has (t.sess.view c.state.db) a) : J a := by
  rcases F.has_view h with h | ⟨w, hw, h⟩
  · exact hc.committed a h
  · exact hc.pending t ht w hw a h

/-- One step, if the statement that it may execute is justified. -/
theorem Justified.step (hc : F.Justified J c) (hs : (backend E).Step c l c')
    (hJ : ∀ a, J a → J' a)
    (hnew : ∀ t ∈ c.threads, ∀ w a, nextStatement t.prog = some w → F.Creates w a → J' a) :
    F.Justified J' c' where
  committed a ha := by
    rcases step_db_cases hs with h | ⟨i, x, t, _, hi, _, _, _, _, _, h⟩
    · exact hJ a (hc.committed a (h ▸ ha))
    · exact hJ a (hc.view (List.mem_of_getElem? hi) (h ▸ ha))
  pending t' ht' w hw a ha := by
    obtain ⟨j, hj⟩ := List.getElem?_of_mem ht'
    obtain ⟨t, hold, _, ⟨hw, _⟩ | ⟨⟨x, _, hnext⟩, _⟩⟩ := step_written hs hj hw
    · exact hJ a (hc.pending t (List.mem_of_getElem? hold) w hw a ha)
    · exact hnew t (List.mem_of_getElem? hold) w a hnext ha
  seen t' ht' β q b a he ha := by
    obtain ⟨j, hj⟩ := List.getElem?_of_mem ht'
    obtain ⟨t, hold, he | ⟨x, _, γ, cm, k, _, he⟩⟩ := step_log hs hj he
    · exact hJ a (hc.seen t (List.mem_of_getElem? hold) β q b a he ha)
    · obtain ⟨_, heval⟩ := Cmd.eval_of_event he.symm
      exact hJ a (hc.view (List.mem_of_getElem? hold) (F.has_of_shows q _ a (heval.symm ▸ ha)))

/-- **Justified facts.** In every run everything that is committed, pending or seen is justified if
the facts of the first database are, if a justification stays one, and if every statement that a
job issues is justified by what the job has seen. -/
theorem run_justified {J : List JobThread → A → Prop} (H : (backend E).Run ok ⟨w₀, []⟩ c)
    (h₀ : ∀ a, F.Has w₀.db a → J [] a)
    (hmono : ∀ ts ts' a, Continues ts ts' → J ts a → J ts' a)
    (hnew : ∀ c, (backend E).Run ok ⟨w₀, []⟩ c → ∀ t ∈ c.threads, ∀ w a,
      t.req.Issues E t.log t.sess.written w → F.Seen (J c.threads) t.log → F.Creates w a →
        J c.threads a) :
    F.Justified (J c.threads) c := by
  induction H with
  | refl => exact ⟨h₀, fun _ h => (nomatch h), fun _ h => (nomatch h)⟩
  | step H hok hs ih =>
    refine ih.step hs (fun a => hmono _ _ a (.of_step hs)) fun t ht w a hnext ha => ?_
    refine hmono _ _ a (.of_step hs) ?_
    cases hp : t.prog with
    | pure | raise => rw [hp] at hnext; cases hnext
    | cmd cm k =>
      rw [hp] at hnext
      exact hnew _ H t ht w a (run_issues H ht hp hnext) (ih.seen t ht) ha

end Facts

/-! ## What a request has executed -/

/-- The statements that a request has executed and that the database has not refused. -/
def executed (log : Log) : List Write :=
  log.filterMap fun e => if failed e then none else e.cmd.statement

theorem executed_mono {log log' : Log} (h : log <+: log') {w : Write} (hw : w ∈ executed log) :
    w ∈ executed log' := (h.filterMap _).subset hw

theorem mem_executed_snoc {log : Log} {β : Type} {cm : Cmd β} {x : Choice} {t : Session} {w : World}
    {wr : Write} (hwr : cm.statement = some wr) (hv : wr.violates (t.view w.db) = none) :
    wr ∈ executed (log ++ [⟨β, cm, (cm.exec x t w).1⟩]) := by
  have hanswered : failed ⟨β, cm, (cm.exec x t w).1⟩ = false := by
    cases cm with
    | execute wr' =>
      cases hwr
      simp only [Cmd.exec, hv]
      split <;> rfl
    | attempt c => cases c with
      | commit => cases hwr
      | _ => rfl
    | _ => rfl
  rw [executed, List.filterMap_append]
  refine List.mem_append_right _ (List.mem_filterMap.mpr ⟨_, List.mem_singleton_self _, ?_⟩)
  rw [if_neg (ne_true_of_eq_false hanswered)]
  exact hwr

/-- What a session holds has been executed. -/
theorem run_executed {E : Env} {ok : Pool → Label Choice Job ℕ → Prop} {w₀ : World} {c : Pool}
    {t : JobThread} (H : (backend E).Run ok ⟨w₀, []⟩ c) (ht : t ∈ c.threads) {w : Write}
    (hw : w ∈ t.sess.written) : w ∈ executed t.log := by
  induction H generalizing t with
  | refl => cases ht
  | @step c l c' H hok hs ih =>
    obtain ⟨i, hi⟩ := List.getElem?_of_mem ht
    rcases hs.getElem?_cases hi with ⟨hold, _⟩ | ⟨r, _, _, rfl⟩ |
      ⟨x, t, β, cm, k, rfl, hold, hp, hb, rfl, hst⟩
    · exact ih (List.mem_of_getElem? hold) hw
    · cases hw
    · have hbefore (h : w ∈ t.sess.written) :
          w ∈ executed (t.log ++ [⟨β, cm, (cm.exec x t.sess c.state).1⟩]) :=
        executed_mono (List.prefix_append ..) (ih (List.mem_of_getElem? hold) h)
      rcases cm.exec_written x t.sess c.state with h | h | ⟨wr, hwr, hv, h⟩
      · exact hbefore (h ▸ hw)
      · exact absurd (h ▸ hw) List.not_mem_nil
      · rcases List.mem_append.mp (h ▸ hw) with hw | hw
        · exact hbefore hw
        · obtain rfl := List.mem_singleton.mp hw
          exact mem_executed_snoc hwr hv

theorem Acts.mono {E : Env} {credentials : String} {log log' : Log} {user : CurrentUser}
    (h : Acts E credentials log user) (hl : log <+: log') : Acts E credentials log' user where
  token := by
    obtain ⟨now, payload, he, h⟩ := h.token
    exact ⟨now, payload, hl.subset he, h⟩
  read := hl.subset h.read
  active := h.active

/-! ## Members -/

/-- The membership that a statement creates. -/
def Write.AddsMember (w : Write) (k : Uuid × Uuid) : Prop :=
  ∃ row, w = .insertUserDevice k.1 k.2 row

/-- A membership check that succeeded. -/
def Query.ShowsMember : {β : Type} → Query β → β → Uuid × Uuid → Prop
  | _, .member d u, link, k => link.isSome = true ∧ k = (u, d)
  | _, _, _, _ => False

def memberFacts : Facts (Uuid × Uuid) where
  Has db k := db.userDevices.contains k = true
  Creates := Write.AddsMember
  Shows := Query.ShowsMember
  has_apply w db k h := by
    cases w with
    | insertUserDevice u d row =>
      refine ((Table.contains_insert ..).mp h).imp_right fun hk => ⟨row, ?_⟩
      rw [hk]
    | deleteUserDevice u d => exact .inl ((Table.contains_delete ..).mp h).1
    | _ => exact .inl h
  has_of_shows q db k h := by
    cases q with
    | member d u =>
      obtain ⟨hs, rfl⟩ := h
      by_contra hn
      rw [Query.eval, if_neg hn] at hs
      cases hs
    | _ => exact h.elim

/-- How a user has come to a device: by creating it, or because someone who had come to it shared
it. -/
inductive Entitled (E : Env) (w₀ : World) (ts : List JobThread) : Uuid → Uuid → Prop where
  | initial (h : w₀.db.userDevices.contains (u, d) = true) : Entitled E w₀ ts u d
  | created (ht : t ∈ ts) (hreq : t.req = .http (.user credentials route draws))
      (hacts : Acts E credentials t.log user)
      (hinsert : .insertDevice draws.id row ∈ executed t.log) :
    Entitled E w₀ ts user.id draws.id
  | shared (ht : t ∈ ts) (hreq : t.req = .http (.user credentials (.shareDevice d body) draws))
      (hacts : Acts E credentials t.log user) (hby : Entitled E w₀ ts user.id d)
      (hfound : ⟨_, .select (.userByEmail body.email), some (u, row)⟩ ∈ t.log) :
    Entitled E w₀ ts u d

theorem Entitled.mono {E : Env} {w₀ : World} {ts ts' : List JobThread} {u d : Uuid}
    (h : Entitled E w₀ ts u d) (hg : Continues ts ts') : Entitled E w₀ ts' u d := by
  induction h with
  | initial h => exact .initial h
  | created ht hreq hacts hinsert =>
    obtain ⟨t', ht', hr, hl⟩ := hg _ ht
    exact .created ht' (hr.trans hreq) (hacts.mono hl) (executed_mono hl hinsert)
  | shared ht hreq hacts _ hfound ih =>
    obtain ⟨t', ht', hr, hl⟩ := hg _ ht
    exact .shared ht' (hr.trans hreq) (hacts.mono hl) ih (hl.subset hfound)

/-- The device that a statement is about. -/
def Write.deviceId : Write → Option Uuid
  | .insertUser .. => none
  | .updateUser .. => none
  | .insertRefreshToken .. => none
  | .updateRefreshToken .. => none
  | .insertDevice id _ => some id
  | .updateDevice id _ => some id
  | .insertUserDevice _ d _ => some d
  | .deleteUserDevice _ d => some d
  | .insertSensorReadings d _ => some d
  | .insertDeviceConfig d _ => some d
  | .updateDeviceConfig d _ => some d
  | .insertCompostCycle _ row => some row.deviceId
  | .updateCompostCycle _ d _ _ => some d
  | .insertWasteLog _ row => some row.deviceId

section
variable {E : Env} {ok : Pool → Label Choice Job ℕ → Prop} {w₀ : World} {c : Pool} {t : JobThread}

/-- A statement about a device comes from a user who has come to the device. -/
theorem Entitled.of_issues {credentials : String} {route : Route} {draws : Draws}
    {user : CurrentUser}
    {w : Write} {d : Uuid} {ws : List Write} {log : Log} (ht : t ∈ c.threads)
    (hreq : t.req = .http (.user credentials route draws)) (hacts : Acts E credentials t.log user)
    (hseen : memberFacts.Seen (fun k => Entitled E w₀ c.threads k.1 k.2) t.log) (hl : log <+: t.log)
    (hws : ∀ w' ∈ ws, w' ∈ executed t.log)
    (hw : ∀ id row, w = .insertDevice id row → w ∈ executed t.log)
    (h : RouteIssues E user draws route log ws w) (hd : w.deviceId = some d) :
    Entitled E w₀ c.threads user.id d := by
  have hmember {d u link : Uuid} (hm : ⟨_, .select (.member d u), some link⟩ ∈ log) :
      Entitled E w₀ c.threads u d :=
    hseen _ (.member d u) (some link) (u, d) (hl.subset hm) ⟨rfl, rfl⟩
  have hchecked {d : Uuid} (hc : Checked log d user.id) : Entitled E w₀ c.threads user.id d :=
    hmember hc.member.choose_spec
  cases h with
  | demoDevice | newDevice =>
    cases hd
    exact .created ht hreq hacts (hw _ _ rfl)
  | demoMember | firstMember =>
    cases hd
    exact .created ht hreq hacts (hws _ (List.mem_singleton_self _))
  | demoReadings hrow =>
    cases hd
    exact .created ht hreq hacts (hws _ hrow)
  | renameDevice _ hm =>
    cases hd
    exact hmember hm
  | confirm hc | provision hc | share hc | removeMember hc | insertConfig hc | updateConfig hc =>
    cases hd
    exact hchecked hc
  | createCycle hc hrow | createWasteLog hc hrow =>
    cases hd
    rw [hrow]
    exact hchecked hc
  | updateCycle hc =>
    cases hd
    exact hchecked hc
  | patchMe | pushToken => cases hd

theorem run_entitled (H : (backend E).Run ok ⟨w₀, []⟩ c) :
    memberFacts.Justified (fun k => Entitled E w₀ c.threads k.1 k.2) c := by
  refine Facts.run_justified (J := fun ts (k : Uuid × Uuid) => Entitled E w₀ ts k.1 k.2) H
    (fun k h => .initial h) (fun ts ts' k hg h => h.mono hg) fun c H t ht w k hI hseen hw => ?_
  obtain ⟨u, d⟩ := k
  obtain ⟨row, rfl⟩ := hw
  have hin (w' : Write) (hw' : w' ∈ t.sess.written) : w' ∈ executed t.log := run_executed H ht hw'
  generalize t.sess.written = ws at hI hin
  cases hreq : t.req with
  | http r =>
    rw [hreq] at hI
    cases r with
    | user credentials route draws =>
      obtain ⟨user, hacts, h⟩ := hI
      have hfrom : Entitled E w₀ c.threads user.id d := by
        refine .of_issues ht hreq hacts hseen List.prefix_rfl hin (fun id row he => ?_) h rfl
        cases he
      cases h with
      | demoMember | firstMember => exact hfrom
      | share _ hfound => exact .shared ht hreq hacts hfrom hfound
    | auth route draws => cases hI
  | _ =>
    rw [hreq] at hI
    exact hI.elim

/-- **Access is handed on.** However requests are interleaved, whoever is a member of a device has
been one from the start, has created the device, or was named by a request to share it that someone
else made who had come to it in the same way; and whoever executes a statement about a device has
come to it so. -/
theorem access_provenance (H : (backend E).Run ok ⟨w₀, []⟩ c) :
    (∀ u d, c.state.db.userDevices.contains (u, d) = true → Entitled E w₀ c.threads u d) ∧
    ∀ t ∈ c.threads, ∀ w ∈ t.sess.written, ∀ d, w.deviceId = some d →
      ∃ credentials route draws user, t.req = .http (.user credentials route draws) ∧
        Acts E credentials t.log user ∧ Entitled E w₀ c.threads user.id d := by
  have hjust := run_entitled H
  refine ⟨fun u d h => hjust.committed (u, d) h, fun t ht w hw d hd => ?_⟩
  obtain ⟨before, after, hsplit⟩ := List.append_of_mem hw
  obtain ⟨log, hl, hI⟩ := run_written H ht hsplit
  have hin {w' : Write} (h : w' ∈ t.sess.written) : w' ∈ executed t.log := run_executed H ht h
  cases hreq : t.req with
  | http r =>
    rw [hreq] at hI
    cases r with
    | user credentials route draws =>
      obtain ⟨user, hacts, h⟩ := hI
      refine ⟨credentials, route, draws, user, rfl, hacts.mono hl, ?_⟩
      refine .of_issues ht hreq (hacts.mono hl) (hjust.seen t ht) hl (fun w' hw' => hin ?_)
        (fun _ _ _ => hin hw) h hd
      rw [hsplit]
      exact List.mem_append_left _ hw'
    | auth route draws =>
      cases hI <;> cases hd
  | _ =>
    rw [hreq] at hI
    exact hI.elim

end

/-- Alice shares device 7 with Bob. -/
def aliceShares : List (Label Choice Job Nat) :=
  .spawn (Sample.request 1 (.shareDevice 7 ⟨"bob@rawbin.io"⟩) 10) :: Sample.steps 0 11

theorem aliceShares_provenance : ∃ c,
    (backend Sample.env).followIf (fun _ _ => true) ⟨Sample.deviceWorld, []⟩ aliceShares = some c ∧
    Sample.deviceWorld.db.userDevices.contains (2, 7) = false ∧
    c.state.db.userDevices.contains (2, 7) = true ∧
    Entitled Sample.env Sample.deviceWorld c.threads 2 7 := by
  have h : ((backend Sample.env).followIf (fun _ _ => true) ⟨Sample.deviceWorld, []⟩
      aliceShares).any (·.state.db.userDevices.contains (2, 7)) = true := by decide +kernel
  obtain ⟨c, hc, hm⟩ := (Option.any_eq_true _ _).mp h
  exact ⟨c, hc, by decide, hm, (access_provenance (.of_followIf hc)).1 2 7 hm⟩

end Rawbin
