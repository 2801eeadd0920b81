import Rawbin.Verify.LocalAssertions

/-!
# The cached thresholds and the configuration they come from

`PUT /config` deletes the cache before it commits, and the loader reads a row and caches it in
two commands. A load that starts after the commit returns what was put, if nothing stale was
cached meanwhile.
-/

namespace Rawbin

/-- The thresholds that a command puts into the cache of the device. -/
def RedisCmd.fills (d : Uuid) : {β : Type} → RedisCmd β → Option Thresholds
  | _, .setex (.alertConfig d') _ θ => if d' = d then some θ else none
  | _, _ => none

namespace Cmd

def fills (d : Uuid) : {β : Type} → Cmd β → Option Thresholds
  | _, .redis c => c.fills d
  | _, .attempt c => c.fills d
  | _, _ => none

/-- What is cached after a command was cached before, or the command put it there. -/
theorem exec_cache (c : Cmd β) (x : Choice) (t : Session) (w : World)
    (h : (c.exec x t w).2.2.redis.get w.now (.alertConfig d) = some θ) :
    w.redis.get w.now (.alertConfig d) = some θ ∨ c.fills d = some θ := by
  induction c generalizing x with
  | redis c =>
    cases c with
    | get => exact .inl h
    | setex k ttl v =>
      cases k with
      | alertConfig d' =>
        by_cases hd : d' = d
        · subst d'
          obtain ⟨e, he, hv, _⟩ := Expiring.get_eq_some_iff.mp h
          have hv' : some e = some ⟨v, _⟩ := he.symm.trans Expiring.set_self
          cases hv'
          exact .inr (by rw [fills, RedisCmd.fills, if_pos rfl]; exact congrArg some hv)
        · refine .inl ((Expiring.get_congr (Expiring.set_ne ?_)).symm.trans h)
          exact fun h => hd (RedisKey.alertConfig.inj h).symm
      | _ => exact .inl ((Expiring.get_congr (Expiring.set_ne (by nofun))).symm.trans h)
    | delete ks =>
      refine .inl ?_
      by_cases hk : RedisKey.alertConfig d ∈ ks
      · cases (Expiring.get_of_none (Expiring.delAll_of_mem hk)).symm.trans h
      · exact (Expiring.get_congr (Expiring.delAll_of_notMem hk)).symm.trans h
    | incr phone => exact .inl ((Expiring.get_congr (Expiring.set_ne (by nofun))).symm.trans h)
  | execute wr =>
    refine .inl ?_
    simp only [exec] at h
    split at h
    · exact h
    · split at h <;> exact h
  | attempt c ih =>
    cases x
    · exact ih .ok h
    · exact .inl h
    · exact ih .ok h
  | _ => exact .inl h

end Cmd

/-- The rows of the device's configuration that a job has read. -/
def configReads (d : Uuid) (log : Log) : List (Option DeviceConfig) :=
  log.filterMap fun
    | ⟨_, .select (.deviceConfig d'), row⟩ => if d' = d then some row else none
    | ⟨_, .attempt (.select (.deviceConfig d')), .ok row⟩ => if d' = d then some row else none
    | _ => none

/-- What the job puts, if it is a PUT for the device. -/
def putBody (d : Uuid) : Job → Option DeviceConfig
  | .http (.user _ (.putDeviceConfig d' body) _) => if d' = d then some body else none
  | _ => none

/-! ## What the two jobs do -/

/-- The statements of a PUT at its commit, with the row that it read. -/
inductive PutWrites (d : Uuid) (body : DeviceConfig) (log : Log) : List Write → Prop where
  | same (h : some body ∈ configReads d log) : PutWrites d body log []
  | insert (h : none ∈ configReads d log) : PutWrites d body log [.insertDeviceConfig d body]
  | update (row : DeviceConfig) (h : some row ∈ configReads d log) :
    PutWrites d body log [.updateDeviceConfig d (.between row body)]

/-- The loader could not read the row. -/
def ReadFailed (d : Uuid) (log : Log) : Prop :=
  ∃ e, ⟨_, .attempt (.select (.deviceConfig d)), .error e⟩ ∈ log

/-- The thresholds are those of a row that was read, or nothing was read. -/
def Loaded (d : Uuid) (log : Log) (θ : Thresholds) : Prop :=
  (∃ row, ⟨_, .attempt (.select (.deviceConfig d)), .ok row⟩ ∈ log ∧ θ = effectiveThresholds row) ∨
    ReadFailed d log

def ConfigAssertion (d : Uuid) (j : Job) : Assertion := fun log ws c =>
  match putBody d j with
  | some body => c.plain = true ∧ c.fills d = none ∧ (c.isCommit = true → PutWrites d body log ws)
  | none => ws = [] ∧ ∀ θ, c.fills d = some θ → Loaded d log θ

/-- What a load returns was cached, or loaded. -/
def LoadEnding (d : Uuid) : Ending Outcome := fun log _ r => ∀ θ, r = .ok (.thresholds θ) →
  ⟨_, .attempt (.redis (.get (.alertConfig d))), .ok (some θ)⟩ ∈ log ∨ Loaded d log θ

theorem configReads_mono (d : Uuid) {log log' : Log} (h : log <+: log') :
    configReads d log ⊆ configReads d log' := (h.filterMap _).subset

theorem mem_configReads_select {d : Uuid} {log : Log} {row : Option DeviceConfig}
    (h : ⟨_, .select (.deviceConfig d), row⟩ ∈ log) : row ∈ configReads d log :=
  List.mem_filterMap.mpr ⟨_, h, if_pos rfl⟩

theorem mem_configReads_attempt {d : Uuid} {log : Log} {row : Option DeviceConfig}
    (h : ⟨_, .attempt (.select (.deviceConfig d)), .ok row⟩ ∈ log) : row ∈ configReads d log :=
  List.mem_filterMap.mpr ⟨_, h, if_pos rfl⟩

theorem Loaded.mono {d : Uuid} {log log' : Log} (h : log <+: log') (H : Loaded d log θ) :
    Loaded d log' θ := by
  rcases H with ⟨row, hr, hθ⟩ | ⟨e, he⟩
  · exact .inl ⟨row, h.subset hr, hθ⟩
  · exact .inr ⟨e, h.subset he⟩

theorem PutWrites.mono {d : Uuid} {log log' : Log} (h : log <+: log')
    (H : PutWrites d body log ws) : PutWrites d body log' ws := by
  cases H with
  | same hr => exact .same (configReads_mono d h hr)
  | insert hr => exact .insert (configReads_mono d h hr)
  | update row hr => exact .update row (configReads_mono d h hr)

section
variable {E : Env} {d : Uuid} {log : Log}

theorem thresholdsFromDb_keeps {j : Job} (hj : putBody d j = none) :
    Keeps (ConfigAssertion d j) (fun log ws r => ws = [] ∧ ∀ θ, r = .ok θ → Loaded d log θ)
      log [] (thresholdsFromDb d) := by
  have hI {β : Type} {c : Cmd β} (log : Log) (hc : c.fills d = none) :
      ConfigAssertion d j log [] c := by
    rw [ConfigAssertion, hj]
    exact ⟨rfl, fun θ h => by rw [hc] at h; cases h⟩
  refine .quiet rfl (hI _ rfl) fun row => ?_
  cases row with
  | error e =>
    refine .quiet rfl (hI _ rfl) fun _ => .pure ⟨rfl, fun θ _ => .inr ⟨e, ?_⟩⟩
    simp
  | ok row =>
    have hrow (log' : Log) :
        Loaded d (log ++ [⟨_, .attempt (.select (.deviceConfig d)), .ok row⟩] ++
        log') (effectiveThresholds row) :=
      Loaded.mono (List.prefix_append ..) (.inl ⟨row, by simp, rfl⟩)
    refine .quiet rfl (hI _ rfl) fun r => ?_
    cases r with
    | ok => exact .pure ⟨rfl, fun θ hθ => Except.ok.inj hθ ▸ hrow _⟩
    | error e =>
      refine .quiet rfl (hI _ rfl) fun _ => .pure ⟨rfl, fun θ hθ => ?_⟩
      rw [List.append_assoc]
      exact Except.ok.inj hθ ▸ hrow _

theorem loadThresholds_keeps : Keeps (ConfigAssertion d (.loadThresholds d)) (LoadEnding d) [] []
    (Job.prog E (.loadThresholds d)) := by
  have hmiss {log : Log} : Keeps (ConfigAssertion d (.loadThresholds d)) (LoadEnding d) log []
      (((thresholdsFromDb d).bind fun θ => .cmd
        (.attempt (.redis (.setex (.alertConfig d) configCacheTtl θ))) fun _ => .pure θ).bind
        fun θ => .pure (.thresholds θ)) := by
    rw [Prog.bind_assoc]
    refine (thresholdsFromDb_keeps rfl).bind ?_ fun log ws e _ θ h => nomatch h
    intro log ws θ h
    obtain ⟨rfl, h⟩ := h
    have hθ : Loaded d log θ := h θ rfl
    refine .quiet rfl ⟨rfl, fun θ' hf => ?_⟩ fun _ => .pure fun θ' h => .inr ?_
    · simp only [Cmd.fills, RedisCmd.fills, if_true] at hf
      exact Option.some.inj hf ▸ hθ
    · cases h; exact hθ.mono (List.prefix_append ..)
  refine .quiet rfl ⟨rfl, nofun⟩ fun r => ?_
  cases r with
  | error e => exact hmiss
  | ok cached =>
    cases cached with
    | none => exact hmiss
    | some cached => exact .pure fun θ h => by cases h; exact .inl (by simp)

theorem ConfigAssertion.routine {j : Job} (hj : putBody d j = some body) :
    Assertion.Routine (ConfigAssertion d j) := by
  constructor <;> intros <;> rw [ConfigAssertion, hj] <;> exact ⟨rfl, rfl, nofun⟩

theorem PutWrites.leaves {ws : List Write} (h : PutWrites d body log ws) :
    Leaves (PutWrites d body) log ws (.ok (response, [])) :=
  .of_executed fun _ hl => h.mono hl.isPrefix

theorem putDeviceConfig_keeps {j : Job} {user : CurrentUser} {body : DeviceConfig}
    (hj : putBody d j = some body) :
    Keeps (ConfigAssertion d j) (Leaves (PutWrites d body)) log []
      (putDeviceConfig d body user []) := by
  have hI := ConfigAssertion.routine hj
  have hdelete {log ws response} (h : PutWrites d body log ws) {k : Unit → Prog Cmd Exn _}
      (hk : k () = .pure (response, [])) : Keeps (ConfigAssertion d j) (Leaves (PutWrites d body))
        log ws (.cmd (.redis (.delete [.alertConfig d])) k) := by
    refine .redis (by rw [ConfigAssertion, hj]; exact ⟨rfl, rfl, nofun⟩) fun _ => ?_
    rw [hk]
    exact .pure (h.mono (List.prefix_append ..)).leaves
  refine assertDeviceMember_keeps hI.reads (fun _ => Leaves.error) fun device link => ?_
  refine .select (hI.select ..) fun db => ?_
  generalize hrow : (Query.deviceConfig d).eval db = row
  have hread (log : Log) : row ∈ configReads d (log ++ [⟨_, .select (.deviceConfig d), row⟩]) :=
    mem_configReads_select (by simp)
  cases row with
  | none =>
    refine .execute (hI.execute ..) (fun e => .raise Leaves.error) (fun _ h => nomatch h) ?_
    exact hdelete (.mono (List.prefix_append ..) (.insert (hread _))) rfl
  | some cfg =>
    simp only [Prog.pure_bind, assignConfig]
    refine when_keeps (fun _ => ?_) fun h => ?_
    · refine .execute (hI.execute ..) (fun e => .raise Leaves.error) (fun _ h => nomatch h) ?_
      exact hdelete (.mono (List.prefix_append ..) (.update cfg (hread _))) rfl
    · obtain rfl : cfg = body := by
        rw [← DeviceConfigPatch.apply_between cfg body, not_not.mp h]; rfl
      exact hdelete (.same (hread _)) rfl

end

/-! ## Runs -/

/-- The row that the PUT read is still the stored one, at least in the columns that it leaves
out. -/
def stillStored (body : DeviceConfig) (stored : Option DeviceConfig) : Option DeviceConfig → Bool
  | some read => stored.any fun row => (DeviceConfigPatch.between read body).apply row = body
  | none => stored.isNone

/-- A PUT that commits finds the row that it read, and the cache empty or filled with what it
puts. -/
def putLands (d : Uuid) (body : DeviceConfig) (w : World) (log : Log) : Bool :=
  let cached : Option Thresholds := w.redis.get w.now (.alertConfig d)
  (configReads d log).all (stillStored body (w.db.deviceConfigs.get? d)) &&
    cached.all (· = effectiveThresholds (some body))

/-- A load that fills the cache read what is still effective. -/
def fillLands (d : Uuid) (w : World) (log : Log) : Bool :=
  (configReads d log).all fun row =>
    effectiveThresholds row = effectiveThresholds (w.db.deviceConfigs.get? d)

def aboutToFill (d : Uuid) {ε α : Type} : Prog Cmd ε α → Bool
  | .cmd c _ => (c.fills d).isSome
  | _ => false

def isConfigJob (d : Uuid) : Job → Bool
  | .loadThresholds d' => d' = d
  | j => (putBody d j).isSome

/-- PUTs and loads of one device, without failures. -/
def configSteps (d : Uuid) (holds : World → Thread Cmd Session Exn Job Outcome → Bool) (c : Pool) :
    Label Choice Job ℕ → Bool
  | .spawn j => isConfigJob d j
  | .env _ => true
  | .step i x => x = .ok && c.threads[i]?.all (holds c.state)

def landsWell (d : Uuid) (w : World) (t : Thread Cmd Session Exn Job Outcome) : Bool :=
  match putBody d t.req with
  | some body => !atCommit t.prog || putLands d body w t.log
  | none => !aboutToFill d t.prog || fillLands d w t.log

/-- The step is no commit of a PUT. -/
def noPutCommits (d : Uuid) (c : Pool) : Label Choice Job ℕ → Bool
  | .step i _ => c.threads[i]?.all fun t => !((putBody d t.req).isSome && atCommit t.prog)
  | _ => true

/-- A run in which a PUT commits `body`, and a load that starts after it and ends before the
next PUT commits returns `θ`. -/
inductive PutThenLoad (E : Env) (d : Uuid)
    (holds : World → Thread Cmd Session Exn Job Outcome → Bool) (w₀ : World) (body : DeviceConfig)
    (θ : Thresholds) : Prop where
  | intro {c c₁ c₂ : Pool} {i j : ℕ} {t t' : Thread Cmd Session Exn Job Outcome}
    (before : (backend E).Run (fun c l => configSteps d holds c l = true) ⟨w₀, []⟩ c)
    (put : c.threads[i]? = some t) (puts : putBody d t.req = some body)
    (commits : atCommit t.prog = true) (ok : configSteps d holds c (.step i .ok) = true)
    (step : (backend E).Step c (.step i .ok) c₁)
    (after : (backend E).Run (fun c l => (configSteps d holds c l && noPutCommits d c l) =
      true) c₁ c₂)
    (new : c₁.threads.length ≤ j) (load : c₂.threads[j]? = some t')
    (loads : t'.req = .loadThresholds d) (returns : t'.prog = .pure (.thresholds θ))

section
variable {E : Env} {d : Uuid}

theorem isConfigJob_keeps {j : Job} (hj : isConfigJob d j = true) :
    Keeps (ConfigAssertion d j) (fun log ws r => putBody d j = none → LoadEnding d log ws r) [] []
      (j.prog E) := by
  cases j with
  | loadThresholds d' =>
    obtain rfl : d' = d := by simpa [isConfigJob] using hj
    exact loadThresholds_keeps.mono fun _ _ _ h _ => h
  | http r =>
    cases r with
    | user credentials route draws =>
      cases route with
      | putDeviceConfig d' body =>
        obtain rfl : d' = d := by
          by_contra h
          simp [isConfigJob, putBody, h] at hj
        have hb : putBody d' (.http (.user credentials (.putDeviceConfig d' body) draws)) =
            some body :=
          if_pos rfl
        refine (Request.keeps_of_routine (ConfigAssertion.routine hb) (fun log ws h => ?_)
          fun _ _ _ _ _ _ => putDeviceConfig_keeps hb).mono fun _ _ _ _ h => ?_
        · rw [ConfigAssertion, hb]
          exact ⟨rfl, rfl, fun _ => h⟩
        · cases hb.symm.trans h
      | _ => cases hj
    | auth => cases hj
  | _ => cases hj

theorem PutWrites.view {body : DeviceConfig} {log : Log} {ws : List Write} {w : World}
    (h : PutWrites d body log ws) (hg : putLands d body w log = true) :
    (ws.foldl (fun db wr => wr.apply db) w.db).deviceConfigs.get? d = some body := by
  have hall := List.all_eq_true.mp (Bool.and_eq_true_iff.mp hg).1
  cases h with
  | same hr =>
    obtain ⟨row, hrow, happly⟩ := (Option.any_eq_true _ _).mp (hall _ hr)
    have hbody : (DeviceConfigPatch.between body body).apply row = row := by
      simp [DeviceConfigPatch.between, changed, DeviceConfigPatch.apply]
    rw [hbody] at happly
    exact hrow.trans (congrArg some (of_decide_eq_true happly))
  | insert hr =>
    refine Table.get?_insert_self ?_ body
    rw [Table.contains, Option.isNone_iff_eq_none.mp (hall _ hr)]
    rfl
  | update read hr =>
    obtain ⟨row, hrow, happly⟩ := (Option.any_eq_true _ _).mp (hall _ hr)
    refine (Table.get?_update_self ..).trans ?_
    rw [hrow]
    exact congrArg some (of_decide_eq_true happly)

/-- An answer that agrees with what was put. -/
def Answers (d : Uuid) (body : DeviceConfig) : Event Cmd → Prop
  | ⟨_, .attempt (.redis (.get (.alertConfig d'))), a⟩ =>
    d' = d → ∀ θ, a = .ok (some θ) → θ = effectiveThresholds (some body)
  | ⟨_, .attempt (.select (.deviceConfig d')), a⟩ => d' = d → a = .ok (some body)
  | _ => True

/-- After the commit of a PUT, with `n` jobs in flight: what was put is stored, nothing else is
cached, and the jobs that start later see nothing else. -/
structure Serves (d : Uuid) (body : DeviceConfig) (n : ℕ) (c : Pool) : Prop where
  stored : c.state.db.deviceConfigs.get? d = some body
  cached : ∀ θ, c.state.redis.get c.state.now (.alertConfig d) = some θ →
    θ = effectiveThresholds (some body)
  answers : ∀ (j : ℕ) t, n ≤ j → c.threads[j]? = some t → ∀ e ∈ t.log, Answers d body e

/-- Without failures every attempt has an answer. -/
theorem run_attempt_ok {holds : World → Thread Cmd Session Exn Job Outcome → Bool} {w₀ : World}
    (H : (backend E).Run (fun c l => configSteps d holds c l = true) ⟨w₀, []⟩ c)
    (ht : t ∈ c.threads) {cm : Cmd β} (he : ⟨_, .attempt cm, a⟩ ∈ t.log) : ∃ b, a = .ok b := by
  induction H generalizing t with
  | refl => exact absurd ht List.not_mem_nil
  | @step c l c' H hok hs ih =>
    obtain ⟨j, hj⟩ := List.getElem?_of_mem ht
    obtain ⟨t', hold, he | ⟨x, rfl, γ, cm', k, hp, he⟩⟩ := step_log hs hj he
    · exact ih (List.mem_of_getElem? hold) he
    · obtain rfl : x = .ok := by
        simp only [configSteps, Bool.and_eq_true] at hok
        exact of_decide_eq_true hok.1
      generalize hans : (cm'.exec .ok t'.sess c.state).1 = b at he
      cases he
      exact ⟨_, hans.symm⟩

namespace Serves

variable {body : DeviceConfig} {n : ℕ} {c c' : Pool} {l : Label Choice Job ℕ}

/-- An answer that a job gets while what was put is served. -/
theorem answer (hc : Serves d body n c) {t : Thread Cmd Session Exn Job Outcome} {cm : Cmd β}
    (hI : ConfigAssertion d t.req t.log t.sess.written cm) :
    Answers d body ⟨β, cm, (cm.exec .ok t.sess c.state).1⟩ := by
  cases cm with
  | attempt cm =>
    have hnil : t.sess.written = [] := by
      rw [ConfigAssertion] at hI
      cases hb : putBody d t.req with
      | none => rw [hb] at hI; exact hI.1
      | some body => rw [hb] at hI; cases hI.1
    cases cm with
    | redis cm =>
      cases cm with
      | get k =>
        cases k with
        | alertConfig d' =>
          intro hd θ hθ
          subst hd
          exact hc.cached θ (Except.ok.inj hθ)
        | _ => trivial
      | _ => trivial
    | select q =>
      cases q with
      | deviceConfig d' =>
        intro hd
        subst hd
        have hview : t.sess.view c.state.db = c.state.db := by rw [Session.view, hnil]; rfl
        show Except.ok ((t.sess.view c.state.db).deviceConfigs.get? d') = _
        rw [hview, hc.stored]
      | _ => trivial
    | _ => trivial
  | _ => trivial

theorem step (hc : Serves d body n c)
    (hI : ∀ t ∈ c.threads, ∀ {β} {cm : Cmd β} {k}, t.prog = .cmd cm k →
      ConfigAssertion d t.req t.log t.sess.written cm)
    (hread : ∀ t ∈ c.threads, ¬ ReadFailed d t.log)
    (hok : configSteps d (landsWell d) c l = true) (hno : noPutCommits d c l = true)
    (hs : (backend E).Step c l c') : Serves d body n c' where
  stored := by
    rcases step_db_cases hs with hdb | ⟨i, x, t, rfl, hi, β, cm, k, hp, hcommit, hdb⟩
    · exact hdb ▸ hc.stored
    · have hnone : putBody d t.req = none := by
        simpa [noPutCommits, hi, hp, atCommit, hcommit] using hno
      have h := hI t (List.mem_of_getElem? hi) hp
      rw [ConfigAssertion, hnone] at h
      rw [hdb, Session.view, h.1]
      exact hc.stored
  cached := by
    intro θ hθ
    cases hs with
    | spawn => exact hc.cached θ hθ
    | env dt => exact hc.cached θ (Expiring.get_of_le (by simp [World.tick, backend]) hθ)
    | @step ts i s β cm k t x hi hp hb =>
      rw [show ((backend E).exec x cm t.sess s).2.2.now = s.now from Cmd.exec_now ..] at hθ
      rcases cm.exec_cache x t.sess s hθ with h | h
      · exact hc.cached θ h
      · have hI := hI t (List.mem_of_getElem? hi) hp
        rw [ConfigAssertion] at hI
        cases hb : putBody d t.req with
        | some body =>
          rw [hb] at hI
          cases hI.2.1.symm.trans h
        | none =>
          rw [hb] at hI
          obtain ⟨row, hr, rfl⟩ := (hI.2 θ h).resolve_right (hread t (List.mem_of_getElem? hi))
          have hfill : fillLands d s t.log = true := by
            simpa [configSteps, hi, landsWell, hb, hp, aboutToFill,
              h] using (Bool.and_eq_true_iff.mp hok).2
          rw [of_decide_eq_true (List.all_eq_true.mp hfill row (mem_configReads_attempt hr))]
          exact congrArg effectiveThresholds hc.stored
  answers j t' hn hj e he := by
    obtain ⟨t, hold, he | ⟨x, rfl, β, cm, k, hp, rfl⟩⟩ := step_log hs hj he
    · exact hc.answers j t hn hold e he
    · obtain rfl : x = .ok := of_decide_eq_true (Bool.and_eq_true_iff.mp hok).1
      exact hc.answer (hI t (List.mem_of_getElem? hold) hp)

end Serves

theorem Serves.start {body : DeviceConfig} {c c' : Pool} {i : ℕ}
    {t : Thread Cmd Session Exn Job Outcome} (hi : c.threads[i]? = some t)
    (hb : putBody d t.req = some body) (hcommit : atCommit t.prog = true)
    (hI : ∀ {β} {cm : Cmd β} {k}, t.prog = .cmd cm k →
      ConfigAssertion d t.req t.log t.sess.written cm)
    (hok : configSteps d (landsWell d) c (.step i x) = true)
    (hs : (backend E).Step c (.step i x) c') : Serves d body c'.threads.length c' := by
  cases hs with
  | @step ts _ s β cm k t' x hi' hp _ =>
    cases hi.symm.trans hi'
    have hI := hI hp
    rw [ConfigAssertion, hb] at hI
    have hc : cm.isCommit = true := by rwa [hp] at hcommit
    have hland : putLands d body s t.log = true := by
      simpa [configSteps, hi, landsWell, hb, hcommit] using (Bool.and_eq_true_iff.mp hok).2
    have hexec := Cmd.exec_of_commit hI.1 hc x t.sess s
    have hst : ((backend E).exec x cm t.sess s).2.2 = { s with db := t.sess.view s.db } :=
      congrArg Prod.snd hexec
    refine ⟨?_, ?_, fun j t hn hj => ?_⟩
    · show ((backend E).exec x cm t.sess s).2.2.db.deviceConfigs.get? d = some body
      rw [hst]
      exact (hI.2.2 hc).view hland
    · show ∀ θ, ((backend E).exec x cm t.sess s).2.2.redis.get _ (.alertConfig d) = some θ → _
      rw [hst]
      intro θ hθ
      have hall := (Bool.and_eq_true_iff.mp hland).2
      exact of_decide_eq_true ((Option.all_eq_true _ _).mp hall θ hθ)
    · exact absurd (List.getElem?_eq_some_iff.mp hj).1 (Nat.not_lt.mpr hn)

/-- **A load after a PUT returns what was put.** A PUT commits, a load starts after it, and until
the load ends no PUT commits. If every commit of a PUT finds the row that it read and no other
thresholds in the cache, and every filling of the cache finds its row still effective, the load
returns the thresholds of the PUT. -/
theorem load_after_put {body : DeviceConfig} {w₀ : World}
    (h : PutThenLoad E d (landsWell d) w₀ body θ) : θ = effectiveThresholds (some body) := by
  obtain @⟨c, c₁, c₂, i, j, t, t', H, hi, hb, hcommit, hok, hs, H', hnew, hj, hload, hend⟩ := h
  have hI {c} (H : (backend E).Run (fun c l => configSteps d (landsWell d) c l = true) ⟨w₀, []⟩ c) :
      ∀ t ∈ c.threads, ∀ {β} {cm : Cmd β} {k}, t.prog = .cmd cm k →
        ConfigAssertion d t.req t.log t.sess.written cm :=
    fun t ht _ _ _ hp => run_keeps H (I := ConfigAssertion d) (fun _ _ hj =>
      (isConfigJob_keeps hj).mono fun _ _ _ _ => trivial) ht hp
  have hread {c} (H : (backend E).Run (fun c l => configSteps d (landsWell d) c l = true)
      ⟨w₀, []⟩ c) : ∀ t ∈ c.threads, ¬ ReadFailed d t.log := by
    intro t ht hfail
    obtain ⟨e, he⟩ := hfail
    obtain ⟨_, hb⟩ := run_attempt_ok H ht he
    cases hb
  have hsplit {c l} (h : (configSteps d (landsWell d) c l && noPutCommits d c l) = true) :
      configSteps d (landsWell d) c l = true ∧ noPutCommits d c l = true :=
    Bool.and_eq_true_iff.mp h
  have H₁ := H.step hok hs
  have hserves : Serves d body c₁.threads.length c₂ := by
    clear hj hnew
    induction H' with
    | refl => exact .start hi hb hcommit (hI H _ (List.mem_of_getElem? hi)) hok hs
    | step H₂ hok hs ih =>
      have H₂ := H₁.trans (H₂.mono fun _ _ h => (hsplit h).1)
      exact ih.step (hI H₂) (hread H₂) (hsplit hok).1 (hsplit hok).2 hs
  have H₂ := H₁.trans (H'.mono fun _ _ h => (hsplit h).1)
  have ht := List.mem_of_getElem? hj
  have hQ := run_ends H₂ (I := ConfigAssertion d) (Q := fun j log ws r =>
    putBody d j = none → LoadEnding d log ws r) (fun _ _ hj => isConfigJob_keeps hj) ht hend
    (by rw [hload]; rfl)
  have hans := hserves.answers _ _ hnew hj
  rcases hQ θ rfl with h | ⟨row, hr, rfl⟩ | h
  · exact hans _ h rfl θ rfl
  · rw [Except.ok.inj (hans _ hr rfl)]
  · exact absurd h (hread H₂ _ ht)

end

/-! ## A load after a PUT, and one that was there before -/

/-- Alice raises the temperature limit of device 7 to 90. -/
def hotConfig : DeviceConfig := ⟨some 90, none, none, none, none, none, none⟩

def putHot : Job := Sample.request 1 (.putDeviceConfig 7 hotConfig) 0

def loadResult (t : Thread Cmd Session Exn Job Outcome) : Option Thresholds :=
  match t.req, t.prog with
  | .loadThresholds 7, .pure (.thresholds θ) => some θ
  | _, _ => none

theorem of_loadResult {t : Thread Cmd Session Exn Job Outcome} (h : loadResult t = some θ) :
    t.req = .loadThresholds 7 ∧ t.prog = .pure (.thresholds θ) := by
  simp only [loadResult] at h
  split at h
  · rename_i h₁ h₂
    cases h
    exact ⟨h₁, h₂⟩
  · cases h

/-- What a job returns in the end, if it is the PUT number `i` that commits in between and a load
number `j`. -/
def putThenLoad (holds : World → Thread Cmd Session Exn Job Outcome → Bool)
    (before : List (Label Choice Job ℕ)) (i : ℕ) (after : List (Label Choice Job ℕ)) (j : ℕ) :
    Option Thresholds :=
  let B := backend Sample.env
  (B.followIf (configSteps 7 holds) ⟨Sample.deviceWorld, []⟩ before).bind fun c =>
  (c.threads[i]?.filter fun t => putBody 7 t.req = some hotConfig && atCommit t.prog &&
    configSteps 7 holds c (.step i .ok)).bind fun _ =>
  (B.next c (.step i .ok)).bind fun c₁ =>
  (B.followIf (fun c l => configSteps 7 holds c l && noPutCommits 7 c l) c₁ after).bind fun c₂ =>
  if c₁.threads.length ≤ j then c₂.threads[j]?.bind loadResult else none

theorem of_putThenLoad {holds : World → Thread Cmd Session Exn Job Outcome → Bool}
    (h : putThenLoad holds before i after j = some θ) :
    PutThenLoad Sample.env 7 holds Sample.deviceWorld hotConfig θ := by
  simp only [putThenLoad, Option.bind_eq_some_iff, Option.filter_eq_some_iff,
    Bool.and_eq_true, decide_eq_true_eq] at h
  obtain ⟨c, hc, t, ⟨ht, ⟨hb, hcommit⟩, hok⟩, c₁, hc₁, c₂, hc₂, h⟩ := h
  split at h
  · obtain ⟨t', ht', hres⟩ := Option.bind_eq_some_iff.mp h
    obtain ⟨hreq, hprog⟩ := of_loadResult hres
    exact .intro (.of_followIf hc) ht hb hcommit hok (.of_next _ hc₁) (.of_followIf hc₂) ‹_› ht'
      hreq hprog
  · cases h

theorem putThenLoad_returns : ∃ θ, putThenLoad (landsWell 7) (.spawn putHot :: Sample.steps 0 8) 0
      (.spawn (.loadThresholds 7) :: Sample.steps 1 4) 1 = some θ ∧
    θ = effectiveThresholds (some hotConfig) := by
  have h : (putThenLoad (landsWell 7) (.spawn putHot :: Sample.steps 0 8) 0
      (.spawn (.loadThresholds 7) :: Sample.steps 1 4) 1).isSome = true := by decide +kernel
  obtain ⟨θ, hθ⟩ := Option.isSome_iff_exists.mp h
  exact ⟨θ, hθ, load_after_put (of_putThenLoad hθ)⟩

/-- A load that read the defaults before the PUT caches them after it; the next load returns
them. -/
theorem staleFill_returns_defaults : ¬ ∀ body θ, PutThenLoad Sample.env 7 (fun _ _ => true)
    Sample.deviceWorld body θ → θ = effectiveThresholds (some body) := by
  intro hevery
  have h : putThenLoad (fun _ _ => true) (.spawn (.loadThresholds 7) :: Sample.steps 0 3 ++
      .spawn putHot :: Sample.steps 1 8) 1 (Sample.steps 0 1 ++
        .spawn (.loadThresholds 7) :: Sample.steps 2 1) 2 = some alertThresholds := by
    decide +kernel
  have := hevery _ _ (of_putThenLoad h)
  revert this
  decide +kernel

end Rawbin
