import Rawbin.Verify.Sequential

/-!
# The cached thresholds when Redis or the database fails

The loader catches whatever a command raises and goes on. When it could not read the row it has
the global defaults in its hands, and caches these.
-/

namespace Rawbin

/-- PUTs and loads one after the other, and the passing of time. The choices of a load say which
of its commands fail. -/
inductive ConfigEvent where
  | put (credentials : String) (deviceId : Uuid) (body : DeviceConfigIn) (draws : Draws)
  | load (deviceId : Uuid) (choices : ℕ → Choice)
  | tick (dt : Nat)

def ConfigEvent.apply (E : Env) : ConfigEvent → World → World
  | .put credentials d body draws, w =>
    (serve E (.user credentials (.putDeviceConfig d body) draws) w).2
  | .load d x, w => (machine.run x (loadThresholds d) .idle w).2.2
  | .tick dt, w => w.tick dt

/-- What is cached for a device is what its row makes effective. -/
def Fresh (d : Uuid) (w : World) : Prop :=
  ∀ θ, w.redis.get w.now (.alertConfig d) = some θ →
    θ = effectiveThresholds (w.db.deviceConfigs.get? d)

/-- A load that cannot read the row (after a cache miss, or a cache read that failed) does not
fill the cache, or the defaults are what is effective. -/
def loadsSafely (d : Uuid) (w : World) : ConfigEvent → Bool
  | .load d' x =>
    d' ≠ d || (x 0 = .ok && (w.redis.get w.now (.alertConfig d)).isSome) || x 1 = .ok ||
      x 3 = .fault || effectiveThresholds (w.db.deviceConfigs.get? d) = alertThresholds
  | _ => true

section
variable {E : Env} {d : Uuid} {w : World}

theorem Fresh.tick (h : Fresh d w) (dt : Nat) : Fresh d (w.tick dt) :=
  fun θ hθ => h θ (Expiring.get_of_le (by simp [World.tick]) hθ)

theorem Fresh.of_missing (h : w.redis (.alertConfig d) = none) : Fresh d w := by
  intro θ hθ
  cases (Expiring.get_of_none h).symm.trans hθ

/-- What the loader has in its hands when it goes on to fill the cache, after `n` commands. -/
theorem thresholdsFromDb_run (d : Uuid) (x : ℕ → Choice) (f : Thresholds → Prog Cmd Exn α)
    {t : Session} (ht : t.written = []) (w : World) : ∃ n t' θ,
      machine.run x ((thresholdsFromDb d).bind f) t w =
        machine.run (fun m => x (m + n)) (f θ) t' w ∧
      (θ = effectiveThresholds (w.db.deviceConfigs.get? d) ∨
        θ = alertThresholds ∧ x 0 ≠ .ok ∧ n = 2) := by
  have hcom : (Cmd.commit.exec .ok (t.begin w.now) w).2.2 = w := by
    show ({ w with db := t.view w.db } : World) = w
    rw [Session.view_of_nil ht]
  have hsel : (Cmd.select (.deviceConfig d)).exec .ok t w =
      (w.db.deviceConfigs.get? d, t.begin w.now, w) := by
    rw [Cmd.exec, Session.view_of_nil ht]
    rfl
  rw [thresholdsFromDb, Prog.cmd_bind, run_attempt]
  cases h0 : x 0 with
  | ok =>
    simp only [hsel, Prog.cmd_bind, run_attempt]
    cases x 1 with
    | ok => exact ⟨2, _, _, congrArg _ hcom, .inl rfl⟩
    | fault => cases x 2 <;> exact ⟨3, _, _, rfl, .inl rfl⟩
    | lost => cases x 2 <;> exact ⟨3, _, _, congrArg _ hcom, .inl rfl⟩
  | fault =>
    simp only [Prog.cmd_bind, run_attempt]
    cases x 1 <;> exact ⟨2, _, _, rfl, .inr ⟨rfl, by simp, rfl⟩⟩
  | lost =>
    simp only [Prog.cmd_bind, run_attempt]
    cases x 1 <;> exact ⟨2, _, _, rfl, .inr ⟨rfl, by simp, rfl⟩⟩

/-- Filling the cache, unless that fails. -/
theorem fill_run (d : Uuid) (x : ℕ → Choice) (θ : Thresholds) (t : Session) (w : World) :
    (machine.run x (.cmd (.attempt (.redis (.setex (.alertConfig d) configCacheTtl θ))) fun _ =>
      (.pure θ : Prog Cmd Exn Thresholds)) t w).2.2 =
      if x 0 = .fault then w else
        { w with
          redis := w.redis.set (.alertConfig d) θ (some (w.now + seconds configCacheTtl)) } := by
  rw [run_attempt]
  cases x 0 <;> rfl

/-- The world after a load. -/
theorem load_cases (d : Uuid) (x : ℕ → Choice) (w : World) :
    (machine.run x (loadThresholds d) .idle w).2.2 = w ∨
    ∃ θ, (machine.run x (loadThresholds d) .idle w).2.2 =
        { w with redis := w.redis.set (.alertConfig d) θ (some (w.now + seconds configCacheTtl)) } ∧
      (θ = effectiveThresholds (w.db.deviceConfigs.get? d) ∨
        θ = alertThresholds ∧ x 1 ≠ .ok ∧ x 3 ≠ .fault ∧
          ¬ (x 0 = .ok ∧ (w.redis.get w.now (.alertConfig d)).isSome = true)) := by
  have hmiss {t : Session} (ht : t.written = [])
      (hcache : ¬ (x 0 = .ok ∧ (w.redis.get w.now (.alertConfig d)).isSome = true))
      {w' : World} (hrun : w' = (machine.run
        (fun n => x (n + 1)) ((thresholdsFromDb d).bind fun θ =>
        .cmd (.attempt (.redis (.setex (.alertConfig d) configCacheTtl θ))) fun _ =>
          (.pure θ : Prog Cmd Exn Thresholds)) t w).2.2) :
      w' = w ∨ ∃ θ, w' =
        { w with redis := w.redis.set (.alertConfig d) θ (some (w.now + seconds configCacheTtl)) } ∧
      (θ = effectiveThresholds (w.db.deviceConfigs.get? d) ∨
        θ = alertThresholds ∧ x 1 ≠ .ok ∧ x 3 ≠ .fault ∧
          ¬ (x 0 = .ok ∧ (w.redis.get w.now (.alertConfig d)).isSome = true)) := by
    obtain ⟨n, t', θ, hn, hθ⟩ := thresholdsFromDb_run d (fun n => x (n + 1)) _ ht w
    rw [hn, fill_run] at hrun
    split at hrun
    · exact .inl hrun
    · rename_i hfill
      refine .inr ⟨θ, hrun, hθ.imp_right fun h => ?_⟩
      obtain ⟨halert, hx, rfl⟩ := h
      exact ⟨halert, hx, hfill, hcache⟩
  rw [loadThresholds, run_attempt]
  cases h0 : x 0 with
  | ok =>
    have hexec : (Cmd.redis (.get (.alertConfig d))).exec .ok .idle w =
        (w.redis.get w.now (.alertConfig d), .idle, w) := rfl
    rw [h0] at hmiss
    rw [hexec]
    cases hget : w.redis.get w.now (.alertConfig d) with
    | some cached => exact .inl rfl
    | none =>
      rw [hget] at hmiss
      exact hmiss (t := .idle) rfl (fun h => absurd h.2 Bool.false_ne_true) rfl
  | fault | lost =>
    rw [h0] at hmiss
    exact hmiss (t := .idle) rfl (by simp) rfl

theorem Fresh.load (h : Fresh d w) {d' : Uuid} {x : ℕ → Choice}
    (hx : loadsSafely d w (.load d' x) = true) :
    Fresh d ((ConfigEvent.load d' x).apply E w) := by
  rw [ConfigEvent.apply]
  rcases load_cases d' x w with hw | ⟨θ, hw, hθ⟩
  · rw [hw]; exact h
  · rw [hw]
    intro θ' hget
    by_cases hd : d = d'
    · subst d'
      obtain ⟨e, he, hv, _⟩ := Expiring.get_eq_some_iff.mp hget
      have hv' : θ' = θ := by
        cases Expiring.set_self.symm.trans he
        exact hv.symm
      rw [hv']
      rcases hθ with hθ | ⟨hθ, h1, h3, h0⟩
      · exact hθ
      · simp [loadsSafely, h1, h3] at hx
        rcases hx with hx | hx
        · exact absurd hx h0
        · exact hθ.trans hx.symm
    · have hne : RedisKey.alertConfig d ≠ .alertConfig d' :=
        fun h => hd (RedisKey.alertConfig.inj h)
      exact h θ' ((Expiring.get_congr (Expiring.set_ne hne)).symm.trans hget)

/-- The row of one device changes, and what is cached for it is dropped. -/
theorem Fresh.invalidate (h : Fresh d w) {d' : Uuid} {db' : Db}
    (hdb : d' ≠ d → db'.deviceConfigs.get? d = w.db.deviceConfigs.get? d) :
    Fresh d { w with db := db', redis := w.redis.delAll [.alertConfig d'] } := by
  by_cases hd : d' = d
  · subst d'
    exact .of_missing (Expiring.delAll_of_mem (List.mem_singleton_self _))
  · intro θ hθ
    have hne : RedisKey.alertConfig d ∉ [.alertConfig d'] := fun h =>
      hd (RedisKey.alertConfig.inj (List.mem_singleton.mp h)).symm
    refine (h θ ((Expiring.get_congr (Expiring.delAll_of_notMem hne)).symm.trans hθ)).trans ?_
    exact congrArg effectiveThresholds (hdb hd).symm

theorem Fresh.put (h : Fresh d w) (credentials : String) (d' : Uuid) (body : DeviceConfigIn)
    (draws : Draws) : Fresh d ((ConfigEvent.put credentials d' body draws).apply E w) := by
  refine serve_ends (P := fun _ w' => Fresh d w') ?_
  refine getCurrentUser_ends rfl (fun _ _ => h) fun t u user ht _ => ?_
  refine assertDeviceMember_ends ht (fun _ _ => h) fun t device ht _ => ?_
  refine select_ends ht fun t ht => ?_
  have hflush (pending : List Write) (hp : ∀ db, Write.flushed pending w.db = .ok db → d' ≠ d →
      db.deviceConfigs.get? d = w.db.deviceConfigs.get? d) (response : Response) :
      Ends (Served fun _ w' => Fresh d w') t w ((do
          Handler.flush
          Handler.redis (.delete [.alertConfig d'])
          pure response : Handler Response) pending) := by
    refine flush_ends (fun t' hf => ?_) fun _ _ _ => h
    rw [Session.view_of_nil ht] at hf
    exact redis_ends (h.invalidate (hp _ hf))
  have heval : (Query.deviceConfig d').eval w.db = w.db.deviceConfigs.get? d' := rfl
  rw [heval]
  cases w.db.deviceConfigs.get? d' with
  | none =>
    refine hflush [_] (fun db hf hd => ?_) _
    rw [(Write.of_flushed_one hf).2]
    exact Table.get?_insert_ne (Ne.symm hd) body
  | some cfg =>
    refine when_ends (fun _ => hflush [_] (fun db hf hd => ?_) _) fun _ => hflush []
      (fun db hf _ => ?_) _
    · rw [(Write.of_flushed_one hf).2]
      exact Table.get?_update_ne (Ne.symm hd) _
    · cases hf
      rfl

/-- **The cache holds what is effective.** In a run of PUTs and loads one after the other, with
failures in any load that it gets over safely, what is cached for a device is what its row makes
effective. -/
theorem cache_fresh {w₀ : World} (h₀ : Fresh d w₀)
    (H : Reach (ConfigEvent.apply E) (fun w e => loadsSafely d w e = true) w₀ w) : Fresh d w := by
  refine H.invariant h₀ fun w e h hok => ?_
  cases e with
  | put credentials d' body draws => exact h.put credentials d' body draws
  | load d' x => exact h.load hok
  | tick dt => exact h.tick dt

end

/-! ## A failure that is harmless, and one that is not -/

/-- Alice raises the temperature limit of device 7 to 90. -/
def raiseLimit : ConfigEvent :=
  .put (Sample.jwtEncode ⟨1, .access, 0, 0, 0⟩) 7 ⟨some 90, none, none, none, none, none, none⟩
    (Sample.draws 0)

/-- A load whose second command, the SELECT, fails. -/
def failingLoad : ConfigEvent := .load 7 fun n => if n = 1 then .fault else .ok

theorem deviceWorld_fresh : Fresh 7 Sample.deviceWorld := .of_missing rfl

/-- The failure does no harm while the cache still holds the row. -/
theorem cachedLoad_fresh : ∃ w, Reach.follow (ConfigEvent.apply Sample.env) (loadsSafely 7)
      Sample.deviceWorld [raiseLimit, .load 7 fun _ => .ok, failingLoad] = some w ∧
    (w.redis.get w.now (.alertConfig 7)).isSome = true ∧ Fresh 7 w := by
  have h : (Reach.follow (ConfigEvent.apply Sample.env) (loadsSafely 7) Sample.deviceWorld
      [raiseLimit, .load 7 fun _ => .ok, failingLoad]).any
        (fun w => (w.redis.get w.now (.alertConfig 7)).isSome) = true := by decide +kernel
  obtain ⟨w, hw, h⟩ := (Option.any_eq_true _ _).mp h
  exact ⟨w, hw, h, cache_fresh deviceWorld_fresh (.of_follow .refl hw)⟩

theorem failingLoad_not_fresh : ¬ ∀ w, Reach (ConfigEvent.apply Sample.env) (fun _ _ => True)
    Sample.deviceWorld w → Fresh 7 w := by
  intro hevery
  have h := hevery _ ((Reach.refl.step (e := raiseLimit) trivial).step (e := failingLoad) trivial)
  have hcached : ((((failingLoad.apply Sample.env
      (raiseLimit.apply Sample.env Sample.deviceWorld)).redis.get
    (failingLoad.apply Sample.env (raiseLimit.apply Sample.env Sample.deviceWorld)).now
      (.alertConfig 7) : Option Thresholds)) = some alertThresholds) := by decide +kernel
  have := h _ hcached
  revert this
  decide +kernel

end Rawbin
