import Rawbin.Verify.ThresholdFaults
import Rawbin.Workers.ThresholdDict

/-!
# One meaning of the thresholds

The loop of the worker, the JSON that it caches and the resolvers of the two routes all come to the
effective thresholds of the row.
-/

namespace Rawbin

/-! ## Resolvers -/

theorem evaluateDict_dict (t : Thresholds) (a : AlertCheck) :
    evaluateDict t.dict a = some (evaluate t a) := rfl

/-- A turn of the loop over an entry that is there. -/
theorem overrideLoop_cons {d : Dict} {key : String} (old : ℚ) (h : d.set key old = d)
    (v : Option ℚ) (items : List (String × Option ℚ)) :
    overrideLoop ((key, v) :: items) d = overrideLoop items (d.set key (v.getD old)) := by
  cases v with
  | none => exact congrArg (overrideLoop items) h.symm
  | some x => rfl

/-- Every column that is set overwrites the default of its own name. -/
theorem overrideLoop_dict (row : DeviceConfig) (t : Thresholds) :
    overrideLoop (overrides row) t.dict = (overrideThresholds row t).dict := by
  rw [overrides, overrideLoop_cons t.temperatureCMax rfl, overrideLoop_cons t.temperatureCMin rfl,
    overrideLoop_cons t.co2PpmMax rfl, overrideLoop_cons t.humidityPctMin rfl,
    overrideLoop_cons t.humidityPctMax rfl, overrideLoop_cons t.phMin rfl,
    overrideLoop_cons t.phMax rfl]
  rfl

theorem loadedDict_eq (row : Option DeviceConfig) :
    loadedDict row = (effectiveThresholds row).dict := by
  cases row with
  | none => rfl
  | some row => exact overrideLoop_dict row alertThresholds

/-- A column that is set, or the default of its own name. -/
theorem putResolve_eq {cfg : DeviceConfig} {name : String} {v : Option ℚ} {default : ℚ}
    (hattr : getattr cfg name = some v) (hdefault : alertThresholdsDict.get? name = some default) :
    putResolve cfg name name = some (v.getD default) := by
  rw [putResolve, hattr]
  cases v with
  | none => exact hdefault
  | some x => rfl

theorem putConfigOut_eq (cfg : DeviceConfig) :
    putConfigOut cfg = some (effectiveThresholds (some cfg)) := by
  rw [putConfigOut, putResolve_eq rfl rfl, putResolve_eq rfl rfl, putResolve_eq rfl rfl,
    putResolve_eq rfl rfl, putResolve_eq rfl rfl, putResolve_eq rfl rfl, putResolve_eq rfl rfl]
  rfl

theorem getConfigOut_eq (cfg : Option DeviceConfig) :
    getConfigOut cfg = some (effectiveThresholds cfg) := by
  cases cfg with
  | none => rfl
  | some cfg => exact putConfigOut_eq cfg

/-! ## Loads and requests -/

section
variable {E : Env} {w : World} {credentials : String} {u d : Uuid} {user : User} {device : Device}
variable {draws : Draws} {θ : Thresholds}

theorem loadThresholds_hit (h : w.redis.get w.now (.alertConfig d) = some θ) :
    machine.runConst .ok (loadThresholds d) .idle w = (.ok θ, .idle, w) := by
  have hexec : (Cmd.redis (.get (.alertConfig d))).exec .ok .idle w = (some θ, .idle, w) := by
    rw [← h]
    rfl
  rw [Machine.runConst, loadThresholds, run_attempt]
  simp only [hexec]
  rfl

theorem loadThresholds_miss (h : w.redis.get w.now (.alertConfig d) = none) :
    let θ := effectiveThresholds (w.db.deviceConfigs.get? d)
    machine.runConst .ok (loadThresholds d) .idle w = (.ok θ, .idle,
      { w with
        redis := w.redis.set (.alertConfig d) θ (some (w.now + seconds configCacheTtl)) }) := by
  have hexec : (Cmd.redis (.get (.alertConfig d))).exec .ok .idle w = (none, .idle, w) := by
    rw [← h]
    rfl
  rw [Machine.runConst, loadThresholds, run_attempt]
  simp only [hexec]
  rfl

/-- What a load caches is found until its deadline. -/
theorem loadThresholds_cached {dt : ℕ} (hdt : dt < seconds configCacheTtl) :
    let w' := { w with
      redis := w.redis.set (.alertConfig d) θ (some (w.now + seconds configCacheTtl)) }
    machine.runConst .ok (loadThresholds d) .idle (w'.tick dt) = (.ok θ, .idle, w'.tick dt) := by
  intro w'
  have hentry : (w'.tick dt).redis (.alertConfig d) =
      some ⟨θ, some (w.now + seconds configCacheTtl)⟩ := Expiring.set_self
  have hget : (w'.tick dt).redis.get (w'.tick dt).now (.alertConfig d) = some θ := by
    refine Expiring.get_eq_some_iff.mpr ⟨_, hentry, rfl, fun deadline hd => ?_⟩
    cases hd
    exact Int.add_lt_add_left hdt w.now
  exact loadThresholds_hit hget

theorem getDeviceConfig_serve (hu : Authenticated E credentials u user w)
    (hm : DeviceMember d u device w) :
    let row := w.db.deviceConfigs.get? d
    serve E (.user credentials (.getDeviceConfig d) draws) w =
      (⟨200, .config ⟨d, effectiveThresholds row, row.isSome⟩, []⟩, w) := by
  refine Prod.ext_iff.mpr (serve_ends (P := fun response w' => response = _ ∧ w' = w) ?_)
  refine getCurrentUser_ends rfl (fun t hnone => (hnone u user hu).elim) fun t u' user' ht hu' => ?_
  obtain ⟨rfl, rfl⟩ := hu.unique hu'
  refine assertDeviceMember_ends ht (fun t hnone => (hnone device hm).elim) fun t _ ht _ => ?_
  exact select_ends ht fun t ht => ⟨rfl, World.settle_nil ht⟩

/-- What a PUT by a member leaves. -/
structure PutConfig (d : Uuid) (body : DeviceConfig) (w w' : World) : Prop where
  row : w'.db.deviceConfigs.get? d = some body
  others : ∀ d' ≠ d, w'.db.deviceConfigs.get? d' = w.db.deviceConfigs.get? d'
  db : w'.db = { w.db with deviceConfigs := w'.db.deviceConfigs }
  redis : w'.redis = w.redis.delAll [.alertConfig d]
  now : w'.now = w.now

/-- The flush of what a PUT writes, and the deletion of the cached entry. -/
theorem flushConfig_ends {t : Session} {pending : List Write} {db : Db} {body : DeviceConfig}
    (ht : t.written = []) (hp : Write.flushed pending w.db = .ok db)
    (hrow : db.deviceConfigs.get? d = some body)
    (hothers : ∀ d' ≠ d, db.deviceConfigs.get? d' = w.db.deviceConfigs.get? d')
    (hdb : db = { w.db with deviceConfigs := db.deviceConfigs }) (response : Response) :
    Ends (Served fun response' w' => response' = response ∧ PutConfig d body w w') t w ((do
        Handler.flush
        Handler.redis (.delete [.alertConfig d])
        pure response : Handler Response) pending) := by
  refine flush_ends (fun t' hf => ?_) fun t' e hf => ?_
  · rw [Session.view_of_nil ht, hp] at hf
    have hview : db = t'.view w.db := Except.ok.inj hf
    refine redis_ends ⟨rfl, ?_⟩
    show PutConfig d body w { w with db := t'.view w.db, redis := w.redis.delAll [.alertConfig d] }
    rw [← hview]
    exact ⟨hrow, hothers, hdb, rfl, rfl⟩
  · rw [Session.view_of_nil ht, hp] at hf
    cases hf

theorem putDeviceConfig_serve (hu : Authenticated E credentials u user w)
    (hm : DeviceMember d u device w) (body : DeviceConfigIn) (draws : Draws) :
    (serve E (.user credentials (.putDeviceConfig d body) draws) w).1 =
      ⟨200, .config ⟨d, effectiveThresholds (some body), true⟩, []⟩ ∧
    PutConfig d body w (serve E (.user credentials (.putDeviceConfig d body) draws) w).2 := by
  refine serve_ends (P := fun response w' => response = _ ∧ PutConfig d body w w') ?_
  refine getCurrentUser_ends rfl (fun t hnone => (hnone u user hu).elim) fun t u' user' ht hu' => ?_
  obtain ⟨rfl, rfl⟩ := hu.unique hu'
  refine assertDeviceMember_ends ht (fun t hnone => (hnone device hm).elim) fun t _ ht _ => ?_
  refine select_ends ht fun t ht => ?_
  have heval : (Query.deviceConfig d).eval w.db = w.db.deviceConfigs.get? d := rfl
  rw [heval]
  cases hcfg : w.db.deviceConfigs.get? d with
  | none =>
    have hcontains : w.db.deviceConfigs.contains d = false := by
      rw [Table.contains, hcfg]
      rfl
    have hviolates : (Write.insertDeviceConfig d body).violates w.db = none := by
      simp [Write.violates, hcontains, Table.contains_of_get? hm.1]
    exact flushConfig_ends ht (Write.flushed_cons hviolates) (Table.get?_insert_self hcontains body)
      (fun _ hd => Table.get?_insert_ne hd body) rfl _
  | some cfg =>
    have happly : (DeviceConfigPatch.between cfg body).apply cfg = body :=
      DeviceConfigPatch.apply_between cfg body
    refine when_ends (fun _ => ?_) fun hsame => ?_
    · have hviolates : (Write.updateDeviceConfig d (.between cfg body)).violates w.db = none := by
        simp [Write.violates, Table.contains_of_get? hcfg]
      refine flushConfig_ends ht (Write.flushed_cons hviolates) ?_
        (fun _ hd => Table.get?_update_ne hd _) rfl _
      refine (Table.get?_update_self ..).trans ?_
      rw [hcfg, Option.map_some, happly]
    · obtain rfl : cfg = body := by
        rw [← happly, not_not.mp hsame]
        rfl
      exact flushConfig_ends ht (show Write.flushed [] w.db = .ok w.db from rfl) hcfg
        (fun _ _ => rfl) rfl _

end

/-! ## The paths -/

/-- What every path makes of a row and of a reading: the worker that loads the row, the worker that
finds what it has cached, and the response to a GET. -/
structure PathsAgree (codec : JsonCodec) (row : Option DeviceConfig) (θ : Thresholds) : Prop where
  loaded : loadedDict row = θ.dict
  cached : codec.cached (codec.dumps (loadedDict row)) = some θ.dict
  shown : getConfigOut row = some θ
  slow : ∀ a, evaluateDict (loadedDict row) a = some (evaluate θ a)
  fast : ∀ a, (codec.cached (codec.dumps (loadedDict row))).bind (evaluateDict · a) =
    some (evaluate θ a)
  api : ∀ a, (getConfigOut row).bind (fun t => evaluateDict t.dict a) = some (evaluate θ a)

theorem pathsAgree {codec : JsonCodec} {row : Option DeviceConfig}
    (hcodec : codec.RoundTrips (loadedDict row)) :
    PathsAgree codec row (effectiveThresholds row) := by
  have hloaded : loadedDict row = (effectiveThresholds row).dict := loadedDict_eq row
  have hcached : codec.cached (codec.dumps (loadedDict row)) =
      some (effectiveThresholds row).dict := by
    rw [JsonCodec.cached, if_neg hcodec.ne, hcodec.loads_dumps, hloaded]
  have hshown : getConfigOut row = some (effectiveThresholds row) := getConfigOut_eq row
  refine ⟨hloaded, hcached, hshown, fun a => ?_, fun a => ?_, fun a => ?_⟩
  · rw [hloaded, evaluateDict_dict]
  · rw [hcached, Option.bind_some, evaluateDict_dict]
  · rw [hshown, Option.bind_some, evaluateDict_dict]

section
variable {E : Env} {w : World} {credentials : String} {u d : Uuid} {user : User} {device : Device}
variable {draws : Draws}

/-- **The paths agree.** A load that misses the cache, a load that finds its entry, a GET and a PUT
have the same thresholds, and so the same alerts. -/
theorem paths_agree {codec : JsonCodec}
    (hcodec : codec.RoundTrips (loadedDict (w.db.deviceConfigs.get? d)))
    (hu : Authenticated E credentials u user w) (hm : DeviceMember d u device w)
    (hmiss : w.redis.get w.now (.alertConfig d) = none) :
    (∃ θ w', PathsAgree codec (w.db.deviceConfigs.get? d) θ ∧
      machine.runConst .ok (loadThresholds d) .idle w = (.ok θ, .idle, w') ∧
      (∀ dt : ℕ, dt < seconds configCacheTtl →
        (machine.runConst .ok (loadThresholds d) .idle (w'.tick dt)).1 = .ok θ) ∧
      (serve E (.user credentials (.getDeviceConfig d) draws) w).1 =
        ⟨200, .config ⟨d, θ, (w.db.deviceConfigs.get? d).isSome⟩, []⟩) ∧
    ∀ body θ, putConfigOut body = some θ →
      let put := serve E (.user credentials (.putDeviceConfig d body) draws) w
      put.1 = ⟨200, .config ⟨d, θ, true⟩, []⟩ ∧
      ∀ dt credentials' u' user' device' draws',
        Authenticated E credentials' u' user' (put.2.tick dt) →
        DeviceMember d u' device' (put.2.tick dt) →
        (serve E (.user credentials' (.getDeviceConfig d) draws') (put.2.tick dt)).1 = put.1 := by
  constructor
  · refine ⟨_, _, pathsAgree hcodec, loadThresholds_miss hmiss, fun dt hdt => ?_, ?_⟩
    · exact congrArg Prod.fst (loadThresholds_cached hdt)
    · exact congrArg Prod.fst (getDeviceConfig_serve hu hm)
  · intro body θ hθ put
    obtain ⟨hresponse, hput⟩ := putDeviceConfig_serve hu hm body draws
    cases (putConfigOut_eq body).symm.trans hθ
    refine ⟨hresponse, fun dt credentials' u' user' device' draws' hu' hm' => ?_⟩
    have hrow : (put.2.tick dt).db.deviceConfigs.get? d = some body := hput.row
    rw [getDeviceConfig_serve hu' hm', hrow]
    exact hresponse.symm

end

/-! ## A device with a row -/

namespace Sample

/-- The row of device 7 has one bound of its own. -/
def ownMaximum : DeviceConfig := ⟨some 65, none, none, none, none, none, none⟩

def ownMaximumWorld : World :=
  { deviceWorld with
    db := { deviceWorld.db with deviceConfigs := Table.empty.insert 7 ownMaximum } }

/-- The texts of two dictionaries. -/
def json : JsonCodec :=
  let text := "\x7b\"temperature_c_max\": 65.0, \"temperature_c_min\": 40.0, " ++
    "\"co2_ppm_max\": 5000.0, \"humidity_pct_min\": 40.0, \"humidity_pct_max\": 80.0, " ++
    "\"ph_min\": 5.0, \"ph_max\": 8.5\x7d"
  let dict := loadedDict (some ownMaximum)
  { dumps := fun d => if d = dict then text else "\x7b\x7d"
    loads := fun s => if s = text then some dict else if s = "\x7b\x7d" then some [] else none }

end Sample

/-- Device 7 has its own maximum on every path. -/
theorem ownMaximum_paths_agree :
    let w := Sample.ownMaximumWorld
    let credentials := Sample.jwtEncode ⟨1, .access, 0, 0, 0⟩
    let draws := Sample.draws 0
    (∃ θ w', PathsAgree Sample.json (w.db.deviceConfigs.get? 7) θ ∧
      machine.runConst .ok (loadThresholds 7) .idle w = (.ok θ, .idle, w') ∧
      (∀ dt : ℕ, dt < seconds configCacheTtl →
        (machine.runConst .ok (loadThresholds 7) .idle (w'.tick dt)).1 = .ok θ) ∧
      (serve Sample.env (.user credentials (.getDeviceConfig 7) draws) w).1 =
        ⟨200, .config ⟨7, θ, (w.db.deviceConfigs.get? 7).isSome⟩, []⟩) ∧
    ∀ body θ, putConfigOut body = some θ →
      let put := serve Sample.env (.user credentials (.putDeviceConfig 7 body) draws) w
      put.1 = ⟨200, .config ⟨7, θ, true⟩, []⟩ ∧
      ∀ dt credentials' u' user' device' draws',
        Authenticated Sample.env credentials' u' user' (put.2.tick dt) →
        DeviceMember 7 u' device' (put.2.tick dt) →
        (serve Sample.env (.user credentials' (.getDeviceConfig 7) draws') (put.2.tick dt)).1 =
          put.1 :=
  paths_agree ⟨by decide +kernel, by decide +kernel⟩
    (show Authenticated Sample.env _ 1 (Sample.user "alice@rawbin.io") Sample.ownMaximumWorld from
      ⟨⟨1, .access, 1, 0, 0⟩, rfl, rfl, rfl, rfl, rfl⟩)
    (show DeviceMember 7 1 ⟨"uid", "f", "bin", false, none, 0⟩ Sample.ownMaximumWorld from
      ⟨rfl, rfl⟩) rfl

end Rawbin
