import Rawbin.Library.Arrangement
import Rawbin.Verify.Sequential

/-!
# Pages of a history

Each page of `list_alerts` and `list_waste_logs` is a query of its own, sorted by a time that
several rows may share. SQL leaves the order of such rows open, for each query anew. `orderBy` keeps
them as it finds them, so the orders that SQL allows are those in which a query can find the rows of
the table.
-/

namespace Rawbin

/-! ## Orders that SQL allows -/

section
variable {α κ : Type} [LinearOrder κ] {key : α → κ} {rows l : List α}

theorem orderBy_arranges (key : α → κ) (rows : List α) :
    Arranges key rows (orderBy key true rows) where
  perm := List.perm_insertionSort ..
  sorted := by
    have : Std.Total fun a b : α => key b ≤ key a := ⟨fun a b => le_total (key b) (key a)⟩
    have : IsTrans α fun a b => key b ≤ key a := ⟨fun _ _ _ h h' => h'.trans h⟩
    exact List.pairwise_insertionSort ..

/-- The orders that SQL allows are those that `orderBy` makes of the rows in some order. -/
theorem arranges_iff : Arranges key rows l ↔ ∃ rows' : List α, rows'.Perm rows ∧
    l = orderBy key true rows' := by
  constructor
  · intro h
    exact ⟨l, h.perm, (List.Pairwise.insertionSort_eq h.sorted).symm⟩
  · rintro ⟨rows', hperm, rfl⟩
    have h := orderBy_arranges key rows'
    exact ⟨h.perm.trans hperm, h.sorted⟩

end

/-- The database as a query may find it: the rows of the histories in any order. -/
structure Db.Rearranged (db db' : Db) : Prop where
  alertEvents : db'.alertEvents.rows.Perm db.alertEvents.rows
  wasteLogs : db'.wasteLogs.rows.Perm db.wasteLogs.rows
  other : db' = { db with alertEvents := db'.alertEvents, wasteLogs := db'.wasteLogs }

/-! ## What a client collects -/

/-- The items at the offsets `0`, `limit`, `2 * limit` and so on up to the total. -/
def collected (limit : ℕ) (pages : ℕ → Page α) : List α :=
  (List.range ((pages 0).total / limit + 1)).flatMap fun k => (pages k).items

/-- In whatever order the rows are found at each of the requests, the client collects every row
once, newest first. -/
def Paged (E : Env) (w : World) (credentials : String) (draws : Draws) (limit : ℕ)
    (route : ℕ → Route) (body : Page α → Body) (key : α → Time) (rows : List α) : Prop :=
  ∀ dbs : ℕ → Db, (∀ k, w.db.Rearranged (dbs k)) → ∃ pages : ℕ → Page α,
    (∀ k, (serve E (.user credentials (route (k * limit)) draws) { w with db := dbs k }).1.body =
      body (pages k)) ∧ Arranges key rows (collected limit pages)

section
variable {E : Env} {w : World} {credentials : String} {u d : Uuid} {user : User} {device : Device}
variable {limit offset : ℕ} {severity : Option Severity} {metric : Option String}
variable {cycleId : Option Uuid} {draws : Draws}

theorem listAlerts_body (hu : Authenticated E credentials u user w)
    (hm : DeviceMember d u device w) :
    let rows := w.db.filteredAlerts d severity (metric.filter (· ≠ ""))
    (serve E (.user credentials (.listAlerts d limit offset severity metric) draws) w).1.body =
      .alerts ⟨d, rows.length, limit, offset,
        page limit offset (orderBy (·.2.createdAt) true rows)⟩ := by
  refine serve_ends (P := fun response _ => response.body = _) ?_
  refine getCurrentUser_ends rfl (fun t hnone => (hnone u user hu).elim) fun t u' user' ht hu' => ?_
  obtain ⟨rfl, rfl⟩ := hu.unique hu'
  refine assertDeviceMember_ends ht (fun t hnone => (hnone device hm).elim) fun t _ ht _ => ?_
  exact select_ends ht fun t ht => select_ends ht fun t ht => rfl

theorem listWasteLogs_body (hu : Authenticated E credentials u user w)
    (hm : DeviceMember d u device w) :
    let rows := w.db.filteredWasteLogs d cycleId
    (serve E (.user credentials (.listWasteLogs d limit offset cycleId) draws) w).1.body =
      .wasteLogs ⟨d, rows.length, limit, offset,
        page limit offset (orderBy (·.2.loggedAt) true rows)⟩ := by
  refine serve_ends (P := fun response _ => response.body = _) ?_
  refine getCurrentUser_ends rfl (fun t hnone => (hnone u user hu).elim) fun t u' user' ht hu' => ?_
  obtain ⟨rfl, rfl⟩ := hu.unique hu'
  refine assertDeviceMember_ends ht (fun t hnone => (hnone device hm).elim) fun t _ ht _ => ?_
  exact select_ends ht fun t ht => select_ends ht fun t ht => rfl

theorem Db.Rearranged.authenticated {db' : Db} (h : w.db.Rearranged db')
    (hu : Authenticated E credentials u user w) :
    Authenticated E credentials u user { w with db := db' } := by
  obtain ⟨payload, hp, htype, hsub, hget, hactive⟩ := hu
  refine ⟨payload, hp, htype, hsub, ?_, hactive⟩
  rw [h.other]
  exact hget

theorem Db.Rearranged.deviceMember {db' : Db} (h : w.db.Rearranged db')
    (hm : DeviceMember d u device w) : DeviceMember d u device { w with db := db' } := by
  rw [DeviceMember, h.other]
  exact hm

/-- Pages of the rows that a query finds, sorted by a key. -/
theorem paged_iff (d : Uuid) {α : Type} {route : ℕ → Route} {body : Page α → Body} {key : α → Time}
    (rowsOf : Db → List α) (hlimit : 0 < limit) (hnodup : (rowsOf w.db).Nodup)
    (hbody : ∀ p q, body p = body q → p = q)
    (hserve : ∀ db offset, w.db.Rearranged db →
      (serve E (.user credentials (route offset) draws) { w with db := db }).1.body =
        body ⟨d, (rowsOf db).length, limit, offset,
          page limit offset (orderBy key true (rowsOf db))⟩)
    (hperm : ∀ db, w.db.Rearranged db → (rowsOf db).Perm (rowsOf w.db))
    (hfind : ∀ l, l.Perm (rowsOf w.db) → ∃ db, w.db.Rearranged db ∧ rowsOf db = l) :
    Paged E w credentials draws limit route body key (rowsOf w.db) ↔
      ∀ k, ¬ Straddles key (rowsOf w.db) (k * limit) := by
  rw [← pages_arrange_iff hlimit hnodup (orderBy_arranges key _)]
  constructor
  · intro hpaged o ho
    choose rows hrows horder using fun k => arranges_iff.mp (ho k)
    choose dbs hdbs hfound using fun k => hfind (rows k) (hrows k)
    obtain ⟨ps, hps, hcollected⟩ := hpaged dbs hdbs
    have hp (k : ℕ) : ps k = ⟨d, (rows k).length, limit, k * limit,
        page limit (k * limit) (o k)⟩ := by
      refine hbody _ _ ((hps k).symm.trans ((hserve _ _ (hdbs k)).trans ?_))
      rw [hfound, horder]
    rw [collected, hp, (hrows 0).length_eq] at hcollected
    simp only [hp] at hcollected
    exact hcollected
  · intro hpages dbs hdbs
    refine ⟨_, fun k => hserve _ _ (hdbs k), ?_⟩
    rw [collected, (hperm _ (hdbs 0)).length_eq]
    exact hpages _ fun k => arranges_iff.mpr ⟨_, hperm _ (hdbs k), rfl⟩

theorem filteredAlerts_eq (db : Db) : db.filteredAlerts d severity metric =
    db.alertEvents.select fun _ a => (severity.all (· = a.severity) && metric.all (· = a.metric)) &&
      decide (a.deviceId = d) := List.filter_filter

theorem filteredWasteLogs_eq (db : Db) : db.filteredWasteLogs d cycleId =
    db.wasteLogs.select fun _ l => (cycleId.all fun c => l.compostCycleId = some c) &&
      decide (l.deviceId = d) := List.filter_filter

theorem alertPages_iff (hlimit : 0 < limit) (hu : Authenticated E credentials u user w)
    (hm : DeviceMember d u device w) :
    let rows := w.db.filteredAlerts d severity (metric.filter (· ≠ ""))
    Paged E w credentials draws limit (.listAlerts d limit · severity metric) .alerts
        (·.2.createdAt) rows ↔
      ∀ k, ¬ Straddles (·.2.createdAt) rows (k * limit) := by
  refine paged_iff d (fun db => db.filteredAlerts d severity (metric.filter (· ≠ ""))) hlimit
    ?_ (fun p q h => Body.alerts.inj h) (fun db offset h => ?_) (fun db h => ?_) fun l hl => ?_
  · simp only [filteredAlerts_eq]
    exact (Table.nodup_select _ _).of_map
  · exact listAlerts_body (h.authenticated hu) (h.deviceMember hm)
  · simp only [filteredAlerts_eq]
    exact h.alertEvents.filter _
  · simp only [filteredAlerts_eq] at hl
    obtain ⟨t, ht, hselect⟩ := Table.exists_select_eq hl
    refine ⟨{ w.db with alertEvents := t }, ⟨ht, .refl _, rfl⟩, ?_⟩
    rw [filteredAlerts_eq]
    exact hselect

theorem wasteLogPages_iff (hlimit : 0 < limit) (hu : Authenticated E credentials u user w)
    (hm : DeviceMember d u device w) :
    let rows := w.db.filteredWasteLogs d cycleId
    Paged E w credentials draws limit (.listWasteLogs d limit · cycleId) .wasteLogs
        (·.2.loggedAt) rows ↔
      ∀ k, ¬ Straddles (·.2.loggedAt) rows (k * limit) := by
  refine paged_iff d (fun db => db.filteredWasteLogs d cycleId) hlimit
    ?_ (fun p q h => Body.wasteLogs.inj h) (fun db offset h => ?_) (fun db h => ?_)
    fun l hl => ?_
  · simp only [filteredWasteLogs_eq]
    exact (Table.nodup_select _ _).of_map
  · exact listWasteLogs_body (h.authenticated hu) (h.deviceMember hm)
  · simp only [filteredWasteLogs_eq]
    exact h.wasteLogs.filter _
  · simp only [filteredWasteLogs_eq] at hl
    obtain ⟨t, ht, hselect⟩ := Table.exists_select_eq hl
    refine ⟨{ w.db with wasteLogs := t }, ⟨.refl _, ht, rfl⟩, ?_⟩
    rw [filteredWasteLogs_eq]
    exact hselect

/-- **When pages partition a history**: exactly when no rows with equal times lie on both sides of
a page boundary. -/
theorem pages_partition_iff (hlimit : 0 < limit) (hu : Authenticated E credentials u user w)
    (hm : DeviceMember d u device w) :
    let alerts := w.db.filteredAlerts d severity (metric.filter (· ≠ ""))
    let logs := w.db.filteredWasteLogs d cycleId
    (Paged E w credentials draws limit (.listAlerts d limit · severity metric) .alerts
        (·.2.createdAt) alerts ↔
      ∀ k, ¬ Straddles (·.2.createdAt) alerts (k * limit)) ∧
    (Paged E w credentials draws limit (.listWasteLogs d limit · cycleId) .wasteLogs
        (·.2.loggedAt) logs ↔
      ∀ k, ¬ Straddles (·.2.loggedAt) logs (k * limit)) :=
  ⟨alertPages_iff hlimit hu hm, wasteLogPages_iff hlimit hu hm⟩

end

/-! ## Two alerts of one instant -/

namespace Sample

def alertAt (createdAt : Time) (metric : String) : AlertEvent :=
  ⟨7, metric, .warning, 90, 80, metric, 0, false, createdAt⟩

def logAt (loggedAt : Time) : WasteLog := ⟨7, none, some 1, loggedAt, .greens, none, none, 0⟩

/-- Device 7 has two alerts and two waste logs. -/
def histories (second : Time) : World :=
  { deviceWorld with
    db := { deviceWorld.db with
      alertEvents := (Table.empty.insert 1 (alertAt 0 "temperature_c")).insert 2
        (alertAt second "ph_level")
      wasteLogs := (Table.empty.insert 1 (logAt 0)).insert 2 (logAt second) } }

/-- Alice is a member of device 7. -/
theorem histories_member (second : Time) :
    Authenticated env (jwtEncode ⟨1, .access, 0, 0, 0⟩) 1 (user "alice@rawbin.io")
      (histories second) ∧
      DeviceMember 7 1 ⟨"uid", "f", "bin", false, none, 0⟩ (histories second) :=
  ⟨⟨⟨1, .access, 1, 0, 0⟩, rfl, rfl, rfl, rfl, rfl⟩, rfl, rfl⟩

end Sample

/-- Alerts and logs of two instants, on pages of one row. -/
theorem twoInstants_partition :
    let w := Sample.histories 1
    let alerts := w.db.filteredAlerts 7 none (Option.filter (· ≠ "") none)
    let logs := w.db.filteredWasteLogs 7 none
    (Paged Sample.env w (Sample.jwtEncode ⟨1, .access, 0, 0, 0⟩) (Sample.draws 0) 1
        (.listAlerts 7 1 · none none) .alerts (·.2.createdAt) alerts ↔
      ∀ k, ¬ Straddles (·.2.createdAt) alerts (k * 1)) ∧
    (Paged Sample.env w (Sample.jwtEncode ⟨1, .access, 0, 0, 0⟩) (Sample.draws 0) 1
        (.listWasteLogs 7 1 · none) .wasteLogs (·.2.loggedAt) logs ↔
      ∀ k, ¬ Straddles (·.2.loggedAt) logs (k * 1)) :=
  pages_partition_iff Nat.one_pos (Sample.histories_member 1).1 (Sample.histories_member 1).2

/-- Two alerts and two logs of one instant, on pages of one row. -/
theorem oneInstant_not_partition :
    let w := Sample.histories 0
    let credentials := Sample.jwtEncode ⟨1, .access, 0, 0, 0⟩
    Authenticated Sample.env credentials 1 (Sample.user "alice@rawbin.io") w ∧
      DeviceMember 7 1 ⟨"uid", "f", "bin", false, none, 0⟩ w ∧
      ¬ Paged Sample.env w credentials (Sample.draws 0) 1 (.listAlerts 7 1 · none none) .alerts
        (·.2.createdAt) (w.db.filteredAlerts 7 none none) ∧
      ¬ Paged Sample.env w credentials (Sample.draws 0) 1 (.listWasteLogs 7 1 · none) .wasteLogs
        (·.2.loggedAt) (w.db.filteredWasteLogs 7 none) := by
  obtain ⟨hu, hm⟩ := Sample.histories_member 0
  refine ⟨hu, hm, fun h => ?_, fun h => ?_⟩
  · refine (alertPages_iff Nat.one_pos hu hm).mp h 1 ⟨(1, Sample.alertAt 0 "temperature_c"), ?_⟩
    decide
  · refine (wasteLogPages_iff Nat.one_pos hu hm).mp h 1 ⟨(1, Sample.logAt 0), ?_⟩
    decide

end Rawbin
