import Rawbin.Verify.Migration

/-!
# Down to the initial schema

Every downgrade but the last keeps the users and the devices. The last one adds a mandatory column
to `devices` and has no value for it, so it succeeds on a database without devices only.
-/

namespace Rawbin

/-- The rows of users and devices are still there, with the same ids. -/
structure InitialDb.Keeps (db' : InitialDb) (db : Db) : Prop where
  users : ∀ u, db'.users.contains u = db.users.contains u
  devices : ∀ d, db'.devices.contains d = db.devices.contains d

section
variable {scan : List ((Uuid × Uuid) × UserDevice)} {db : Db} {old : OldDb}

/-- The last downgrade keeps users and devices too, and is possible without devices only. -/
theorem HypertableDb.downgrade_cases (hdb : HypertableDb) :
    (hdb.devices.rows = [] ∧ ∃ db', hdb.downgrade = .ok db' ∧
      (∀ u, db'.users.contains u = hdb.users.contains u) ∧
      ∀ d, db'.devices.contains d = hdb.devices.contains d) ∨
    (hdb.devices.rows ≠ [] ∧ hdb.downgrade = .error .notNullViolation) := by
  rw [downgrade]
  split
  · rename_i hnone
    exact .inr ⟨Table.addColumn_none_eq_none_iff.mp hnone, rfl⟩
  · rename_i devices hsome
    refine .inl ⟨?_, _, rfl, fun u => rfl, fun d => ?_⟩
    · by_contra hrows
      cases (Table.addColumn_none_eq_none_iff.mpr hrows).symm.trans hsome
    · exact (Table.contains_map ..).trans (Table.contains_mapM hsome d)

theorem devices_eq_nil_iff : old.devices.rows = [] ↔ ∀ d, old.devices.contains d = false := by
  simp only [Table.contains_eq_false_iff]
  rw [← List.eq_nil_iff_forall_not_mem, List.map_eq_nil_iff]

/-- All the downgrades in a row stand or fall with the last one. -/
theorem downgradeToInitial_cases (hscan : scan.Perm db.userDevices.rows) (hl : db.Linked)
    (hm : ∀ d, db.devices.contains d = true → ∃ u, db.userDevices.contains (u, d) = true) :
    ((∀ d, db.devices.contains d = false) ∧
      ∃ db', downgradeToInitial scan db = .ok db' ∧ db'.Keeps db) ∨
    ((∃ d, db.devices.contains d = true) ∧
      downgradeToInitial scan db = .error .notNullViolation) := by
  obtain ⟨old, hold, _⟩ := exists_downgrade hscan hl hm
  obtain ⟨husers, hdevices⟩ := downgrade_keeps hold
  have hrun : downgradeToInitial scan db = old.dropAlertsAndConfigs.downgrade := by
    rw [downgradeToInitial, hold]
    rfl
  simp only [hrun, ← hdevices]
  rcases old.dropAlertsAndConfigs.downgrade_cases with ⟨hnil, db', hok, hu, hd⟩ | ⟨hne, herr⟩
  · refine .inl ⟨devices_eq_nil_iff.mp hnil, db', hok, fun u => ?_, fun d => ?_⟩
    · exact (hu u).trans (husers u)
    · exact (hd d).trans (hdevices d)
  · refine .inr ⟨?_, herr⟩
    by_contra hnone
    exact hne (devices_eq_nil_iff.mpr fun d => Bool.not_eq_true _ ▸ fun hd => hnone ⟨d, hd⟩)

/-- **The way down.** All downgrades succeed and keep the users and the devices exactly when there
are no devices. -/
theorem downgradeToInitial_iff (hscan : scan.Perm db.userDevices.rows) (hl : db.Linked)
    (hm : ∀ d, db.devices.contains d = true → ∃ u, db.userDevices.contains (u, d) = true) :
    (∃ db', downgradeToInitial scan db = .ok db' ∧ db'.Keeps db) ↔
      ∀ d, db.devices.contains d = false := by
  rcases downgradeToInitial_cases hscan hl hm with ⟨hnone, hok⟩ | ⟨⟨d, hd⟩, herr⟩
  · exact iff_of_true hok hnone
  · refine iff_of_false ?_ fun hnone => nomatch hd.symm.trans (hnone d)
    rintro ⟨db', hok, _⟩
    exact nomatch herr.symm.trans hok

end

/-- The old database has a device: neither side holds of it. -/
theorem oldDb_downgrades_iff : (∃ db', downgradeToInitial (upgrade 0 Sample.oldDb).userDevices.rows
      (upgrade 0 Sample.oldDb) = .ok db' ∧ db'.Keeps (upgrade 0 Sample.oldDb)) ↔
    ∀ d, (upgrade 0 Sample.oldDb).devices.contains d = false := by
  have h : Inherited Sample.oldDb 0 ⟨upgrade 0 Sample.oldDb, .empty, 0⟩ := upgrade_inherited
  exact downgradeToInitial_iff (.refl _) h.linked h.membered

/-- Alice's device, shared with Bob by a request, stands in the way. -/
theorem sharedDevice_stuck : ∃ w : World, Reach (SharingEvent.apply Sample.env) (fun _ _ => True)
      ⟨upgrade 0 Sample.oldDb, .empty, 0⟩ w ∧ w.db.Linked ∧
    (∀ d, w.db.devices.contains d = true → ∃ u, w.db.userDevices.contains (u, d) = true) ∧
    downgradeToInitial w.db.userDevices.rows w.db = .error .notNullViolation := by
  have H : Reach (SharingEvent.apply Sample.env) (fun _ _ => True)
      ⟨upgrade 0 Sample.oldDb, .empty, 0⟩ _ := Reach.refl.step (e := shareAfterUpgrade) trivial
  have h := Inherited.of_run H
  refine ⟨_, H, h.linked, h.membered, ?_⟩
  rcases downgradeToInitial_cases (.refl _) h.linked h.membered with ⟨hnone, _⟩ | ⟨_, herr⟩
  · exact nomatch (h.kept 7 (by decide)).symm.trans (hnone 7)
  · exact herr

end Rawbin
