import Mathlib.Data.List.Basic
import Rawbin.Library.Table

/-!
# Tables with other columns

A table whose rows get another shape while the keys stay: `map` adds or drops columns, and `mapM`
is a change of shape that some row may refuse, such as a column that becomes mandatory. A new
mandatory column, `addColumn`, is filled with its default in the rows that are there.
-/

namespace Table

variable {κ ρ σ : Type} {t : Table κ ρ}

/-- Rewrite every row. -/
def map (t : Table κ ρ) (f : κ → ρ → σ) : Table κ σ :=
  ⟨t.rows.map fun e => (e.1, f e.1 e.2), by rw [List.map_map]; exact t.nodup⟩

/-- Rewrite every row, unless one of them refuses. -/
def mapM (t : Table κ ρ) (f : ρ → Option σ) : Option (Table κ σ) :=
  if h : ∀ e ∈ t.rows, (f e.2).isSome = true then
    some ⟨t.rows.pmap (fun e he => (e.1, (f e.2).get he)) h, by
      rw [List.map_pmap, List.pmap_eq_map]; exact t.nodup⟩
  else none

/-- Add a mandatory column. Without a default no row has a value for it. -/
def addColumn (t : Table κ ρ) (default : Option σ) : Option (Table κ (ρ × σ)) :=
  t.mapM fun r => default.map fun c => (r, c)

theorem map_some_pmap {f : ρ → Option σ} {l : List (κ × ρ)}
    (h : ∀ e ∈ l, (f e.2).isSome = true) :
    (l.pmap (fun e he => (e.1, (f e.2).get he)) h).map (fun e => (e.1, some e.2)) =
      l.map fun e => (e.1, f e.2) := by
  rw [List.map_pmap, ← List.pmap_eq_map (p := fun e => (f e.2).isSome = true) (H := h)]
  exact List.pmap_congr_left _ fun e _ he _ => by rw [Option.some_get]

theorem mapM_eq_some {f : ρ → Option σ} {s : Table κ σ} :
    t.mapM f = some s ↔
      t.rows.map (fun e => (e.1, f e.2)) = s.rows.map fun e => (e.1, some e.2) := by
  constructor
  · intro h
    rw [mapM] at h
    split at h
    · rename_i hsome
      cases h
      exact (map_some_pmap hsome).symm
    · cases h
  · intro h
    have hsome : ∀ e ∈ t.rows, (f e.2).isSome = true := by
      intro e he
      have he' : (e.1, f e.2) ∈ s.rows.map fun e => (e.1, some e.2) :=
        h ▸ List.mem_map_of_mem (f := fun e => (e.1, f e.2)) he
      obtain ⟨e', _, he'⟩ := List.mem_map.mp he'
      exact congrArg Option.isSome (Prod.mk.inj he').2.symm
    rw [mapM, dif_pos hsome]
    have hinj : Function.Injective fun e : κ × σ => (e.1, some e.2) := by
      rintro ⟨k, r⟩ ⟨k', r'⟩ he
      obtain ⟨hk, hr⟩ := Prod.mk.inj he
      exact Prod.ext hk (Option.some.inj hr)
    refine congrArg some (ext (List.map_injective_iff.mpr hinj ?_))
    exact (map_some_pmap hsome).trans h

theorem exists_mapM {f : ρ → Option σ} (h : ∀ e ∈ t.rows, (f e.2).isSome = true) :
    ∃ s, t.mapM f = some s := ⟨_, dif_pos h⟩

theorem addColumn_eq_some {default : Option σ} {s : Table κ (ρ × σ)}
    (h : t.addColumn default = some s) {k : κ} {r : ρ} {c : σ} (he : (k, r, c) ∈ s.rows) :
    (k, r) ∈ t.rows ∧ default = some c := by
  have hmem : (k, some (r, c)) ∈ s.rows.map fun e => (e.1, some e.2) :=
    List.mem_map_of_mem (f := fun e => (e.1, some e.2)) he
  rw [← mapM_eq_some.mp h, List.mem_map] at hmem
  obtain ⟨⟨k', r'⟩, hr, he⟩ := hmem
  obtain ⟨rfl, hfilled⟩ := Prod.mk.inj he
  obtain ⟨c', hc, hrc⟩ := Option.map_eq_some_iff.mp hfilled
  obtain ⟨rfl, rfl⟩ := Prod.mk.inj hrc
  exact ⟨hr, hc⟩

/-- A mandatory column without a default is refused exactly by a table that has rows. -/
theorem addColumn_none_eq_none_iff :
    t.addColumn (none : Option σ) = none ↔ t.rows ≠ [] := by
  constructor
  · intro h hnil
    obtain ⟨s, hs⟩ := exists_mapM (t := t) (f := fun r => (none : Option σ).map fun c => (r, c))
      fun e he => absurd (hnil ▸ he) List.not_mem_nil
    exact nomatch h.symm.trans hs
  · intro h
    obtain ⟨⟨k, r⟩, l, hrows⟩ := List.exists_cons_of_ne_nil h
    refine dif_neg fun hsome => ?_
    exact nomatch hsome (k, r) (hrows ▸ List.mem_cons_self)

theorem keys_mapM {f : ρ → Option σ} {s : Table κ σ} (h : t.mapM f = some s) :
    s.rows.map Prod.fst = t.rows.map Prod.fst := by
  have hkeys := congrArg (List.map Prod.fst) (mapM_eq_some.mp h)
  rw [List.map_map, List.map_map] at hkeys
  exact hkeys.symm

variable [DecidableEq κ]

theorem contains_mapM {f : ρ → Option σ} {s : Table κ σ} (h : t.mapM f = some s) (k : κ) :
    s.contains k = t.contains k := by
  refine Bool.eq_iff_iff.mpr (not_iff_not.mp ?_)
  simp only [Bool.not_eq_true, contains_eq_false_iff, keys_mapM h]

theorem get?_map (t : Table κ ρ) (f : κ → ρ → σ) (k : κ) :
    (t.map f).get? k = (t.get? k).map (f k) := by
  refine Option.ext fun r => ?_
  rw [get?_eq_some_iff, Option.map_eq_some_iff]
  constructor
  · intro h
    obtain ⟨⟨k', r'⟩, hr, he⟩ := List.mem_map.mp h
    obtain ⟨rfl, rfl⟩ := Prod.mk.inj he
    exact ⟨r', get?_eq_some_iff.mpr hr, rfl⟩
  · rintro ⟨r', hr, rfl⟩
    exact List.mem_map.mpr ⟨(k, r'), get?_eq_some_iff.mp hr, rfl⟩

theorem contains_map (t : Table κ ρ) (f : κ → ρ → σ) (k : κ) :
    (t.map f).contains k = t.contains k := by
  rw [contains, contains, get?_map, Option.isSome_map]

theorem get?_mapM {f : ρ → Option σ} {s : Table κ σ} (h : t.mapM f = some s) (k : κ) :
    s.get? k = (t.get? k).bind f := by
  have hmem {r : σ} : (k, r) ∈ s.rows ↔ (k, some r) ∈ t.rows.map fun e => (e.1, f e.2) := by
    rw [mapM_eq_some.mp h, List.mem_map]
    constructor
    · exact fun hr => ⟨(k, r), hr, rfl⟩
    · rintro ⟨⟨k', r'⟩, hr, he⟩
      obtain ⟨rfl, hr'⟩ := Prod.mk.inj he
      exact Option.some.inj hr' ▸ hr
  refine Option.ext fun r => ?_
  rw [get?_eq_some_iff, hmem, List.mem_map, Option.bind_eq_some_iff]
  constructor
  · rintro ⟨⟨k', r'⟩, hr, he⟩
    obtain ⟨rfl, hf⟩ := Prod.mk.inj he
    exact ⟨r', get?_eq_some_iff.mpr hr, hf⟩
  · rintro ⟨r', hr, hf⟩
    exact ⟨(k, r'), get?_eq_some_iff.mp hr, Prod.ext rfl hf⟩

end Table
