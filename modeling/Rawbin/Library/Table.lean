import Mathlib.Data.List.Nodup
import Mathlib.Data.List.Basic

/-!
# Tables with a primary key

A table is a list of key/row pairs in insertion order. That no key occurs twice is a field
of the structure, so a lookup by key has at most one answer and an update by key touches at
most one row.
-/

structure Table (κ ρ : Type) where
  rows : List (κ × ρ)
  nodup : (rows.map Prod.fst).Nodup

namespace Table

variable {κ ρ : Type}

theorem ext : ∀ {s t : Table κ ρ}, s.rows = t.rows → s = t
  | ⟨_, _⟩, ⟨_, _⟩, rfl => rfl

def empty : Table κ ρ := ⟨[], List.nodup_nil⟩

instance : Inhabited (Table κ ρ) := ⟨empty⟩

/-- The rows that satisfy a predicate, in insertion order. -/
def select (t : Table κ ρ) (p : κ → ρ → Bool) : List (κ × ρ) :=
  t.rows.filter fun e => p e.1 e.2

variable [DecidableEq κ]

/-- Lookup by primary key. -/
def get? (t : Table κ ρ) (k : κ) : Option ρ :=
  (t.rows.find? fun e => e.1 = k).map Prod.snd

def contains (t : Table κ ρ) (k : κ) : Bool := (t.get? k).isSome

/-- Append a row. A key that is already present leaves the table as it is: the caller
rejects the insertion before. -/
def insert (t : Table κ ρ) (k : κ) (r : ρ) : Table κ ρ :=
  if h : k ∈ t.rows.map Prod.fst then t
  else ⟨t.rows ++ [(k, r)], by
    rw [List.map_append, List.map_singleton, List.nodup_append]
    refine ⟨t.nodup, List.nodup_singleton k, fun a ha b hb => ?_⟩
    rintro rfl
    have hk : a = k := List.mem_singleton.mp hb
    exact h (hk ▸ ha)⟩

/-- Rewrite the row of one key. -/
def update (t : Table κ ρ) (k : κ) (f : ρ → ρ) : Table κ ρ :=
  ⟨t.rows.map fun e => if e.1 = k then (e.1, f e.2) else e, by
    have h : (t.rows.map fun e => if e.1 = k then (e.1, f e.2) else e).map Prod.fst =
        t.rows.map Prod.fst := by
      rw [List.map_map]
      refine List.map_congr_left fun e _ => ?_
      simp only [Function.comp_apply]
      split <;> rfl
    rw [h]; exact t.nodup⟩

def delete (t : Table κ ρ) (k : κ) : Table κ ρ :=
  ⟨t.rows.filter fun e => e.1 ≠ k, t.nodup.sublist (List.filter_sublist.map _)⟩

/-- Append rows one by one. -/
def insertAll (t : Table κ ρ) (es : List (κ × ρ)) : Table κ ρ :=
  es.foldl (fun t e => t.insert e.1 e.2) t

/-! ## Lookups -/

theorem mem_of_get? {t : Table κ ρ} (h : t.get? k = some r) : (k, r) ∈ t.rows := by
  obtain ⟨e, he, hr⟩ := Option.map_eq_some_iff.mp h
  have hk : e.1 = k := by simpa using List.find?_some he
  have hm := List.mem_of_find?_eq_some he
  rwa [← hk, ← hr]

theorem find?_of_mem {l : List (κ × ρ)} (hnd : (l.map Prod.fst).Nodup) (h : (k, r) ∈ l) :
    l.find? (fun e => e.1 = k) = some (k, r) := by
  induction l with
  | nil => cases h
  | cons e l ih =>
    rw [List.map_cons, List.nodup_cons] at hnd
    rcases List.mem_cons.mp h with rfl | h
    · simp
    · have hne : e.1 ≠ k := fun he => hnd.1 (he ▸ List.mem_map.mpr ⟨_, h, rfl⟩)
      simpa [List.find?_cons, hne] using ih hnd.2 h

theorem get?_eq_some_iff {t : Table κ ρ} : t.get? k = some r ↔ (k, r) ∈ t.rows :=
  ⟨mem_of_get?, fun h => by rw [get?, find?_of_mem t.nodup h]; rfl⟩

theorem get?_eq_none_iff {t : Table κ ρ} : t.get? k = none ↔ k ∉ t.rows.map Prod.fst := by
  rw [get?, Option.map_eq_none_iff, List.find?_eq_none, List.mem_map]
  exact ⟨fun h ⟨e, he, hk⟩ => h e he (by simpa using hk),
    fun h e he hk => h ⟨e, he, by simpa using hk⟩⟩

theorem mem_select {t : Table κ ρ} : (k, r) ∈ t.select p ↔ t.get? k = some r ∧ p k r := by
  rw [select, List.mem_filter, get?_eq_some_iff]

theorem select_eq_nil_of_imp {t : Table κ ρ} {p q : κ → ρ → Bool} (h : t.select q = [])
    (hpq : ∀ k r, p k r = true → q k r = true) : t.select p = [] := by
  refine List.eq_nil_iff_forall_not_mem.mpr fun e he => ?_
  obtain ⟨hget, hp⟩ := mem_select.mp he
  exact absurd (mem_select.mpr ⟨hget, hpq _ _ hp⟩) (h ▸ List.not_mem_nil)

omit [DecidableEq κ] in
theorem nodup_select (t : Table κ ρ) (p : κ → ρ → Bool) : ((t.select p).map Prod.fst).Nodup :=
  t.nodup.sublist (List.filter_sublist.map _)

theorem mem_keys_select {t : Table κ ρ} {p : κ → Bool} :
    k ∈ (t.select fun k _ => p k).map Prod.fst ↔ t.contains k = true ∧ p k = true := by
  constructor
  · intro h
    obtain ⟨⟨k, r⟩, hr, rfl⟩ := List.mem_map.mp h
    obtain ⟨hget, hp⟩ := mem_select.mp hr
    exact ⟨Option.isSome_iff_exists.mpr ⟨r, hget⟩, hp⟩
  · rintro ⟨hk, hp⟩
    obtain ⟨r, hget⟩ := Option.isSome_iff_exists.mp hk
    exact List.mem_map.mpr ⟨(k, r), mem_select.mpr ⟨hget, hp⟩, rfl⟩

@[simp] theorem get?_empty (k : κ) : (empty : Table κ ρ).get? k = none := rfl

theorem contains_eq_false_iff {t : Table κ ρ} :
    t.contains k = false ↔ k ∉ t.rows.map Prod.fst := by
  rw [contains, Option.isSome_eq_false_iff, Option.isNone_iff_eq_none, get?_eq_none_iff]

theorem get?_congr {s t : Table κ ρ} (h : ∀ r, (k, r) ∈ s.rows ↔ (k, r) ∈ t.rows) :
    s.get? k = t.get? k :=
  Option.ext fun r => by rw [get?_eq_some_iff, get?_eq_some_iff]; exact h r

/-! ## Insertion -/

theorem insert_rows {t : Table κ ρ} (h : t.contains k = false) (r : ρ) :
    (t.insert k r).rows = t.rows ++ [(k, r)] := by
  rw [insert, dif_neg (contains_eq_false_iff.mp h)]

theorem insert_of_contains {t : Table κ ρ} (h : t.contains k = true) (r : ρ) :
    t.insert k r = t := by
  rw [insert, dif_pos]
  by_contra hk
  rw [contains_eq_false_iff.mpr hk] at h
  cases h

/-- What an insertion does to the rows, whether or not the key is new. -/
theorem insert_rows_cases (t : Table κ ρ) (k : κ) (r : ρ) :
    (t.insert k r).rows = t.rows ∨ (t.insert k r).rows = t.rows ++ [(k, r)] := by
  cases h : t.contains k
  · exact .inr (insert_rows h r)
  · exact .inl (by rw [insert_of_contains h r])

theorem get?_insert_ne {t : Table κ ρ} (h : k' ≠ k) (r : ρ) :
    (t.insert k r).get? k' = t.get? k' := by
  refine get?_congr fun r' => ?_
  rcases insert_rows_cases t k r with e | e <;> simp [e, h]

theorem get?_insert_self {t : Table κ ρ} (h : t.contains k = false) (r : ρ) :
    (t.insert k r).get? k = some r := by
  rw [get?_eq_some_iff, insert_rows h r]
  exact List.mem_append_right _ (List.mem_singleton_self _)

/-- An insertion keeps every row that was there. -/
theorem get?_insert_of_some {t : Table κ ρ} (h : t.get? k' = some r') (k : κ) (r : ρ) :
    (t.insert k r).get? k' = some r' := by
  rw [get?_eq_some_iff] at h ⊢
  rcases insert_rows_cases t k r with e | e <;> rw [e]
  · exact h
  · exact List.mem_append_left _ h

theorem get?_of_insert {t : Table κ ρ} (h : (t.insert k r).get? k' = some r') :
    t.get? k' = some r' ∨ k' = k ∧ r' = r := by
  rw [get?_eq_some_iff] at h
  rw [get?_eq_some_iff]
  rcases insert_rows_cases t k r with e | e <;> rw [e] at h
  · exact .inl h
  · rcases List.mem_append.mp h with h | h
    · exact .inl h
    · obtain ⟨rfl, rfl⟩ := Prod.mk.inj (List.mem_singleton.mp h)
      exact .inr ⟨rfl, rfl⟩

theorem select_insert {t : Table κ ρ} {p : κ → ρ → Bool} (h : p k r = false) :
    (t.insert k r).select p = t.select p := by
  rcases insert_rows_cases t k r with e | e <;> simp [select, e, h]

/-! ## Update -/

theorem get?_update_ne {t : Table κ ρ} (h : k' ≠ k) (f : ρ → ρ) :
    (t.update k f).get? k' = t.get? k' := by
  refine get?_congr fun r => ?_
  simp only [update, List.mem_map]
  constructor
  · rintro ⟨e, he, hr⟩
    split at hr <;> rename_i hk
    · exact absurd (congrArg Prod.fst hr) (by rw [hk]; exact h.symm)
    · exact hr ▸ he
  · exact fun hr => ⟨_, hr, if_neg h⟩

theorem get?_update_self (t : Table κ ρ) (k : κ) (f : ρ → ρ) :
    (t.update k f).get? k = (t.get? k).map f := by
  refine Option.ext fun r => ?_
  rw [get?_eq_some_iff, Option.map_eq_some_iff]
  simp only [update, List.mem_map, get?_eq_some_iff]
  constructor
  · rintro ⟨e, he, hr⟩
    split at hr <;> rename_i hk
    · exact ⟨e.2, by rw [← hk]; exact he, (congrArg Prod.snd hr)⟩
    · exact absurd (congrArg Prod.fst hr) hk
  · rintro ⟨r', hr', rfl⟩
    exact ⟨_, hr', if_pos rfl⟩

theorem get?_update (t : Table κ ρ) (k k' : κ) (f : ρ → ρ) :
    (t.update k f).get? k' = if k' = k then (t.get? k).map f else t.get? k' := by
  split
  · subst k'; exact get?_update_self ..
  · exact get?_update_ne ‹_› f

theorem get?_of_update {t : Table κ ρ} {f : ρ → ρ} (h : (t.update k f).get? k' = some r') :
    ∃ r, t.get? k' = some r ∧ (r' = r ∨ r' = f r) := by
  rw [get?_update] at h
  split at h
  · obtain ⟨r, hr, rfl⟩ := Option.map_eq_some_iff.mp h
    exact ⟨r, ‹k' = k› ▸ hr, .inr rfl⟩
  · exact ⟨r', h, .inl rfl⟩

/-- An update outside a selection does not change the selection. -/
theorem select_update {t : Table κ ρ} {p : κ → ρ → Bool}
    (h : ∀ r, t.get? k = some r → p k r = false ∧ p k (f r) = false) :
    (t.update k f).select p = t.select p := by
  obtain ⟨l, hl⟩ := t
  have h' : ∀ e ∈ l, e.1 = k → p e.1 e.2 = false ∧ p e.1 (f e.2) = false := by
    rintro ⟨k', r⟩ he rfl
    exact h r (get?_eq_some_iff.mpr he)
  clear h
  simp only [select, update]
  clear hl
  induction l with
  | nil => rfl
  | cons e l ih =>
    have ih := ih fun e he => h' e (List.mem_cons_of_mem _ he)
    by_cases hk : e.1 = k
    · have he := h' e List.mem_cons_self hk
      simp only [List.map_cons, if_pos hk, List.filter_cons, he.1, he.2, Bool.false_eq_true,
        if_false, ih]
    · simp only [List.map_cons, if_neg hk, List.filter_cons, ih]

/-! ## Deletion -/

theorem get?_delete (t : Table κ ρ) (k k' : κ) :
    (t.delete k).get? k' = if k' = k then none else t.get? k' := by
  split
  · subst k'
    rw [get?_eq_none_iff]
    simp [delete]
  · rename_i h
    exact get?_congr fun r => by simp [delete, h]

theorem select_delete {t : Table κ ρ} {p : κ → ρ → Bool} (h : ∀ r, p k r = false) :
    (t.delete k).select p = t.select p := by
  simp only [select, delete, List.filter_filter]
  refine List.filter_congr fun e _ => ?_
  by_cases hk : e.1 = k
  · simp [hk, h]
  · simp [hk]

theorem delete_of_not_contains {t : Table κ ρ} (h : t.contains k = false) : t.delete k = t := by
  have hk := contains_eq_false_iff.mp h
  refine ext (List.filter_eq_self.mpr fun e he => ?_)
  exact decide_eq_true fun h => hk (h ▸ List.mem_map_of_mem he)

/-! ## Keys -/

theorem contains_of_get? {t : Table κ ρ} (h : t.get? k = some r) : t.contains k = true := by
  rw [contains, h]; rfl

theorem contains_iff {t : Table κ ρ} : t.contains k = true ↔ ∃ r, t.get? k = some r :=
  Option.isSome_iff_exists

theorem contains_insert (t : Table κ ρ) (k k' : κ) (r : ρ) :
    (t.insert k r).contains k' = true ↔ t.contains k' = true ∨ k' = k := by
  constructor
  · intro h
    obtain ⟨r', hr⟩ := contains_iff.mp h
    exact (get?_of_insert hr).imp contains_of_get? And.left
  · rintro (h | rfl)
    · obtain ⟨r', hr⟩ := contains_iff.mp h
      exact contains_of_get? (get?_insert_of_some hr k r)
    · cases h : t.contains k'
      · exact contains_of_get? (get?_insert_self h r)
      · rwa [insert_of_contains h]

theorem contains_update (t : Table κ ρ) (k k' : κ) (f : ρ → ρ) :
    (t.update k f).contains k' = t.contains k' := by
  rw [contains, contains, get?_update]
  split
  · subst k'; exact Option.isSome_map
  · rfl

theorem contains_delete (t : Table κ ρ) (k k' : κ) :
    (t.delete k).contains k' = true ↔ t.contains k' = true ∧ k' ≠ k := by
  rw [contains, contains, get?_delete]
  split <;> simp [*]

/-- What a key holds after an insertion depends on nothing but what it held before. -/
theorem get?_insert_congr {s t : Table κ ρ} (h : s.get? k' = t.get? k') (k : κ) (r : ρ) :
    (s.insert k r).get? k' = (t.insert k r).get? k' := by
  by_cases hk : k' = k
  · subst k'
    cases hs : s.contains k with
    | false =>
      have ht : t.contains k = false := by rw [contains, ← h]; exact hs
      rw [get?_insert_self hs, get?_insert_self ht]
    | true =>
      have ht : t.contains k = true := by rw [contains, ← h]; exact hs
      rw [insert_of_contains hs, insert_of_contains ht, h]
  · rw [get?_insert_ne hk, get?_insert_ne hk, h]

theorem get?_update_congr {s t : Table κ ρ} (h : s.get? k' = t.get? k') (k : κ) (f : ρ → ρ) :
    (s.update k f).get? k' = (t.update k f).get? k' := by
  rw [get?_update, get?_update]
  split
  · rename_i hk
    rw [← hk, h]
  · exact h

/-- Of two selected rows one has another key than the given one. -/
theorem exists_ne_of_one_lt {t : Table κ ρ} {p : κ → ρ → Bool} (h : 1 < (t.select p).length)
    (k : κ) : ∃ k' r, k' ≠ k ∧ t.get? k' = some r ∧ p k' r = true := by
  by_contra hne
  have hk : ∀ k' ∈ (t.select p).map Prod.fst, k' = k := by
    intro k' hk'
    obtain ⟨⟨k'', r⟩, he, rfl⟩ := List.mem_map.mp hk'
    by_contra h
    exact hne ⟨k'', r, h, mem_select.mp he⟩
  have hnd : ((t.select p).map Prod.fst).Nodup := t.nodup.sublist (List.filter_sublist.map _)
  rw [List.eq_replicate_of_mem hk, List.nodup_replicate, List.length_map] at hnd
  omega

/-! ## Unique columns -/

/-- No two rows agree in this column. -/
def Unique (t : Table κ ρ) (f : ρ → β) : Prop :=
  ∀ k r k' r', t.get? k = some r → t.get? k' = some r' → f r = f r' → k = k'

theorem unique_empty (f : ρ → β) : (empty : Table κ ρ).Unique f := by
  intro k r k' r' h
  rw [get?_empty] at h
  cases h

theorem Unique.insert {t : Table κ ρ} {f : ρ → β} (h : t.Unique f) (hk : t.contains k = false)
    (hne : ∀ k' r', t.get? k' = some r' → f r' ≠ f r) : (t.insert k r).Unique f := by
  intro k₁ r₁ k₂ r₂ h₁ h₂ he
  by_cases hk₁ : k₁ = k <;> by_cases hk₂ : k₂ = k
  · rw [hk₁, hk₂]
  · rw [hk₁, get?_insert_self hk] at h₁
    rw [get?_insert_ne hk₂] at h₂
    cases h₁
    exact absurd he.symm (hne _ _ h₂)
  · rw [get?_insert_ne hk₁] at h₁
    rw [hk₂, get?_insert_self hk] at h₂
    cases h₂
    exact absurd he (hne _ _ h₁)
  · rw [get?_insert_ne hk₁] at h₁
    rw [get?_insert_ne hk₂] at h₂
    exact h _ _ _ _ h₁ h₂ he

/-- A change of rows that leaves the column alone. -/
theorem Unique.map {s t : Table κ ρ} {f : ρ → β} {g : ρ → ρ} (h : s.Unique f)
    (ht : ∀ k, t.get? k = (s.get? k).map g) (hg : ∀ r, f (g r) = f r) : t.Unique f := by
  intro k r k' r' hr hr' he
  rw [ht] at hr hr'
  obtain ⟨r₀, h₀, rfl⟩ := Option.map_eq_some_iff.mp hr
  obtain ⟨r₀', h₀', rfl⟩ := Option.map_eq_some_iff.mp hr'
  rw [hg, hg] at he
  exact h _ _ _ _ h₀ h₀' he

/-- The row that a search by a unique column finds. -/
theorem Unique.head?_select [DecidableEq β] {t : Table κ ρ} {f : ρ → β} (h : t.Unique f) {b : β} :
    (t.select fun _ r => f r = b).head? = some (k, r) ↔ t.get? k = some r ∧ f r = b := by
  constructor
  · intro hs
    have hm := mem_select.mp (List.mem_of_head? hs)
    exact ⟨hm.1, of_decide_eq_true hm.2⟩
  · rintro ⟨hr, hb⟩
    cases hs : (t.select fun _ r => f r = b).head? with
    | none =>
      have hm : (k, r) ∈ t.select fun _ r => f r = b := mem_select.mpr ⟨hr, decide_eq_true hb⟩
      rw [List.head?_eq_none_iff.mp hs] at hm
      cases hm
    | some e =>
      obtain ⟨k', r'⟩ := e
      obtain ⟨hr', hb'⟩ := mem_select.mp (List.mem_of_head? hs)
      cases h _ _ _ _ hr' hr ((of_decide_eq_true hb').trans hb.symm)
      cases hr'.symm.trans hr
      rfl

/-! ## Insertion of several rows -/

/-- New rows are appended, if their keys are new and no two of them equal. -/
theorem insertAll_rows {es : List (κ × ρ)} {t : Table κ ρ} (hnd : (es.map Prod.fst).Nodup)
    (hnew : ∀ e ∈ es, t.contains e.1 = false) : (t.insertAll es).rows = t.rows ++ es := by
  induction es generalizing t with
  | nil => exact (List.append_nil _).symm
  | cons e es ih =>
    obtain ⟨hne, hnd⟩ := List.nodup_cons.mp hnd
    have hrows := ih (t := t.insert e.1 e.2) hnd fun e' he' => by
      rw [← Bool.not_eq_true, contains_insert, not_or, Bool.not_eq_true]
      refine ⟨hnew e' (List.mem_cons_of_mem _ he'), fun he => hne ?_⟩
      exact he ▸ List.mem_map_of_mem he'
    rw [insert_rows (hnew e List.mem_cons_self), List.append_assoc] at hrows
    exact hrows

theorem get?_insertAll_of_mem {es : List (κ × ρ)} {t : Table κ ρ} (hnd : (es.map Prod.fst).Nodup)
    (hnew : ∀ e ∈ es, t.contains e.1 = false) (h : (k, r) ∈ es) :
    (t.insertAll es).get? k = some r := by
  rw [get?_eq_some_iff, insertAll_rows hnd hnew]
  exact List.mem_append_right _ h

theorem get?_insertAll_of_some {es : List (κ × ρ)} {t : Table κ ρ} (h : t.get? k = some r) :
    (t.insertAll es).get? k = some r := by
  induction es generalizing t with
  | nil => exact h
  | cons e es ih => exact ih (get?_insert_of_some h e.1 e.2)

/-- The rows after it are old ones or the appended ones. -/
theorem get?_of_insertAll {es : List (κ × ρ)} {t : Table κ ρ}
    (h : (t.insertAll es).get? k = some r) : t.get? k = some r ∨ (k, r) ∈ es := by
  induction es generalizing t with
  | nil => exact .inl h
  | cons e es ih =>
    rcases ih h with hinsert | hmem
    · rcases get?_of_insert hinsert with hold | ⟨rfl, rfl⟩
      · exact .inl hold
      · exact .inr List.mem_cons_self
    · exact .inr (List.mem_cons_of_mem _ hmem)

theorem select_insertAll {es : List (κ × ρ)} {t : Table κ ρ} {p : κ → ρ → Bool}
    (h : ∀ e ∈ es, p e.1 e.2 = false) : (t.insertAll es).select p = t.select p := by
  induction es generalizing t with
  | nil => rfl
  | cons e es ih =>
    exact (ih fun e' he' => h e' (List.mem_cons_of_mem _ he')).trans
      (select_insert (h e List.mem_cons_self))

/-- At most the rows themselves are added, in their order. -/
theorem select_insertAll_sublist (es : List (κ × ρ)) (t : Table κ ρ) (p : κ → ρ → Bool) :
    ((t.insertAll es).select p).Sublist (t.select p ++ es.filter fun e => p e.1 e.2) := by
  induction es generalizing t with
  | nil => rw [List.filter_nil, List.append_nil]; exact List.Sublist.refl _
  | cons e es ih =>
    refine (ih (t.insert e.1 e.2)).trans ?_
    have hhead : (List.filter (fun e => p e.1 e.2) [e] ++ es.filter fun e => p e.1 e.2) =
        (e :: es).filter fun e => p e.1 e.2 := (List.filter_append [e] es).symm
    rw [← hhead, ← List.append_assoc]
    refine List.Sublist.append_right ?_ _
    rcases insert_rows_cases t e.1 e.2 with h | h
    · rw [select, h]
      exact List.sublist_append_left ..
    · rw [select, h, List.filter_append]
      exact List.Sublist.refl _

/-! ## Restriction -/

/-- The table without the rows that fail a test. -/
def filter (t : Table κ ρ) (p : κ → ρ → Bool) : Table κ ρ :=
  ⟨t.select p, t.nodup.sublist (List.filter_sublist.map _)⟩

variable {t : Table κ ρ} {p : κ → ρ → Bool}

omit [DecidableEq κ] in
theorem mem_filter_rows : (k, r) ∈ (t.filter p).rows ↔ (k, r) ∈ t.rows ∧ p k r = true :=
  List.mem_filter

theorem get?_filter (t : Table κ ρ) (p : κ → ρ → Bool) (k : κ) :
    (t.filter p).get? k = (t.get? k).filter (p k) := by
  refine Option.ext fun r => ?_
  rw [get?_eq_some_iff, mem_filter_rows, Option.filter_eq_some_iff, get?_eq_some_iff]

/-- A key whose row, if any, passes the test is looked up as before. -/
theorem get?_filter_of (h : ∀ r, t.get? k = some r → p k r = true) :
    (t.filter p).get? k = t.get? k := by
  rw [get?_filter]
  cases hk : t.get? k with
  | none => rfl
  | some r => exact Option.filter_some_pos (h r hk)

/-- A key whose row, if any, fails the test is gone. -/
theorem get?_filter_eq_none (h : ∀ r, t.get? k = some r → p k r = false) :
    (t.filter p).get? k = none := by
  rw [get?_filter, Option.filter_eq_none_iff]
  intro r hr
  simp [h r hr]

theorem contains_filter_of (h : ∀ r, t.get? k = some r → p k r = true) :
    (t.filter p).contains k = t.contains k := by
  rw [contains, contains, get?_filter_of h]

omit [DecidableEq κ] in
theorem select_filter {q : κ → ρ → Bool} (h : ∀ k r, q k r = true → p k r = true) :
    (t.filter p).select q = t.select q := by
  simp only [select, filter, List.filter_filter]
  refine List.filter_congr fun e _ => ?_
  cases hq : q e.1 e.2
  · simp
  · simp [h _ _ hq]

theorem filter_insert {r : ρ} (h : ∀ r', t.get? k = some r' → p k r' = true)
    (hp : p k r = true) : (t.insert k r).filter p = (t.filter p).insert k r := by
  cases hk : t.contains k
  · have hk' : (t.filter p).contains k = false := (contains_filter_of h).trans hk
    refine ext ?_
    rw [insert_rows hk']
    simp [filter, select, insert_rows hk, hp]
  · rw [insert_of_contains hk, insert_of_contains ((contains_filter_of h).trans hk)]

theorem filter_insertAll {es : List (κ × ρ)} (h : ∀ e ∈ es, ∀ r, p e.1 r = true) :
    (t.insertAll es).filter p = (t.filter p).insertAll es := by
  induction es generalizing t with
  | nil => rfl
  | cons e es ih =>
    have he := h e List.mem_cons_self
    have hes := ih (t := t.insert e.1 e.2) fun e he => h e (List.mem_cons_of_mem _ he)
    rw [filter_insert (fun r _ => he r) (he e.2)] at hes
    exact hes

theorem filter_update {f : ρ → ρ} (h : ∀ r, t.get? k = some r → p k (f r) = p k r) :
    (t.update k f).filter p = (t.filter p).update k f := by
  refine ext ?_
  simp only [filter, select, update, List.filter_map]
  refine congrArg (List.map _) (List.filter_congr fun e he => ?_)
  simp only [Function.comp_apply]
  split
  · subst k
    exact h e.2 (get?_eq_some_iff.mpr he)
  · rfl

theorem filter_delete (t : Table κ ρ) (p : κ → ρ → Bool) (k : κ) :
    (t.delete k).filter p = (t.filter p).delete k := by
  refine ext ?_
  simp only [filter, select, delete, List.filter_filter, Bool.and_comm]

end Table
