import Mathlib.Algebra.Order.BigOperators.Group.List
import Mathlib.Algebra.Order.Field.Basic
import Mathlib.Data.List.Dedup
import Mathlib.Data.List.Sort

/-!
# Grouped lists

The elements of a list by a key, in ascending order of the keys, and what the least value, the
greatest value and the mean of each group say about the whole list; elements may lack a value. The
least of the least is the least of all (`min?_groups`, `max?_groups`). The mean of the means is the
mean of all when the groups have equally many values (`mean?_groups`), and between the extremes in
any case (`le_mean?_groups`, `mean?_groups_le`). The first element of a group of an ordered list
precedes the rest of the group (`distinctOn_le`).
-/

namespace Groups

variable {α κ ν : Type*} [LinearOrder κ]

/-- The distinct keys of a list, in ascending order. -/
def keys (key : α → κ) (l : List α) : List κ := ((l.map key).dedup).insertionSort (· ≤ ·)

/-- The elements with a given key. -/
def group (key : α → κ) (l : List α) (k : κ) : List α := l.filter fun a => key a = k

section
variable {key : α → κ} {l : List α}

theorem mem_keys {k : κ} : k ∈ keys key l ↔ ∃ a ∈ l, key a = k := by
  rw [keys, List.mem_insertionSort, List.mem_dedup, List.mem_map]

theorem mem_group {k : κ} : a ∈ group key l k ↔ a ∈ l ∧ key a = k := by
  rw [group, List.mem_filter, decide_eq_true_iff]

theorem keys_sorted (key : α → κ) (l : List α) : (keys key l).Pairwise (· < ·) := by
  have hnodup : (keys key l).Nodup :=
    (List.perm_insertionSort (· ≤ ·) (l.map key).dedup).nodup_iff.mpr (List.nodup_dedup _)
  have hsorted : (keys key l).Pairwise (· ≤ ·) := List.pairwise_insertionSort ..
  exact hsorted.imp₂ (fun _ _ => lt_of_le_of_ne) hnodup

/-- The keys are determined by the elements. -/
theorem eq_keys {ks : List κ} (hs : ks.Pairwise (· < ·)) (h : ∀ k, k ∈ ks ↔ ∃ a ∈ l, key a = k) :
    ks = keys key l :=
  hs.eq_of_mem_iff (keys_sorted key l) fun k => (h k).trans mem_keys.symm

theorem keys_filter (p : κ → Bool) :
    keys key (l.filter fun a => p (key a)) = (keys key l).filter p := by
  refine (eq_keys ((keys_sorted key l).sublist List.filter_sublist) fun k => ?_).symm
  rw [List.mem_filter, mem_keys]
  constructor
  · rintro ⟨⟨a, ha, rfl⟩, hp⟩
    exact ⟨a, List.mem_filter.mpr ⟨ha, hp⟩, rfl⟩
  · rintro ⟨a, ha, rfl⟩
    have ha := List.mem_filter.mp ha
    exact ⟨⟨a, ha.1, rfl⟩, ha.2⟩

/-- The keys of the keys. -/
theorem keys_keys [LinearOrder ν] (coarse : κ → ν) :
    keys coarse (keys key l) = keys (fun a => coarse (key a)) l := by
  refine eq_keys (keys_sorted ..) fun n => ?_
  rw [mem_keys]
  constructor
  · rintro ⟨k, hk, rfl⟩
    obtain ⟨a, ha, rfl⟩ := mem_keys.mp hk
    exact ⟨a, ha, rfl⟩
  · rintro ⟨a, ha, rfl⟩
    exact ⟨key a, mem_keys.mpr ⟨a, ha, rfl⟩, rfl⟩

/-- The elements with one key among those that a test of the keys accepts. -/
theorem group_filter {p : κ → Bool} {k : κ} (h : p k = true) :
    group key (l.filter fun a => p (key a)) k = group key l k := by
  rw [group, group, List.filter_filter]
  refine List.filter_congr fun a _ => ?_
  by_cases hk : key a = k
  · simp [hk, h]
  · simp [hk]

/-- Groups of different keys that cover a list are the list. -/
theorem flatMap_perm {ks : List κ} (hks : ks.Nodup) (h : ∀ a ∈ l, key a ∈ ks) :
    (ks.flatMap (group key l)).Perm l := by
  induction ks generalizing l with
  | nil =>
    have hl : l = [] := List.eq_nil_iff_forall_not_mem.mpr fun a ha => List.not_mem_nil (h a ha)
    rw [hl]
    exact .refl _
  | cons k ks ih =>
    obtain ⟨hk, hks⟩ := List.nodup_cons.mp hks
    let rest := l.filter fun a => !decide (key a = k)
    have hrest : (ks.flatMap (group key rest)).Perm rest := by
      refine ih hks fun a ha => ?_
      have ha := List.mem_filter.mp ha
      exact (List.mem_cons.mp (h a ha.1)).resolve_left (by simpa using ha.2)
    have hgroups : ks.flatMap (group key rest) = ks.flatMap (group key l) := by
      refine List.flatMap_congr fun k' hk' => ?_
      refine group_filter (p := fun k' => !decide (k' = k)) ?_
      have hne : k' ≠ k := fun heq => hk (heq ▸ hk')
      simpa using hne
    rw [List.flatMap_cons, ← hgroups]
    exact (hrest.append_left _).trans (List.filter_append_perm (fun a => decide (key a = k)) l)

/-- The groups hold all elements, each once. -/
theorem flatMap_group_perm (key : α → κ) (l : List α) :
    ((keys key l).flatMap (group key l)).Perm l :=
  flatMap_perm ((keys_sorted key l).imp ne_of_lt) fun a ha => mem_keys.mpr ⟨a, ha, rfl⟩

/-- The values of the elements with a given key. -/
def values (key : α → κ) (f : α → Option ν) (l : List α) (k : κ) : List ν :=
  (group key l k).filterMap f

theorem mem_values (key : α → κ) {f : α → Option ν} {l : List α} {x : ν} :
    (∃ k ∈ keys key l, x ∈ values key f l k) ↔ ∃ a ∈ l, f a = some x := by
  simp only [values, List.mem_filterMap]
  constructor
  · rintro ⟨k, _, a, ha, hx⟩
    exact ⟨a, (mem_group.mp ha).1, hx⟩
  · rintro ⟨a, ha, hx⟩
    exact ⟨key a, mem_keys.mpr ⟨a, ha, rfl⟩, a, mem_group.mpr ⟨ha, rfl⟩, hx⟩

theorem flatMap_values_perm (key : α → κ) (f : α → Option ν) (l : List α) :
    ((keys key l).flatMap (values key f l)).Perm (l.filterMap f) := by
  have h := (flatMap_group_perm key l).filterMap f
  rwa [List.filterMap_flatMap] at h

end

/-! ## Extremes -/

section
variable [LinearOrder ν] (key : α → κ) (f : α → Option ν) (l : List α)

/-- The least of the least values. -/
theorem min?_groups : ((keys key l).filterMap fun k => (values key f l k).min?).min? =
    (l.filterMap f).min? := by
  refine Option.ext fun m => ?_
  simp only [List.min?_eq_some_iff, List.mem_filterMap, ← mem_values key]
  constructor
  · rintro ⟨⟨k, hk, hm, _⟩, hle⟩
    refine ⟨⟨k, hk, hm⟩, ?_⟩
    rintro x ⟨k', hk', hx⟩
    obtain ⟨y, hy⟩ := Option.isSome_iff_exists.mp (List.isSome_min?_of_mem hx)
    have hy := List.min?_eq_some_iff.mp hy
    exact (hle y ⟨k', hk', hy⟩).trans (hy.2 x hx)
  · rintro ⟨⟨k, hk, hm⟩, hle⟩
    refine ⟨⟨k, hk, hm, fun x hx => hle x ⟨k, hk, hx⟩⟩, ?_⟩
    rintro x ⟨k', hk', hx, _⟩
    exact hle x ⟨k', hk', hx⟩

/-- The greatest of the greatest values. -/
theorem max?_groups : ((keys key l).filterMap fun k => (values key f l k).max?).max? =
    (l.filterMap f).max? := by
  refine Option.ext fun m => ?_
  simp only [List.max?_eq_some_iff, List.mem_filterMap, ← mem_values key]
  constructor
  · rintro ⟨⟨k, hk, hm, _⟩, hle⟩
    refine ⟨⟨k, hk, hm⟩, ?_⟩
    rintro x ⟨k', hk', hx⟩
    obtain ⟨y, hy⟩ := Option.isSome_iff_exists.mp (List.isSome_max?_of_mem hx)
    have hy := List.max?_eq_some_iff.mp hy
    exact (hy.2 x hx).trans (hle y ⟨k', hk', hy⟩)
  · rintro ⟨⟨k, hk, hm⟩, hle⟩
    refine ⟨⟨k, hk, hm, fun x hx => hle x ⟨k, hk, hx⟩⟩, ?_⟩
    rintro x ⟨k', hk', hx, _⟩
    exact hle x ⟨k', hk', hx⟩

end

/-! ## Means -/

section
variable {K : Type*} [Field K]

def mean (xs : List K) : K := xs.sum / xs.length

theorem mean_perm {xs ys : List K} (h : xs.Perm ys) : mean xs = mean ys := by
  rw [mean, mean, h.sum_eq, h.length_eq]

def mean? (xs : List K) : Option K := if xs = [] then none else some (mean xs)

theorem mean?_eq_none {xs : List K} : mean? xs = none ↔ xs = [] := by
  rw [mean?]
  split <;> simp [*]

theorem mean?_eq_some {xs : List K} {a : K} : mean? xs = some a ↔ xs ≠ [] ∧ mean xs = a := by
  rw [mean?]
  split <;> simp [*]

theorem mean?_perm {xs ys : List K} (h : xs.Perm ys) : mean? xs = mean? ys := by
  rw [mean?, mean?, mean_perm h]
  exact if_congr ⟨fun hx => (hx ▸ h).symm.eq_nil, fun hy => (hy ▸ h).eq_nil⟩ rfl rfl

/-- The mean of the means of lists of one length. -/
theorem mean_flatMap {ι : Type*} {is : List ι} {g : ι → List K} {n : ℕ}
    (h : ∀ i ∈ is, (g i).length = n) :
    mean (is.flatMap g) = mean (is.map fun i => mean (g i)) := by
  have hsums : (is.flatMap g).length = is.length * n ∧
      (is.map fun i => mean (g i)).sum = (is.flatMap g).sum / n := by
    induction is with
    | nil => simp
    | cons i is ih =>
      obtain ⟨hlen, hsum⟩ := ih fun j hj => h j (List.mem_cons_of_mem _ hj)
      have hi := h i List.mem_cons_self
      constructor
      · rw [List.flatMap_cons, List.length_append, hlen, hi, List.length_cons, Nat.succ_mul,
          Nat.add_comm]
      · rw [List.map_cons, List.sum_cons, hsum, List.flatMap_cons, List.sum_append, mean, hi,
          add_div]
  rw [mean, mean, hsums.1, hsums.2, List.length_map, Nat.cast_mul, div_div, mul_comm]

section
variable {key : α → κ} {f : α → Option K} {l : List α}

/-- The means of the groups. -/
theorem mem_means {x : K} : x ∈ ((keys key l).filterMap fun k => mean? (values key f l k)) ↔
    ∃ k ∈ keys key l, values key f l k ≠ [] ∧ mean (values key f l k) = x := by
  simp only [List.mem_filterMap, mean?_eq_some]

theorem means_eq_nil : ((keys key l).filterMap fun k => mean? (values key f l k)) = [] ↔
    l.filterMap f = [] := by
  simp only [List.filterMap_eq_nil_iff, mean?_eq_none, values]
  constructor
  · intro h a ha
    exact h (key a) (mem_keys.mpr ⟨a, ha, rfl⟩) a (mem_group.mpr ⟨ha, rfl⟩)
  · exact fun h k _ a ha => h a (mem_group.mp ha).1

/-- The mean of the means is the mean when the groups that have values have equally many. -/
theorem mean?_groups {n : ℕ}
    (h : ∀ k ∈ keys key l, values key f l k ≠ [] → (values key f l k).length = n) :
    mean? ((keys key l).filterMap fun k => mean? (values key f l k)) = mean? (l.filterMap f) := by
  let ks := (keys key l).filter fun k => !(values key f l k).isEmpty
  have hks {k : κ} : k ∈ ks ↔ k ∈ keys key l ∧ values key f l k ≠ [] := by
    simp [ks, List.mem_filter]
  have hmeans : ((keys key l).filterMap fun k => mean? (values key f l k)) =
      ks.map fun k => mean (values key f l k) := by
    rw [← List.filterMap_eq_map, List.filterMap_filter]
    refine List.filterMap_congr fun k _ => ?_
    cases hv : values key f l k <;> simp [mean?, hv]
  have hvalues : (ks.flatMap (values key f l)).Perm (l.filterMap f) := by
    have hall : (keys key l).flatMap (values key f l) = ks.flatMap (values key f l) := by
      rw [List.flatMap_def, List.flatMap_def, ← List.flatten_filter_not_isEmpty, List.filter_map]
      rfl
    exact hall ▸ flatMap_values_perm key f l
  rw [hmeans, ← mean?_perm hvalues, mean?, mean?,
    mean_flatMap fun k hk => h k (hks.mp hk).1 (hks.mp hk).2]
  refine if_congr ?_ rfl rfl
  rw [List.map_eq_nil_iff, List.flatMap_eq_nil_iff]
  exact ⟨fun hnil k hk => absurd hk (hnil ▸ List.not_mem_nil),
    fun hnil => List.eq_nil_iff_forall_not_mem.mpr fun k hk => (hks.mp hk).2 (hnil k hk)⟩

variable [LinearOrder K] [IsStrictOrderedRing K] {a m : K}

theorem le_mean {xs : List K} (hne : xs ≠ []) (h : ∀ x ∈ xs, a ≤ x) : a ≤ mean xs := by
  have hpos : (0 : K) < xs.length := Nat.cast_pos.mpr (List.length_pos_of_ne_nil hne)
  rw [mean, le_div_iff₀ hpos, mul_comm, ← nsmul_eq_mul]
  exact List.card_nsmul_le_sum xs a h

theorem mean_le {xs : List K} (hne : xs ≠ []) (h : ∀ x ∈ xs, x ≤ a) : mean xs ≤ a := by
  have hpos : (0 : K) < xs.length := Nat.cast_pos.mpr (List.length_pos_of_ne_nil hne)
  rw [mean, div_le_iff₀ hpos, mul_comm, ← nsmul_eq_mul]
  exact List.sum_le_card_nsmul xs a h

/-- The mean of the means is not below all values. -/
theorem le_mean?_groups (h : ∀ x ∈ l.filterMap f, a ≤ x)
    (hm : mean? ((keys key l).filterMap fun k => mean? (values key f l k)) = some m) : a ≤ m := by
  obtain ⟨hne, rfl⟩ := mean?_eq_some.mp hm
  refine le_mean hne fun x hx => ?_
  obtain ⟨k, hk, hv, rfl⟩ := mem_means.mp hx
  refine le_mean hv fun y hy => h y ?_
  exact List.mem_filterMap.mpr ((mem_values key).mp ⟨k, hk, hy⟩)

/-- The mean of the means is not above all values. -/
theorem mean?_groups_le (h : ∀ x ∈ l.filterMap f, x ≤ a)
    (hm : mean? ((keys key l).filterMap fun k => mean? (values key f l k)) = some m) : m ≤ a := by
  obtain ⟨hne, rfl⟩ := mean?_eq_some.mp hm
  refine mean_le hne fun x hx => ?_
  obtain ⟨k, hk, hv, rfl⟩ := mem_means.mp hx
  refine mean_le hv fun y hy => h y ?_
  exact List.mem_filterMap.mpr ((mem_values key).mp ⟨k, hk, hy⟩)

end

end

/-! ## The first element of each group -/

section
variable {α κ : Type*} [DecidableEq κ] {key : α → κ} {l : List α} {a b : α}

/-- The first element of each key, in their order. -/
def distinctOn (key : α → κ) : List α → List α
  | [] => []
  | a :: l => a :: (distinctOn key l).filter fun b => key b ≠ key a

theorem mem_of_distinctOn (h : a ∈ distinctOn key l) : a ∈ l := by
  induction l with
  | nil => exact h
  | cons b l ih =>
    rcases List.mem_cons.mp h with rfl | h
    · exact List.mem_cons_self
    · exact List.mem_cons_of_mem _ (ih (List.mem_filter.mp h).1)

/-- Every group has a first element. -/
theorem exists_distinctOn (h : a ∈ l) : ∃ b ∈ distinctOn key l, key b = key a := by
  induction l with
  | nil => cases h
  | cons c l ih =>
    rcases List.mem_cons.mp h with rfl | h
    · exact ⟨a, List.mem_cons_self, rfl⟩
    · obtain ⟨b, hb, hkey⟩ := ih h
      by_cases hc : key b = key c
      · exact ⟨c, List.mem_cons_self, hc.symm.trans hkey⟩
      · exact ⟨b, List.mem_cons_of_mem _ (List.mem_filter.mpr ⟨hb, decide_eq_true hc⟩), hkey⟩

/-- In a list with an order, the first element of a group precedes the others. -/
theorem distinctOn_le {R : α → α → Prop} (hl : l.Pairwise R) (ha : a ∈ distinctOn key l)
    (hb : b ∈ l) (hkey : key b = key a) : a = b ∨ R a b := by
  induction l with
  | nil => cases hb
  | cons c l ih =>
    obtain ⟨hc, hl⟩ := List.pairwise_cons.mp hl
    rcases List.mem_cons.mp ha with rfl | ha
    · exact (List.mem_cons.mp hb).imp Eq.symm (hc b)
    · obtain ⟨ha, hne⟩ := List.mem_filter.mp ha
      rcases List.mem_cons.mp hb with rfl | hb
      · exact absurd hkey.symm (of_decide_eq_true hne)
      · exact ih hl ha hb

end

end Groups
