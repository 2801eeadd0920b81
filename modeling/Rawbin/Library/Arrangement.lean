import Mathlib.Data.List.Sort
import Mathlib.Order.Basic
import Rawbin.Library.Table

/-!
# Arrangements

A list sorted by a key, with elements of equal keys in any order, and pages that are cut from
several such arrangements of the same elements. The keys of an arrangement are always the same; its
first `m` elements are the same up to their order exactly when no elements of equal keys lie on both
sides of `m`.
-/

/-- `l` has the elements of `rows`, those with the greatest keys first. -/
structure Arranges {α κ : Type} [LinearOrder κ] (key : α → κ) (rows l : List α) : Prop where
  perm : l.Perm rows
  sorted : l.Pairwise fun a b => key b ≤ key a

/-- Elements of equal keys lie on both sides of the position `m`. -/
def Straddles {α κ : Type} [LinearOrder κ] (key : α → κ) (rows : List α) (m : ℕ) : Prop :=
  ∃ a ∈ rows, (rows.countP fun b => key a < key b) < m ∧ m < rows.countP fun b => key a ≤ key b

/-- The pages of `L` elements, the `k`th one cut from the `k`th list. -/
def pages {α : Type} (L n : ℕ) (o : ℕ → List α) : List α :=
  (List.range n).flatMap fun k => ((o k).drop (k * L)).take L

section
variable {α κ : Type} [LinearOrder κ] {key : α → κ} {rows l l' : List α} {o : ℕ → List α}
variable {L k n m : ℕ}

/-- The first element of an arrangement has the greatest key. -/
theorem Arranges.of_head? {a : α} (h : Arranges key rows l) (ha : l.head? = some a) :
    a ∈ rows ∧ ∀ b ∈ rows, key b ≤ key a := by
  obtain ⟨l', rfl⟩ := List.head?_eq_some_iff.mp ha
  refine ⟨h.perm.mem_iff.mp List.mem_cons_self, fun b hb => ?_⟩
  rcases List.mem_cons.mp (h.perm.mem_iff.mpr hb) with rfl | hb
  · exact le_rfl
  · exact (List.pairwise_cons.mp h.sorted).1 b hb

theorem Arranges.head?_eq_none_iff (h : Arranges key rows l) : l.head? = none ↔ rows = [] := by
  rw [List.head?_eq_none_iff, ← List.length_eq_zero_iff, h.perm.length_eq, List.length_eq_zero_iff]

@[simp] theorem pages_zero : pages L 0 o = [] := rfl

theorem pages_succ : pages L (n + 1) o = pages L n o ++ ((o n).drop (n * L)).take L := by
  rw [pages, List.range_succ, List.flatMap_append, List.flatMap_singleton]
  rfl

theorem pages_mono (hmn : m ≤ n) : pages L m o <+: pages L n o := by
  induction hmn with
  | refl => exact List.prefix_rfl
  | step _ ih =>
    rw [pages_succ]
    exact ih.trans (List.prefix_append _ _)

/-- The pages of one list are a prefix of it. -/
theorem pages_const (l : List α) : pages L n (fun _ => l) = l.take (n * L) := by
  induction n with
  | zero => rw [pages_zero, Nat.zero_mul, List.take_zero]
  | succ n ih => rw [pages_succ, ih, ← List.take_add, Nat.succ_mul]

theorem map_pages {β : Type} (f : α → β) :
    (pages L n o).map f = pages L n fun k => (o k).map f := by
  rw [pages, List.map_flatMap]
  refine List.flatMap_congr fun k _ => ?_
  rw [List.map_take, List.map_drop]

/-- What is closed under greater keys is at the front of a sorted list. -/
theorem filter_eq_takeWhile {p : α → Bool} (hp : ∀ a b, key b ≤ key a → p b = true → p a = true)
    (h : l.Pairwise fun a b => key b ≤ key a) : l.filter p = l.takeWhile p := by
  induction l with
  | nil => rfl
  | cons a l ih =>
    obtain ⟨ha, hl⟩ := List.pairwise_cons.mp h
    cases hpa : p a with
    | true => rw [List.filter_cons_of_pos hpa, List.takeWhile_cons_of_pos hpa, ih hl]
    | false =>
      have hpa' : ¬ p a = true := by rw [hpa]; nofun
      rw [List.takeWhile_cons_of_neg hpa', List.filter_cons_of_neg hpa', List.filter_eq_nil_iff]
      exact fun b hb hpb => hpa' (hp a b (ha b hb) hpb)

namespace Arranges

/-- The keys of all arrangements are the same. -/
theorem keys (h : Arranges key rows l) (h' : Arranges key rows l') : l.map key = l'.map key := by
  refine List.Perm.eq_of_pairwise (fun a b _ _ (h : a ≥ b) h' => le_antisymm h' h) ?_ ?_ ?_
  · exact List.pairwise_map.mpr h.sorted
  · exact List.pairwise_map.mpr h'.sorted
  · exact (h.perm.trans h'.perm.symm).map key

theorem filter_eq_take (h : Arranges key rows l) {p : α → Bool}
    (hp : ∀ a b, key b ≤ key a → p b = true → p a = true) :
    l.filter p = l.take (rows.countP p) := by
  rw [← h.perm.countP_eq p, List.countP_eq_length_filter, filter_eq_takeWhile hp h.sorted]
  exact List.prefix_iff_eq_take.mp (List.takeWhile_prefix p)

/-- Which positions satisfy a predicate that is closed under greater keys. -/
theorem apply_getElem_iff (h : Arranges key rows l) {p : α → Bool}
    (hp : ∀ a b, key b ≤ key a → p b = true → p a = true) (hm : m < l.length) :
    p l[m] = true ↔ m < rows.countP p := by
  constructor
  · intro hpm
    have hall : ∀ b ∈ l.take (m + 1), p b = true := by
      intro b hb
      obtain ⟨i, hi, rfl⟩ := List.mem_take_iff_getElem.mp hb
      rcases Nat.lt_or_ge i m with him | him
      · exact hp _ _ (List.pairwise_iff_getElem.mp h.sorted i m (by omega) hm him) hpm
      · obtain rfl : i = m := by omega
        exact hpm
    have hcount := (List.take_sublist (m + 1) l).countP_le (p := p)
    rw [List.countP_eq_length.mpr hall, List.length_take, h.perm.countP_eq] at hcount
    omega
  · intro hlt
    have hmem : l[m] ∈ l.filter p := by
      rw [h.filter_eq_take hp]
      exact List.mem_take_iff_getElem.mpr ⟨m, by omega, rfl⟩
    exact (List.mem_filter.mp hmem).2

theorem lt_getElem_iff (h : Arranges key rows l) (hm : m < l.length) (k : κ) :
    k < key l[m] ↔ m < rows.countP fun b => k < key b := by
  rw [← h.apply_getElem_iff (fun a b hba hb => ?_) hm, decide_eq_true_iff]
  exact decide_eq_true ((of_decide_eq_true hb).trans_le hba)

theorem le_getElem_iff (h : Arranges key rows l) (hm : m < l.length) (k : κ) :
    k ≤ key l[m] ↔ m < rows.countP fun b => k ≤ key b := by
  rw [← h.apply_getElem_iff (fun a b hba hb => ?_) hm, decide_eq_true_iff]
  exact decide_eq_true ((of_decide_eq_true hb).trans hba)

/-- Where nothing straddles, the first elements are the same up to their order. -/
theorem take_perm (h : Arranges key rows l) (h' : Arranges key rows l')
    (hm : ¬ Straddles key rows m) : (l.take m).Perm (l'.take m) := by
  have hlen := h.perm.length_eq
  rcases Nat.lt_or_ge m (rows.length + 1) with hlt | hge
  · cases m with
    | zero => simp
    | succ m =>
      have hml : m < l.length := by omega
      -- All elements with the key at position `m` come before position `m + 1`.
      have hcount : (rows.countP fun b => key l[m] ≤ key b) = m + 1 := by
        have hbefore := (h.lt_getElem_iff hml (key l[m])).not.mp (lt_irrefl _)
        have hafter := (h.le_getElem_iff hml (key l[m])).mp le_rfl
        by_contra hne
        exact hm ⟨l[m], h.perm.mem_iff.mp (List.getElem_mem hml), by omega, by omega⟩
      have hclosed (a b : α) (hba : key b ≤ key a) (hb : decide (key l[m] ≤ key b) = true) :
          decide (key l[m] ≤ key a) = true :=
        decide_eq_true ((of_decide_eq_true hb).trans hba)
      rw [← hcount, ← h.filter_eq_take hclosed, ← h'.filter_eq_take hclosed]
      exact (h.perm.trans h'.perm.symm).filter _
  · rw [List.take_of_length_le (by omega), List.take_of_length_le
      (by rw [h'.perm.length_eq]; omega)]
    exact h.perm.trans h'.perm.symm

/-- Two neighbours with equal keys may change places. -/
theorem swap {l₁ l₂ : List α} {a b : α} (h : Arranges key rows (l₁ ++ a :: b :: l₂))
    (hab : key a = key b) : Arranges key rows (l₁ ++ b :: a :: l₂) := by
  have hperm : (l₁ ++ b :: a :: l₂).Perm (l₁ ++ a :: b :: l₂) :=
    (List.Perm.swap a b l₂).append_left l₁
  refine ⟨hperm.trans h.perm, ?_⟩
  have hkeys : (l₁ ++ b :: a :: l₂).map key = (l₁ ++ a :: b :: l₂).map key := by
    simp only [List.map_append, List.map_cons, hab]
  have hsorted := h.sorted
  rw [← List.pairwise_map (R := (· ≥ ·)), ← hkeys] at hsorted
  exact List.pairwise_map.mp hsorted

/-- Two neighbours with equal keys, one on each side of a position that is straddled. -/
theorem exists_neighbours (h : Arranges key rows l) (hm : Straddles key rows (m + 1)) :
    ∃ l₁ a b l₂, l = l₁ ++ a :: b :: l₂ ∧ l₁.length = m ∧ key a = key b := by
  obtain ⟨c, _, hlt, hle⟩ := hm
  have hlen : m + 1 < l.length := by
    have hcount := rows.countP_le_length (p := fun b => key c ≤ key b)
    have hlen := h.perm.length_eq
    omega
  have hkey (i : ℕ) (hi : i < l.length) (hfrom : (rows.countP fun b => key c < key b) ≤ i)
      (hto : i < rows.countP fun b => key c ≤ key b) : key l[i] = key c := by
    refine le_antisymm (not_lt.mp fun hlt => ?_) ((h.le_getElem_iff hi _).mpr hto)
    exact absurd ((h.lt_getElem_iff hi _).mp hlt) (by omega)
  refine ⟨l.take m, l[m], l[m + 1], l.drop (m + 2), ?_, ?_, ?_⟩
  · rw [← List.drop_eq_getElem_cons, ← List.drop_eq_getElem_cons, List.take_append_drop]
  · rw [List.length_take]
    omega
  · rw [hkey m (by omega) (by omega) (by omega), hkey (m + 1) hlen (by omega) hle]

end Arranges

/-! ## Pages of several arrangements -/

/-- Whatever the arrangements are, the keys of their pages are in order. -/
theorem pages_sorted (h : ∀ k, Arranges key rows (o k)) :
    (pages L n o).Pairwise fun a b => key b ≤ key a := by
  rw [← List.pairwise_map (R := (· ≥ ·)), map_pages]
  have hkeys : (fun k => (o k).map key) = fun _ => (o 0).map key :=
    funext fun k => (h k).keys (h 0)
  rw [hkeys, pages_const]
  exact (List.pairwise_map.mpr (h 0).sorted).sublist (List.take_sublist _ _)

theorem pages_perm (h : ∀ k, Arranges key rows (o k))
    (hstraddles : ∀ k, ¬ Straddles key rows (k * L)) :
    (pages L n o).Perm ((o 0).take (n * L)) := by
  induction n with
  | zero => simp
  | succ n ih =>
    have htake (k : ℕ) : ((o n).take (k * L)).Perm ((o 0).take (k * L)) :=
      (h n).take_perm (h 0) (hstraddles k)
    rw [pages_succ]
    refine ((ih.trans (htake n).symm).append_right _).trans ?_
    rw [← List.take_add, ← Nat.succ_mul]
    exact htake (n + 1)

/-- When a page boundary is straddled, an element comes twice for some arrangements. -/
theorem exists_pages_twice (hL : 0 < L) (hex : Arranges key rows l)
    (hk : Straddles key rows ((k + 1) * L)) :
    ∃ o, (∀ i, Arranges key rows (o i)) ∧ (k + 1) * L < rows.length ∧
      ¬ (pages L (k + 2) o).Nodup := by
  obtain ⟨j, hjL, hj⟩ : ∃ j, j < L ∧ (k + 1) * L = k * L + j + 1 :=
    ⟨L - 1, by omega, by rw [Nat.succ_mul]; omega⟩
  rw [hj] at hk
  obtain ⟨l₁, a, b, l₂, rfl, hl₁, hab⟩ := hex.exists_neighbours hk
  -- Every page is cut from one arrangement, and page `k + 1` from the one with `a` and `b` swapped.
  let o : ℕ → List α := fun i => if i = k + 1 then l₁ ++ b :: a :: l₂ else l₁ ++ a :: b :: l₂
  have ho (i : ℕ) : Arranges key rows (o i) := by
    by_cases hi : i = k + 1
    · simp only [o, if_pos hi]
      exact hex.swap hab
    · simp only [o, if_neg hi]
      exact hex
  have hlen : (k + 1) * L < rows.length := by
    rw [hj, ← hex.perm.length_eq, List.length_append, List.length_cons, List.length_cons]
    omega
  have ha : a ∈ pages L (k + 1) o := by
    rw [pages_succ]
    refine List.mem_append_right _ (List.mem_take_iff_getElem.mpr ⟨j, ?_, ?_⟩)
    · rw [List.length_drop, (ho k).perm.length_eq]
      omega
    · simp [o, hl₁]
  have ha' : a ∈ ((o (k + 1)).drop ((k + 1) * L)).take L := by
    refine List.mem_take_iff_getElem.mpr ⟨0, ?_, ?_⟩
    · rw [List.length_drop, (ho (k + 1)).perm.length_eq]
      omega
    · simp [o, hj, ← hl₁]
  refine ⟨o, ho, hlen, fun hnodup => ?_⟩
  rw [pages_succ] at hnodup
  exact (List.nodup_append.mp hnodup).2.2 a ha a ha' rfl

/-- **Pages of several arrangements** have every element exactly once, for all arrangements, if and
only if elements of equal keys lie on both sides of no page boundary. -/
theorem pages_arrange_iff (hL : 0 < L) (hrows : rows.Nodup) (hex : Arranges key rows l) :
    (∀ o, (∀ k, Arranges key rows (o k)) →
      Arranges key rows (pages L (rows.length / L + 1) o)) ↔
      ∀ k, ¬ Straddles key rows (k * L) := by
  constructor
  · intro hpages k hk
    cases k with
    | zero =>
      obtain ⟨_, _, hlt, _⟩ := hk
      omega
    | succ k =>
      obtain ⟨o, ho, hlen, htwice⟩ := exists_pages_twice hL hex hk
      have hk : k + 1 ≤ rows.length / L := (Nat.le_div_iff_mul_le hL).mpr hlen.le
      have hnodup := (hpages o ho).perm.nodup_iff.mpr hrows
      exact htwice (hnodup.sublist (pages_mono (by omega)).sublist)
  · intro hstraddles o ho
    refine ⟨?_, pages_sorted ho⟩
    have hlen : rows.length ≤ (rows.length / L + 1) * L := by
      have hlt := Nat.lt_mul_div_succ rows.length hL
      rw [Nat.mul_comm]
      exact hlt.le
    have hperm := pages_perm (n := rows.length / L + 1) ho hstraddles
    rw [List.take_of_length_le ((ho 0).perm.length_eq ▸ hlen)] at hperm
    exact hperm.trans (ho 0).perm

end

/-! ## Tables -/

/-- The rows that a predicate selects can be found in any order. -/
theorem Table.exists_select_eq {κ ρ : Type} {t : Table κ ρ} {p : κ → ρ → Bool} {l : List (κ × ρ)}
    (h : l.Perm (t.select p)) : ∃ t' : Table κ ρ, t'.rows.Perm t.rows ∧ t'.select p = l := by
  have hperm : (l ++ t.rows.filter fun e => !p e.1 e.2).Perm t.rows :=
    (h.append_right _).trans (List.filter_append_perm (fun e : κ × ρ => p e.1 e.2) t.rows)
  refine ⟨⟨_, (hperm.map Prod.fst).nodup_iff.mpr t.nodup⟩, hperm, ?_⟩
  have hl : l.filter (fun e => p e.1 e.2) = l :=
    List.filter_eq_self.mpr fun e he => (List.mem_filter.mp (h.mem_iff.mp he)).2
  have hrest : (t.rows.filter fun e => !p e.1 e.2).filter (fun e => p e.1 e.2) = [] := by
    refine List.filter_eq_nil_iff.mpr fun e he hp => ?_
    simpa [hp] using (List.mem_filter.mp he).2
  rw [select, List.filter_append, hl, hrest, List.append_nil]
