import Mathlib.Data.List.Pairwise
import Mathlib.Algebra.Order.Ring.Int
import Mathlib.Tactic.Ring

/-!
# Batches of events

Events come in batches. A batch has a bounded number of events, and it opens at least a given time
after the batch before it, when the events of that one are over. Then the events in a window of
time are bounded by the length of the window. Lists have the newest batch first.
-/

/-- The instant at which a batch opened, and the instants of its events. -/
structure Batch where
  opened : ℤ
  events : List ℤ

/-- The first batch comes after the second. -/
def Batch.After (gap : ℤ) (b b' : Batch) : Prop :=
  b'.opened + gap ≤ b.opened ∧ ∀ t ∈ b'.events, t ≤ b.opened

def Batch.Within (limit : ℕ) (b : Batch) : Prop :=
  b.events.length ≤ limit ∧ ∀ t ∈ b.events, b.opened ≤ t

/-- Batches one after the other. -/
structure Batches (gap : ℤ) (limit : ℕ) (bs : List Batch) : Prop where
  after : bs.Pairwise (Batch.After gap)
  within : ∀ b ∈ bs, b.Within limit

namespace Batches

variable {gap : ℤ} {limit : ℕ} {a c : ℤ} {b : Batch} {bs : List Batch}

theorem nil : Batches gap limit [] := ⟨.nil, fun _ h => nomatch h⟩

theorem tail (H : Batches gap limit (b :: bs)) : Batches gap limit bs :=
  ⟨H.after.of_cons, fun b' hb => H.within b' (List.mem_cons_of_mem _ hb)⟩

theorem cons (H : Batches gap limit bs) (hafter : ∀ b' ∈ bs, b.After gap b')
    (hwithin : b.Within limit) : Batches gap limit (b :: bs) :=
  ⟨.cons hafter H.after, List.forall_mem_cons.mpr ⟨hwithin, H.within⟩⟩

/-- Another event of the newest batch. -/
theorem event {t : ℤ} {es : List ℤ} (H : Batches gap limit (⟨a, es⟩ :: bs))
    (hlen : es.length < limit) (ht : a ≤ t) : Batches gap limit (⟨a, t :: es⟩ :: bs) := by
  refine H.tail.cons (fun _ => List.rel_of_pairwise_cons H.after) ⟨hlen, fun t' ht' => ?_⟩
  rcases List.mem_cons.mp ht' with rfl | ht'
  · exact ht
  · exact (H.within _ List.mem_cons_self).2 t' ht'

/-- A new batch. -/
theorem opened (H : Batches gap limit bs)
    (hafter : ∀ b' ∈ bs, (⟨a, []⟩ : Batch).After gap b') : Batches gap limit (⟨a, []⟩ :: bs) :=
  H.cons hafter ⟨Nat.zero_le _, fun _ h => nomatch h⟩

/-! ## Windows -/

/-- The instant lies in the window. -/
def inside (a c t : ℤ) : Bool := a ≤ t && t ≤ c

/-- The batches that open in a window, one after the other, fill it. -/
theorem length_mul_le {b : Batch} {bs : List Batch}
    (h : (b :: bs).Pairwise (Batch.After gap)) (ha : ∀ b' ∈ b :: bs, a ≤ b'.opened) :
    bs.length * gap ≤ b.opened - a := by
  induction bs generalizing b with
  | nil =>
    have := ha b List.mem_cons_self
    simp
    omega
  | cons b' bs ih =>
    have hb := (List.rel_of_pairwise_cons h List.mem_cons_self).1
    have hih := ih h.of_cons fun b'' hb'' => ha b'' (List.mem_cons_of_mem _ hb'')
    rw [List.length_cons, Nat.cast_add, Nat.cast_one, add_mul, one_mul]
    omega

theorem length_le_of_inside (hgap : 0 < gap) (H : bs.Pairwise (Batch.After gap))
    (hin : ∀ b ∈ bs, inside a c b.opened = true) :
    bs.length ≤ ((c - a) / gap).toNat + 1 := by
  cases bs with
  | nil => exact Nat.zero_le _
  | cons b bs =>
    have hb : a ≤ b.opened ∧ b.opened ≤ c := by simpa [inside] using hin b List.mem_cons_self
    have hmul := length_mul_le H fun b' hb' => by
      have := hin b' hb'
      simp only [inside, Bool.and_eq_true, decide_eq_true_eq] at this
      exact this.1
    have hdiv : (bs.length : ℤ) ≤ (c - a) / gap :=
      (Int.le_ediv_iff_mul_le hgap).mpr (hmul.trans (by omega))
    rw [List.length_cons]
    omega

/-- The events in a window belong to the batches that open in it, or to the last one before. -/
theorem countP_le (H : Batches gap limit bs) :
    (bs.flatMap Batch.events).countP (inside a c) ≤
      limit * ((bs.filter fun b => inside a c b.opened).length + 1) := by
  induction bs with
  | nil => exact Nat.zero_le _
  | cons b bs ih =>
    have hlen : b.events.countP (inside a c) ≤ limit :=
      (List.countP_le_length).trans (H.within b List.mem_cons_self).1
    rw [List.flatMap_cons, List.countP_append, List.filter_cons]
    have ih := ih H.tail
    by_cases hlate : c < b.opened
    · have hzero : b.events.countP (inside a c) = 0 := by
        refine List.countP_eq_zero.mpr fun t ht => ?_
        have := (H.within b List.mem_cons_self).2 t ht
        simp only [inside, Bool.and_eq_true, decide_eq_true_eq]
        omega
      rw [hzero, Nat.zero_add,
        if_neg (by simp only [inside, Bool.and_eq_true, decide_eq_true_eq]; omega)]
      exact ih
    · by_cases hearly : b.opened < a
      · have hzero : (bs.flatMap Batch.events).countP (inside a c) = 0 := by
          refine List.countP_eq_zero.mpr fun t ht => ?_
          obtain ⟨b', hb', ht⟩ := List.mem_flatMap.mp ht
          have := (List.rel_of_pairwise_cons H.after hb').2 t ht
          simp only [inside, Bool.and_eq_true, decide_eq_true_eq]
          omega
        rw [hzero, Nat.add_zero]
        exact hlen.trans (Nat.le_mul_of_pos_right _ (Nat.succ_pos _))
      · rw [if_pos (by simp only [inside, Bool.and_eq_true, decide_eq_true_eq]; omega),
          List.length_cons]
        calc b.events.countP (inside a c) + (bs.flatMap Batch.events).countP (inside a c)
            ≤ limit + limit * ((bs.filter fun b => inside a c b.opened).length + 1) :=
              Nat.add_le_add hlen ih
          _ = limit * ((bs.filter fun b => inside a c b.opened).length + 1 + 1) := by ring

/-- **The events in a window of time.** -/
theorem countP_window (H : Batches gap limit bs) (hgap : 0 < gap) (a : ℤ) (T : ℕ) :
    (bs.flatMap Batch.events).countP (inside a (a + T)) ≤ limit * ((T / gap).toNat + 2) := by
  refine H.countP_le.trans (Nat.mul_le_mul_left _ (Nat.succ_le_succ ?_))
  have h : (bs.filter fun b => inside a (a + T) b.opened).length ≤ ((a + T - a) / gap).toNat + 1 :=
    length_le_of_inside hgap (H.after.sublist List.filter_sublist)
      fun b hb => (List.mem_filter.mp hb).2
  rwa [add_sub_cancel_left] at h

end Batches
