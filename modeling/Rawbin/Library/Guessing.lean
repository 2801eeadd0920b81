import Mathlib.Algebra.BigOperators.Group.Finset.Piecewise
import Mathlib.Algebra.Order.BigOperators.Group.Finset
import Mathlib.Algebra.Order.BigOperators.Ring.Finset
import Mathlib.Algebra.Order.Field.Rat
import Mathlib.Tactic.FieldSimp
import Mathlib.Tactic.Linarith
import Mathlib.Tactic.Positivity
import Mathlib.Tactic.Ring

/-!
# Guessing a secret

A player meets a state that depends on a secret below `N`. `v k s` is the chance to win from `s`
within `k` moves. What the player knows is the family `F` of the states that the secrets would make,
and `I a m F` says that the secret can be tried `a` times more and can be drawn anew `m` times.

`Turn` lists what a move may do to the family: nothing that depends on the secret; a try, which only
one secret meets; a new draw, after which the secret can be tried `tries` times. Then the chances of
all secrets sum to at most `a`, and `tries` more for each draw that is left.
-/

namespace Guessing

variable {σ : Type} (v : ℕ → σ → ℚ) (N tries : ℕ) (I : ℕ → ℕ → (ℕ → σ) → Prop)

/-- What the next of `k + 1` moves may do to a family. -/
inductive Turn (k a m : ℕ) (F : ℕ → σ) : Prop where
  | ended (h : ∀ n < N, v (k + 1) (F n) ≤ 0)
  | blind {a' m' : ℕ} {F' : ℕ → σ} (ha : a' ≤ a) (hm : m' ≤ m) (hF : I a' m' F')
    (h : ∀ n < N, v (k + 1) (F n) ≤ v k (F' n))
  | guess {a' : ℕ} {F' : ℕ → σ} (hits : ℕ → Prop)
    (hone : ∀ n < N, ∀ n' < N, hits n → hits n' → n = n') (ha : a' < a) (hF : I a' m F')
    (hhit : ∀ n < N, v (k + 1) (F n) ≤ 1) (hmiss : ∀ n < N, ¬ hits n → v (k + 1) (F n) ≤ v k (F' n))
  | redraw {m' : ℕ} {F' : ℕ → σ} (hm : m' < m) (hF : I tries m' F')
    (h : ∀ n < N, v (k + 1) (F n) ≤ (∑ i ∈ Finset.range N, v k (F' i)) / N)

variable {v N tries I}

/-- One secret more or less changes the sum by at most one. -/
theorem sum_le_of_one {S : Finset ℕ} {f : ℕ → ℚ} {hits : ℕ → Prop} {c : ℚ}
    (hone : ∀ n ∈ S, ∀ n' ∈ S, hits n → hits n' → n = n') (hle : ∀ n ∈ S, f n ≤ 1)
    (hrest : ∀ T ⊆ S, (∀ n ∈ T, ¬ hits n) → ∑ n ∈ T, f n ≤ c) : ∑ n ∈ S, f n ≤ 1 + c := by
  by_cases h : ∃ n ∈ S, hits n
  · obtain ⟨n, hn, hhit⟩ := h
    rw [← Finset.add_sum_erase S f hn]
    refine add_le_add (hle n hn) (hrest _ (Finset.erase_subset n S) fun n' hn' hhit' => ?_)
    obtain ⟨hne, hn'⟩ := Finset.mem_erase.mp hn'
    exact hne (hone n' hn' n hn hhit' hhit)
  · have hnone : ∀ n ∈ S, ¬ hits n := fun n hn hhit => h ⟨n, hn, hhit⟩
    exact (hrest S (Finset.Subset.refl S) hnone).trans (le_add_of_nonneg_left zero_le_one)

/-- **The chances of any set of secrets.** -/
theorem sum_le (h₀ : ∀ s, v 0 s ≤ 0) (hN : 0 < N)
    (hturn : ∀ k a m F, I a m F → Turn v N tries I k a m F) {k a m : ℕ} {F : ℕ → σ} (hF : I a m F)
    {S : Finset ℕ} (hS : S ⊆ Finset.range N) :
    ∑ n ∈ S, v k (F n) ≤ a + S.card * (m * tries / N) := by
  have hN' : (0 : ℚ) < N := Nat.cast_pos.mpr hN
  have hlt {S : Finset ℕ} (hS : S ⊆ Finset.range N) : ∀ n ∈ S, n < N := fun n hn =>
    Finset.mem_range.mp (hS hn)
  induction k generalizing a m F S with
  | zero =>
    refine (Finset.sum_nonpos fun n _ => h₀ _).trans ?_
    positivity
  | succ k ih =>
    cases hturn k a m F hF with
    | ended h =>
      refine (Finset.sum_nonpos fun n hn => h n (hlt hS n hn)).trans ?_
      positivity
    | @blind a' m' F' ha hm hF' h =>
      refine (Finset.sum_le_sum fun n hn => h n (hlt hS n hn)).trans ((ih hF' hS).trans ?_)
      have ha' : (a' : ℚ) ≤ a := Nat.cast_le.mpr ha
      have hm' : (m' : ℚ) ≤ m := Nat.cast_le.mpr hm
      gcongr
    | @guess a' F' hits hone ha hF' hhit hmiss =>
      -- The secret that is met contributes one; the others are as they will be after the try.
      have hrest : ∀ T ⊆ S, (∀ n ∈ T, ¬ hits n) →
          ∑ n ∈ T, v (k + 1) (F n) ≤ a' + S.card * (m * tries / N) := by
        intro T hT hnone
        have hTN := hT.trans hS
        refine (Finset.sum_le_sum fun n hn => hmiss n (hlt hTN n hn) (hnone n hn)).trans
          ((ih hF' hTN).trans ?_)
        have hcard : (T.card : ℚ) ≤ S.card := Nat.cast_le.mpr (Finset.card_le_card hT)
        gcongr
      have hsum := sum_le_of_one (fun n hn n' hn' => hone n (hlt hS n hn) n' (hlt hS n' hn'))
        (fun n hn => hhit n (hlt hS n hn)) hrest
      have ha' : (a' : ℚ) + 1 ≤ a := by exact_mod_cast ha
      linarith
    | @redraw m' F' hm hF' h =>
      have hmean := ih hF' (Finset.Subset.refl (Finset.range N))
      rw [Finset.card_range] at hmean
      have hm' : (m' : ℚ) + 1 ≤ m := by exact_mod_cast hm
      have hone : ∀ n ∈ S, v (k + 1) (F n) ≤ m * tries / N := by
        intro n hn
        refine (h n (hlt hS n hn)).trans ?_
        rw [div_le_div_iff_of_pos_right hN']
        calc ∑ i ∈ Finset.range N, v k (F' i) ≤ tries + N * (m' * tries / N) := hmean
          _ = (m' + 1) * tries := by field_simp; ring
          _ ≤ m * tries := by gcongr
      calc ∑ n ∈ S, v (k + 1) (F n) ≤ S.card • ((m : ℚ) * tries / N) :=
            Finset.sum_le_card_nsmul S _ _ hone
        _ = S.card * (m * tries / N) := nsmul_eq_mul ..
        _ ≤ a + S.card * (m * tries / N) := le_add_of_nonneg_left (Nat.cast_nonneg a)

/-- **The chance where nothing depends on the secret yet.** -/
theorem chance_le (h₀ : ∀ s, v 0 s ≤ 0) (hN : 0 < N)
    (hturn : ∀ k a m F, I a m F → Turn v N tries I k a m F) {s : σ} {m : ℕ}
    (hs : I 0 m fun _ => s) (k : ℕ) : v k s ≤ m * tries / N := by
  have h := sum_le h₀ hN hturn hs (k := k)
      (Finset.singleton_subset_iff.mpr (Finset.mem_range.mpr hN))
  simpa using h

end Guessing
