import Mathlib.Logic.Basic

/-!
# Constraints between transactions

A transaction sees the committed state with its own statements applied to it, and its commit makes
that the committed state. Two kinds of constraints then hold in every committed state, and in what
every transaction sees, once each statement keeps them in what its own transaction sees.

* No two rows carry the same tag (`Keyed`). The transactions in flight hold locks on the rows that
  they change and on the tags that they give away, and no lock is held twice.
* A row that is referred to exists (`Linked`), if such rows are never deleted.
-/

/-- What a transaction sees after its statements. -/
def viewOf {σ W : Type} (apply : W → σ → σ) (ws : List W) (s : σ) : σ :=
  ws.foldl (fun s w => apply w s) s

theorem viewOf_snoc {σ W : Type} (apply : W → σ → σ) (ws : List W) (w : W) (s : σ) :
    viewOf apply (ws ++ [w]) s = apply w (viewOf apply ws s) := by
  rw [viewOf, List.foldl_append]
  rfl

/-! ## Tags -/

/-- Rows under keys, the tags that they carry, and the statements that change them. A statement
changes the rows and gives the tags that it locks, and a row depends on nothing but the row that
was there. `Fits` is what a statement relies on; no other one breaks it. -/
structure Keyed (σ W κ τ : Type) where
  Row : κ → Type
  row : σ → (k : κ) → Option (Row k)
  Tagged : {k : κ} → Row k → τ → Prop
  apply : W → σ → σ
  LocksRow : W → κ → Prop
  LocksTag : W → τ → Prop
  Fits : W → σ → Prop
  fits_apply : ∀ (w w' : W) (s : σ), Fits w s → Fits w (apply w' s)
  row_apply : ∀ (w : W) (s : σ) (k : κ), ¬ LocksRow w k → row (apply w s) k = row s k
  row_congr : ∀ (w : W) (s s' : σ) (k : κ), row s k = row s' k →
    row (apply w s) k = row (apply w s') k
  tag_apply : ∀ (w : W) (s : σ) (k : κ) (r : Row k) (x : τ), Fits w s →
    row (apply w s) k = some r → Tagged r x → (∃ r', row s k = some r' ∧ Tagged r' x) ∨ LocksTag w x

namespace Keyed

variable {σ W κ τ : Type} (K : Keyed σ W κ τ)

abbrev view : List W → σ → σ := viewOf K.apply

/-- The row with this key carries the tag. -/
def Carries (s : σ) (k : κ) (x : τ) : Prop := ∃ r, K.row s k = some r ∧ K.Tagged r x

/-- No two rows carry the same tag. -/
def Distinct (s : σ) : Prop := ∀ k k' x, K.Carries s k x → K.Carries s k' x → k = k'

/-- The statements hold a lock on the row, on the tag. -/
def HoldsRow (ws : List W) (k : κ) : Prop := ∃ w ∈ ws, K.LocksRow w k

def HoldsTag (ws : List W) (x : τ) : Prop := ∃ w ∈ ws, K.LocksTag w x

variable {K} {s s' : σ} {ws ws' : List W} {k : κ} {x : τ}

theorem Carries.congr (h : K.row s k = K.row s' k) : K.Carries s k x ↔ K.Carries s' k x := by
  rw [Carries, Carries, h]

theorem fits_view {w : W} (h : K.Fits w s) : K.Fits w (K.view ws s) := by
  induction ws generalizing s with
  | nil => exact h
  | cons w' ws ih => exact ih (K.fits_apply w w' s h)

theorem row_view (h : ¬ K.HoldsRow ws k) : K.row (K.view ws s) k = K.row s k := by
  induction ws generalizing s with
  | nil => rfl
  | cons w ws ih =>
    have hw : ¬ K.LocksRow w k := fun hw => h ⟨w, List.mem_cons_self, hw⟩
    have hws : ¬ K.HoldsRow ws k := fun ⟨w', hw', hl⟩ => h ⟨w', List.mem_cons_of_mem w hw', hl⟩
    exact (ih hws).trans (K.row_apply w s k hw)

theorem row_view_congr (h : K.row s k = K.row s' k) :
    K.row (K.view ws s) k = K.row (K.view ws s') k := by
  induction ws generalizing s s' with
  | nil => exact h
  | cons w ws ih => exact ih (K.row_congr w s s' k h)

/-- A tag that a transaction sees was given before, or it has locked it. -/
theorem carries_view (hfits : ∀ w ∈ ws, K.Fits w s) (h : K.Carries (K.view ws s) k x) :
    K.Carries s k x ∨ K.HoldsTag ws x := by
  induction ws generalizing s with
  | nil => exact .inl h
  | cons w ws ih =>
    have hws : ∀ w' ∈ ws, K.Fits w' (K.apply w s) := fun w' hw' =>
      K.fits_apply w' w s (hfits w' (List.mem_cons_of_mem w hw'))
    rcases ih hws h with ⟨r, hr, hx⟩ | ⟨w', hw', hx⟩
    · exact (K.tag_apply w s k r x (hfits w List.mem_cons_self) hr hx).imp_right fun hx =>
        ⟨w, List.mem_cons_self, hx⟩
    · exact .inr ⟨w', List.mem_cons_of_mem w hw', hx⟩

/-- A statement that changes one row and gives it no tag that another one carries. -/
theorem Distinct.apply {w : W} (h : K.Distinct s) (hfits : K.Fits w s)
    (hone : ∀ k k', K.LocksRow w k → K.LocksRow w k' → k = k')
    (hfree : ∀ k x, K.LocksTag w x → K.Carries s k x → K.LocksRow w k) :
    K.Distinct (K.apply w s) := by
  intro k k' x hk hk'
  have hold {k : κ} (hk : K.Carries (K.apply w s) k x) : K.Carries s k x ∨ K.LocksTag w x := by
    obtain ⟨r, hr, hx⟩ := hk
    exact K.tag_apply w s k r x hfits hr hx
  have hlocks {k : κ} (hk : K.Carries (K.apply w s) k x) (hx : K.LocksTag w x) :
      K.LocksRow w k := by
    refine Classical.byContradiction fun hne => ?_
    exact hne (hfree k x hx ((Carries.congr (K.row_apply w s k hne)).mp hk))
  rcases hold hk with hx | hx
  · rcases hold hk' with hx' | hx'
    · exact h k k' x hx hx'
    · exact hone k k' (hlocks hk hx') (hlocks hk' hx')
  · exact hone k k' (hlocks hk hx) (hlocks hk' hx)

/-- **A commit keeps what others see distinct**: if two transactions that hold different locks each
see distinct tags, so does the second one when the first has committed. -/
theorem Distinct.commit (h : K.Distinct (K.view ws s)) (h' : K.Distinct (K.view ws' s))
    (hfits : ∀ w ∈ ws, K.Fits w s) (hfits' : ∀ w ∈ ws', K.Fits w s)
    (hrows : ∀ k, K.HoldsRow ws k → ¬ K.HoldsRow ws' k)
    (htags : ∀ x, K.HoldsTag ws x → ¬ K.HoldsTag ws' x) :
    K.Distinct (K.view ws' (K.view ws s)) := by
  -- What the second transaction has locked is as it was, the rest is as the first one left it.
  have hheld {k : κ} {x : τ} (hk : K.HoldsRow ws' k) :
      K.Carries (K.view ws' (K.view ws s)) k x ↔ K.Carries (K.view ws' s) k x :=
    Carries.congr (row_view_congr (row_view fun hk' => hrows k hk' hk))
  have hfree {k : κ} {x : τ} (hk : ¬ K.HoldsRow ws' k) :
      K.Carries (K.view ws' (K.view ws s)) k x ↔ K.Carries (K.view ws s) k x :=
    Carries.congr (row_view hk)
  have hmixed {k k' : κ} {x : τ} (hk : K.HoldsRow ws' k) (hk' : ¬ K.HoldsRow ws' k')
      (hx : K.Carries (K.view ws' s) k x) (hx' : K.Carries (K.view ws s) k' x) : k = k' := by
    rcases carries_view hfits hx' with hold' | htag
    · exact h' k k' x hx ((Carries.congr (row_view hk')).mpr hold')
    · rcases carries_view hfits' hx with hold | htag'
      · have hk₁ : ¬ K.HoldsRow ws k := fun hk₁ => hrows k hk₁ hk
        exact h k k' x ((Carries.congr (row_view hk₁)).mpr hold) hx'
      · exact absurd htag' (htags x htag)
  intro k k' x hx hx'
  by_cases hk : K.HoldsRow ws' k <;> by_cases hk' : K.HoldsRow ws' k'
  · exact h' k k' x ((hheld hk).mp hx) ((hheld hk').mp hx')
  · exact hmixed hk hk' ((hheld hk).mp hx) ((hfree hk').mp hx')
  · exact (hmixed hk' hk ((hheld hk').mp hx') ((hfree hk).mp hx)).symm
  · exact h k k' x ((hfree hk).mp hx) ((hfree hk').mp hx')

end Keyed

/-! ## References -/

/-- Rows that are never deleted, and rows that refer to them. -/
structure Linked (σ W κ : Type) where
  Present : σ → κ → Prop
  Refers : σ → κ → Prop
  apply : W → σ → σ
  Creates : W → κ → Prop
  Needs : W → κ → Prop
  present_apply : ∀ (w : W) (s : σ) (k : κ), Present (apply w s) k ↔ Present s k ∨ Creates w k
  refers_apply : ∀ (w : W) (s : σ) (k : κ), Refers (apply w s) k → Refers s k ∨ Needs w k

namespace Linked

variable {σ W κ : Type} (L : Linked σ W κ)

abbrev view : List W → σ → σ := viewOf L.apply

/-- Nothing refers to a row that is not there. -/
def Closed (s : σ) : Prop := ∀ k, L.Refers s k → L.Present s k

/-- What the statements refer to is there. -/
def Met (ws : List W) (s : σ) : Prop := ∀ w ∈ ws, ∀ k, L.Needs w k → L.Present s k

variable {L} {s s' : σ} {ws ws' : List W} {k : κ}

theorem present_view : L.Present (L.view ws s) k ↔ L.Present s k ∨ ∃ w ∈ ws, L.Creates w k := by
  induction ws generalizing s with
  | nil => exact ⟨.inl, fun h => h.resolve_right fun ⟨_, h, _⟩ => absurd h List.not_mem_nil⟩
  | cons w ws ih =>
    rw [show L.view (w :: ws) s = L.view ws (L.apply w s) from rfl, ih, L.present_apply, or_assoc]
    simp only [List.mem_cons, exists_eq_or_imp]

theorem refers_view (h : L.Refers (L.view ws s) k) : L.Refers s k ∨ ∃ w ∈ ws, L.Needs w k := by
  induction ws generalizing s with
  | nil => exact .inl h
  | cons w ws ih =>
    rcases ih h with h | ⟨w', hw', h⟩
    · exact (L.refers_apply w s k h).imp_right fun h => ⟨w, List.mem_cons_self, h⟩
    · exact .inr ⟨w', List.mem_cons_of_mem w hw', h⟩

theorem Closed.apply {w : W} (h : L.Closed s) (hw : ∀ k, L.Needs w k → L.Present s k) :
    L.Closed (L.apply w s) := fun k hk =>
  (L.present_apply w s k).mpr (.inl ((L.refers_apply w s k hk).elim (h k) (hw k)))

/-- A statement finds what it refers to, and what the others refer to stays. -/
theorem Met.snoc {w : W} (h : L.Met ws (L.view ws s))
    (hw : ∀ k, L.Needs w k → L.Present (L.view ws s) k) :
      L.Met (ws ++ [w]) (L.view (ws ++ [w]) s) := by
  intro w' hw' k hk
  rw [view, viewOf_snoc]
  refine (L.present_apply _ _ _).mpr (.inl ?_)
  rcases List.mem_append.mp hw' with hw' | hw'
  · exact h w' hw' k hk
  · exact hw k (List.mem_singleton.mp hw' ▸ hk)

/-- **What a transaction sees is closed**, so its commit keeps the committed state closed. -/
theorem Closed.view (h : L.Closed s) (hmet : L.Met ws (L.view ws s)) : L.Closed (L.view ws s) := by
  intro k hk
  rcases refers_view hk with hk | ⟨w, hw, hk⟩
  · exact present_view.mpr (.inl (h k hk))
  · exact hmet w hw k hk

/-- Nothing disappears from what a transaction sees when another one commits. -/
theorem Met.commit (h : L.Met ws' (L.view ws' s)) : L.Met ws' (L.view ws' (L.view ws s)) := by
  intro w hw k hk
  rcases present_view.mp (h w hw k hk) with hp | hc
  · exact present_view.mpr (.inl (present_view.mpr (.inl hp)))
  · exact present_view.mpr (.inr hc)

end Linked
