import Rawbin.Library.Pool

/-!
# Systems side by side

Two systems, each with a state and a pool of its own. They share nothing, but what either of them
may do next can depend on where the other one is: a request of the second one, for instance, may
start only when a thread of the first one has asked for it. Each of them alone is a run like any
other, and what the first one has asked for stays asked for.
-/

namespace System

variable {C : Type → Type u} {σ τ χ ε ρ α η : Type}
variable {D : Type → Type v} {σ' τ' χ' ε' ρ' α' η' : Type}

/-- The pairs of configurations reached from `c₀` and `d₀` by steps of either system. -/
inductive Coupled (S : System C σ τ χ ε ρ α η) (T : System D σ' τ' χ' ε' ρ' α' η')
    (okS : Config C σ τ ε ρ α → Config D σ' τ' ε' ρ' α' → Label χ ρ η → Prop)
    (okT : Config C σ τ ε ρ α → Config D σ' τ' ε' ρ' α' → Label χ' ρ' η' → Prop)
    (c₀ : Config C σ τ ε ρ α) (d₀ : Config D σ' τ' ε' ρ' α') :
    Config C σ τ ε ρ α → Config D σ' τ' ε' ρ' α' → Prop where
  | refl : Coupled S T okS okT c₀ d₀ c₀ d₀
  | left (H : Coupled S T okS okT c₀ d₀ c d) (hok : okS c d l) (hs : S.Step c l c') :
    Coupled S T okS okT c₀ d₀ c' d
  | right (H : Coupled S T okS okT c₀ d₀ c d) (hok : okT c d l) (hs : T.Step d l d') :
    Coupled S T okS okT c₀ d₀ c d'

namespace Coupled

variable {S : System C σ τ χ ε ρ α η} {T : System D σ' τ' χ' ε' ρ' α' η'}
variable {okS : Config C σ τ ε ρ α → Config D σ' τ' ε' ρ' α' → Label χ ρ η → Prop}
variable {okT : Config C σ τ ε ρ α → Config D σ' τ' ε' ρ' α' → Label χ' ρ' η' → Prop}
variable {c₀ c c' : Config C σ τ ε ρ α} {d₀ d d' : Config D σ' τ' ε' ρ' α'}

theorem left_run {ok : Config C σ τ ε ρ α → Label χ ρ η → Prop} (H : Coupled S T okS okT c₀ d₀ c d)
    (h : ∀ c d l, okS c d l → ok c l) : S.Run ok c₀ c := by
  induction H with
  | refl => exact .refl
  | left _ hok hs ih => exact ih.step (h _ _ _ hok) hs
  | right _ _ _ ih => exact ih

theorem right_run {ok : Config D σ' τ' ε' ρ' α' → Label χ' ρ' η' → Prop}
    (H : Coupled S T okS okT c₀ d₀ c d) (h : ∀ c d l, okT c d l → ok d l) : T.Run ok d₀ d := by
  induction H with
  | refl => exact .refl
  | left _ _ _ ih => exact ih
  | right _ hok hs ih => exact ih.step (h _ _ _ hok) hs

/-- **What was asked for stays asked for**: a property that the first system has when a request of
the second one starts, and keeps by its own steps, holds for every request of the second one. -/
theorem asked {P : Config C σ τ ε ρ α → ρ' → Prop} (H : Coupled S T okS okT c₀ d₀ c d)
    (h₀ : d₀.threads = []) (hspawn : ∀ c d r, okT c d (.spawn r) → P c r)
    (hkeep : ∀ c d l c' r, okS c d l → S.Step c l c' → P c r → P c' r) :
    ∀ t ∈ d.threads, P c t.req := by
  induction H with
  | refl => exact fun t ht => absurd (h₀ ▸ ht) List.not_mem_nil
  | left _ hok hs ih => exact fun t ht => hkeep _ _ _ _ _ hok hs (ih t ht)
  | right _ hok hs ih =>
    refine hs.thread_cases ih (fun r hr => ?_) fun {β cm k t x} ht _ => ih t ht
    subst hr
    exact hspawn _ _ r hok

/-- Follow a list of labels, each of one of the systems, while tests accept them. -/
def followIf (S : System C σ τ χ ε ρ α η) (T : System D σ' τ' χ' ε' ρ' α' η')
    (okS : Config C σ τ ε ρ α → Config D σ' τ' ε' ρ' α' → Label χ ρ η → Bool)
    (okT : Config C σ τ ε ρ α → Config D σ' τ' ε' ρ' α' → Label χ' ρ' η' → Bool)
    (c : Config C σ τ ε ρ α) (d : Config D σ' τ' ε' ρ' α') :
    List (Label χ ρ η ⊕ Label χ' ρ' η') →
      Option (Config C σ τ ε ρ α × Config D σ' τ' ε' ρ' α')
  | [] => some (c, d)
  | .inl l :: ls =>
    if okS c d l then (S.next c l).bind fun c' => followIf S T okS okT c' d ls else none
  | .inr l :: ls =>
    if okT c d l then (T.next d l).bind fun d' => followIf S T okS okT c d' ls else none

theorem of_followIf {okS : Config C σ τ ε ρ α → Config D σ' τ' ε' ρ' α' → Label χ ρ η → Bool}
    {okT : Config C σ τ ε ρ α → Config D σ' τ' ε' ρ' α' → Label χ' ρ' η' → Bool}
    {ls : List (Label χ ρ η ⊕ Label χ' ρ' η')}
    (H : Coupled S T (fun c d l => okS c d l = true) (fun c d l => okT c d l = true) c₀ d₀ c d)
    (h : followIf S T okS okT c d ls = some (c', d')) :
    Coupled S T (fun c d l => okS c d l = true) (fun c d l => okT c d l = true) c₀ d₀ c' d' := by
  induction ls generalizing c d with
  | nil =>
    cases h
    exact H
  | cons l ls ih =>
    cases l with
    | inl l =>
      rw [followIf] at h
      split at h <;> rename_i hok
      · obtain ⟨c₁, hc, h⟩ := Option.bind_eq_some_iff.mp h
        exact ih (H.left hok (.of_next S hc)) h
      · cases h
    | inr l =>
      rw [followIf] at h
      split at h <;> rename_i hok
      · obtain ⟨d₁, hd, h⟩ := Option.bind_eq_some_iff.mp h
        exact ih (H.right hok (.of_next T hd)) h
      · cases h

/-- The requests of the second system are those that were started. -/
theorem right_reqs {okS : Config C σ τ ε ρ α → Config D σ' τ' ε' ρ' α' → Label χ ρ η → Bool}
    {okT : Config C σ τ ε ρ α → Config D σ' τ' ε' ρ' α' → Label χ' ρ' η' → Bool}
    {ls : List (Label χ ρ η ⊕ Label χ' ρ' η')} (h : followIf S T okS okT c d ls = some (c', d')) :
    d'.threads.map Thread.req = d.threads.map Thread.req ++
      ls.filterMap fun l => l.getRight?.bind Label.started := by
  induction ls generalizing c d with
  | nil =>
    cases h
    exact (List.append_nil _).symm
  | cons l ls ih =>
    cases l with
    | inl l =>
      rw [followIf] at h
      split at h
      · obtain ⟨c₁, -, h⟩ := Option.bind_eq_some_iff.mp h
        exact ih h
      · cases h
    | inr l =>
      rw [followIf] at h
      split at h
      · obtain ⟨d₁, hd, h⟩ := Option.bind_eq_some_iff.mp h
        rw [ih h, T.next_reqs hd, List.append_assoc]
        cases l <;> rfl
      · cases h

end Coupled

end System
