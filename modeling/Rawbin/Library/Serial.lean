import Mathlib.Data.List.Forall2
import Rawbin.Library.Pool

/-!
# Serial runs

In a serial run no two threads overlap, and the environment acts only between them. Serial runs are
the executions of one whole program after the other, so what is proved about programs that run alone
is proved about these runs of the pool.
-/

namespace Prog

/-- The program that has ended with a result. -/
def ofResult {C : Type → Type u} {ε α : Type} : Except ε α → Prog C ε α
  | .ok a => .pure a
  | .error e => .raise e

end Prog

namespace Thread

variable {C : Type → Type u} {τ ε ρ α : Type}

/-- The thread has ended, with this request and this result. -/
def EndedWith (t : Thread C τ ε ρ α) (p : ρ × Except ε α) : Prop :=
  t.req = p.1 ∧ t.prog = .ofResult p.2

theorem EndedWith.ended {t : Thread C τ ε ρ α} {p : ρ × Except ε α} (h : t.EndedWith p) :
    t.ended = true := by
  rw [Thread.ended, h.2]
  cases p.2 <;> rfl

theorem EndedWith.unique :
    Relator.RightUnique (EndedWith : Thread C τ ε ρ α → ρ × Except ε α → Prop) := by
  rintro t ⟨r, res⟩ ⟨r', res'⟩ ⟨hr, hp⟩ ⟨hr', hp'⟩
  cases hr.symm.trans hr'
  cases res <;> cases res' <;> cases hp.symm.trans hp' <;> rfl

theorem all_ended {ts : List (Thread C τ ε ρ α)} {rs : List (ρ × Except ε α)}
    (h : List.Forall₂ EndedWith ts rs) : ∀ t ∈ ts, t.ended = true := by
  induction h with
  | nil => exact fun t ht => absurd ht List.not_mem_nil
  | cons h _ ih => exact List.forall_mem_cons.mpr ⟨h.ended, ih⟩

end Thread

namespace System

variable {C : Type → Type u} {σ τ χ ε ρ α η : Type}
variable (S : System C σ τ χ ε ρ α η)

/-- The program of a request with no other client around. -/
def alone (x : χ) (r : ρ) (s : σ) : Except ε α × τ × σ := S.runConst x (S.prog r) S.start s

/-- Requests executed one after the other, with their results, and the state they leave. -/
inductive InTurn (x : χ) (s₀ : σ) : List (ρ × Except ε α) → σ → Prop where
  | nil : InTurn x s₀ [] s₀
  | job {rs : List (ρ × Except ε α)} {s : σ} (h : InTurn x s₀ rs s) (r : ρ) :
    InTurn x s₀ (rs ++ [(r, (S.alone x r s).1)]) (S.alone x r s).2.2
  | env {rs : List (ρ × Except ε α)} {s : σ} (h : InTurn x s₀ rs s) (e : η) :
    InTurn x s₀ rs (S.env e s)

/-- No other thread is in flight, and every command is answered with the choice `x`. -/
def Serial (x : χ) (c : Config C σ τ ε ρ α) : Label χ ρ η → Prop
  | .step i y => y = x ∧ ∀ (j : ℕ) t, j ≠ i → c.threads[j]? = some t → t.ended = true
  | _ => ∀ t ∈ c.threads, t.ended = true

/-- A serial run between two programs, or within one. -/
inductive Position (x : χ) (s₀ : σ) : Config C σ τ ε ρ α → Prop where
  | between {rs : List (ρ × Except ε α)} {s : σ} {ts : List (Thread C τ ε ρ α)}
    (h : S.InTurn x s₀ rs s) (hts : List.Forall₂ Thread.EndedWith ts rs) : Position x s₀ ⟨s, ts⟩
  | within {rs : List (ρ × Except ε α)} {s s' : σ} {ts : List (Thread C τ ε ρ α)}
    {t : Thread C τ ε ρ α} (h : S.InTurn x s₀ rs s) (hts : List.Forall₂ Thread.EndedWith ts rs)
    (hend : t.ended = false) (hrun : S.runConst x t.prog t.sess s' = S.alone x t.req s) :
    Position x s₀ ⟨s', ts ++ [t]⟩

variable {S} {x : χ} {s₀ s s' : σ} {rs : List (ρ × Except ε α)} {ts : List (Thread C τ ε ρ α)}
variable {t : Thread C τ ε ρ α} {c c' : Config C σ τ ε ρ α} {l : Label χ ρ η}

theorem Position.of_run (h : S.InTurn x s₀ rs s) (hts : List.Forall₂ Thread.EndedWith ts rs)
    (hrun : S.runConst x t.prog t.sess s' = S.alone x t.req s) :
    S.Position x s₀ ⟨s', ts ++ [t]⟩ := by
  have hdone (res : Except ε α) (hp : t.prog = .ofResult res)
      (ha : (res, t.sess, s') = S.alone x t.req s) : S.Position x s₀ ⟨s', ts ++ [t]⟩ := by
    have hjob := h.job t.req
    rw [← ha] at hjob
    exact .between hjob (List.rel_append hts (.cons ⟨rfl, hp⟩ .nil))
  cases hp : t.prog with
  | pure a =>
    rw [hp] at hrun
    exact hdone (.ok a) hp hrun
  | raise e =>
    rw [hp] at hrun
    exact hdone (.error e) hp hrun
  | cmd cm k => exact .within h hts (by rw [Thread.ended, hp]) hrun

theorem Position.step (H : S.Position x s₀ c) (hserial : Serial x c l) (hs : S.Step c l c') :
    S.Position x s₀ c' := by
  cases H with
  | between h hts =>
    cases hs with
    | spawn r => exact .of_run h hts rfl
    | env e => exact .between (h.env e) hts
    | step y hi hp hb =>
      have hend := Thread.all_ended hts _ (List.mem_of_getElem? hi)
      rw [Thread.ended, hp] at hend
      cases hend
  | @within rs s s' ts t h hts hend hrun =>
    cases hs with
    | spawn r =>
      cases hend.symm.trans (hserial t (List.mem_append_right _ (List.mem_singleton_self t)))
    | env e =>
      cases hend.symm.trans (hserial t (List.mem_append_right _ (List.mem_singleton_self t)))
    | @step _ i _ β cm k t' y hi hp hb =>
      obtain ⟨rfl, hothers⟩ := hserial
      -- The thread that moves is the last one, since that one has not ended.
      obtain rfl : i = ts.length := by
        by_contra hne
        have hlast : (ts ++ [t])[ts.length]? = some t := by simp
        cases hend.symm.trans (hothers _ t (Ne.symm hne) hlast)
      obtain rfl : t = t' := by simpa using hi
      rw [List.set_append_right _ _ (Nat.le_refl _), Nat.sub_self, List.set_cons_zero]
      refine .of_run h hts ?_
      rw [hp] at hrun
      exact hrun

end System
