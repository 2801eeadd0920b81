import Mathlib.Order.Basic

/-!
# Programs over a signature of commands

A program issues commands one at a time and continues with their answers; it ends with a
value or an exception. Nothing is said about what a command does: that is a `Machine`, which
runs a command on a shared state and on the private session of the client that issued it.

`Machine.run` executes one program alone, and `Ends` is a postcondition of such an execution.
`Always` is the rule for a program that runs among others: an assertion that holds at each of its
commands for every answer whatever, so that no step of another client can break it.
-/

/-- Programs with commands in `C`, exceptions in `ε` and result in `α`. -/
inductive Prog (C : Type → Type u) (ε α : Type) : Type (max 1 u) where
  | pure (a : α) : Prog C ε α
  | raise (e : ε) : Prog C ε α
  | cmd {β : Type} (c : C β) (k : β → Prog C ε α) : Prog C ε α

namespace Prog

variable {C : Type → Type u} {ε α β γ : Type}

def bind : Prog C ε α → (α → Prog C ε β) → Prog C ε β
  | .pure a, f => f a
  | .raise e, _ => .raise e
  | .cmd c k, f => .cmd c fun b => (k b).bind f

/-- Run the handler on the exception of the first program, if it ends with one. -/
def tryCatch : Prog C ε α → (ε → Prog C ε α) → Prog C ε α
  | .pure a, _ => .pure a
  | .raise e, h => h e
  | .cmd c k, h => .cmd c fun b => (k b).tryCatch h

/-- The program with its exception as an ordinary result. -/
def outcome {ε' : Type} : Prog C ε α → Prog C ε' (Except ε α)
  | .pure a => .pure (.ok a)
  | .raise e => .pure (.error e)
  | .cmd c k => .cmd c fun b => (k b).outcome

/-- The program over a larger signature. -/
def lift {D : Type → Type v} (f : {β : Type} → C β → D β) : Prog C ε α → Prog D ε α
  | .pure a => .pure a
  | .raise e => .raise e
  | .cmd c k => .cmd (f c) fun b => (k b).lift f

/-- The program ends with a value, whatever its commands answer. -/
def NeverRaises : Prog C ε α → Prop
  | .pure _ => True
  | .raise _ => False
  | .cmd _ k => ∀ b, (k b).NeverRaises

/-- While all answers are ones that `A` allows, every command of the program satisfies `I`, its
result satisfies `Q`, and its exception `P`. -/
def Meets (A : {β : Type} → C β → β → Prop) (I : {β : Type} → C β → Prop) (P : ε → Prop)
    (Q : α → Prop) : Prog C ε α → Prop
  | .pure a => Q a
  | .raise e => P e
  | .cmd c k => I c ∧ ∀ b, A c b → (k b).Meets A I P Q

instance : Monad (Prog C ε) where
  pure := .pure
  bind := .bind

instance : MonadExceptOf ε (Prog C ε) where
  throw := .raise
  tryCatch := .tryCatch

/-- Issue one command. -/
def perform (c : C β) : Prog C ε β := .cmd c .pure

@[simp] theorem pure_bind (a : α) (f : α → Prog C ε β) : (Prog.pure a).bind f = f a := rfl

@[simp] theorem cmd_bind (c : C γ) (k : γ → Prog C ε α) (f : α → Prog C ε β) :
    (Prog.cmd c k).bind f = .cmd c fun b => (k b).bind f := rfl

@[simp] theorem bind_pure (p : Prog C ε α) : p.bind .pure = p := by
  induction p with
  | pure | raise => rfl
  | cmd c k ih => exact congrArg (Prog.cmd c) (funext ih)

theorem bind_assoc (p : Prog C ε α) (f : α → Prog C ε β) (g : β → Prog C ε γ) :
    (p.bind f).bind g = p.bind fun a => (f a).bind g := by
  induction p with
  | pure | raise => rfl
  | cmd c k ih => exact congrArg (Prog.cmd c) (funext ih)

theorem NeverRaises.bind {p : Prog C ε α} {f : α → Prog C ε β} (h : p.NeverRaises)
    (hf : ∀ a, (f a).NeverRaises) : (p.bind f).NeverRaises := by
  induction p with
  | pure a => exact hf a
  | raise e => exact h.elim
  | cmd c k ih => exact fun b => ih b (h b)

theorem NeverRaises.outcome {ε' : Type} (p : Prog C ε α) :
    (p.outcome : Prog C ε' (Except ε α)).NeverRaises := by
  induction p with
  | pure | raise => trivial
  | cmd c k ih => exact ih

theorem NeverRaises.tryCatch {f : ε → Prog C ε α} (hf : ∀ e, (f e).NeverRaises) (p : Prog C ε α) :
    (p.tryCatch f).NeverRaises := by
  induction p with
  | pure => trivial
  | raise e => exact hf e
  | cmd c k ih => exact ih

section
variable {A : {β : Type} → C β → β → Prop} {I I' : {β : Type} → C β → Prop} {P P' : ε → Prop}
variable {Q Q' : α → Prop}

theorem Meets.mono {p : Prog C ε α} (h : p.Meets A I P Q) (hI : ∀ {β : Type} (c : C β), I c → I' c)
    (hP : ∀ e, P e → P' e) (hQ : ∀ a, Q a → Q' a) : p.Meets A I' P' Q' := by
  induction p with
  | pure a => exact hQ a h
  | raise e => exact hP e h
  | cmd c k ih => exact ⟨hI c h.1, fun b hb => ih b (h.2 b hb)⟩

theorem Meets.bind {R : β → Prop} {p : Prog C ε α} {f : α → Prog C ε β} (h : p.Meets A I P Q)
    (hf : ∀ a, Q a → (f a).Meets A I P R) : (p.bind f).Meets A I P R := by
  induction p with
  | pure a => exact hf a h
  | raise e => exact h
  | cmd c k ih => exact ⟨h.1, fun b hb => ih b (h.2 b hb)⟩

theorem Meets.tryCatch {p : Prog C ε α} {f : ε → Prog C ε α} (h : p.Meets A I P Q)
    (hf : ∀ e, P e → (f e).Meets A I P' Q) : (p.tryCatch f).Meets A I P' Q := by
  induction p with
  | pure a => exact h
  | raise e => exact hf e h
  | cmd c k ih => exact ⟨h.1, fun b hb => ih b (h.2 b hb)⟩

theorem Meets.bind_outcome {ε' : Type} {T : ε' → Prop} {R : β → Prop} {p : Prog C ε α}
    {f : Except ε α → Prog C ε' β} (h : p.Meets A I P Q)
    (hok : ∀ a, Q a → (f (.ok a)).Meets A I T R)
    (herr : ∀ e, P e → (f (.error e)).Meets A I T R) : (p.outcome.bind f).Meets A I T R := by
  induction p with
  | pure a => exact hok a h
  | raise e => exact herr e h
  | cmd c k ih => exact ⟨h.1, fun b hb => ih b (h.2 b hb)⟩

end

end Prog

/-- One property of a result, and another one of an exception. -/
def Except.Satisfies {ε α : Type} (ok : α → Prop) (error : ε → Prop) : Except ε α → Prop
  | .ok a => ok a
  | .error e => error e

/-- What a command does: its answer, the new session of the client and the new shared state,
given a choice of the environment. A command may have to wait for the sessions of the other
clients. -/
structure Machine (C : Type → Type u) (σ τ χ : Type) where
  exec : {β : Type} → χ → C β → τ → σ → β × τ × σ
  blocked : {β : Type} → C β → List τ → Bool

/-- A command that was issued, with its answer. -/
structure Event (C : Type → Type u) where
  β : Type
  cmd : C β
  ans : β

namespace Machine

variable {C : Type → Type u} {σ τ χ ε α β : Type} (M : Machine C σ τ χ)

/-- Execute a program with no other client around. The stream holds the choices of the
environment, one for each command. -/
def run : (ℕ → χ) → Prog C ε α → τ → σ → Except ε α × τ × σ
  | _, .pure a, t, s => (.ok a, t, s)
  | _, .raise e, t, s => (.error e, t, s)
  | x, .cmd c k, t, s =>
    let r := M.exec (x 0) c t s
    run (fun n => x (n + 1)) (k r.1) r.2.1 r.2.2

/-- How many commands the execution issues. -/
def steps : (ℕ → χ) → Prog C ε α → τ → σ → ℕ
  | _, .pure _, _, _ => 0
  | _, .raise _, _, _ => 0
  | x, .cmd c k, t, s =>
    let r := M.exec (x 0) c t s
    steps (fun n => x (n + 1)) (k r.1) r.2.1 r.2.2 + 1

theorem run_bind (x : ℕ → χ) (p : Prog C ε α) (f : α → Prog C ε β) (t : τ) (s : σ) :
    M.run x (p.bind f) t s =
      match M.run x p t s with
      | (.ok a, t', s') => M.run (fun n => x (n + M.steps x p t s)) (f a) t' s'
      | (.error e, t', s') => (.error e, t', s') := by
  induction p generalizing x t s with
  | pure | raise => rfl
  | cmd c k ih =>
    refine (ih _ (fun n => x (n + 1)) _ _).trans ?_
    rw [run, steps]
    simp only [Nat.add_assoc]

/-- A result that is replaced by another one. -/
theorem run_bind_const (x : ℕ → χ) (p : Prog C ε α) (b : β) (t : τ) (s : σ) :
    (M.run x (p.bind fun _ => .pure b) t s).2 = (M.run x p t s).2 := by
  induction p generalizing x t s with
  | pure | raise => rfl
  | cmd c k ih => exact ih _ _ _ _

theorem run_tryCatch (x : ℕ → χ) (p : Prog C ε α) (f : ε → Prog C ε α) (t : τ) (s : σ) :
    M.run x (p.tryCatch f) t s =
      match M.run x p t s with
      | (.ok a, t', s') => (.ok a, t', s')
      | (.error e, t', s') => M.run (fun n => x (n + M.steps x p t s)) (f e) t' s' := by
  induction p generalizing x t s with
  | pure | raise => rfl
  | cmd c k ih =>
    refine (ih _ (fun n => x (n + 1)) _ _).trans ?_
    rw [run, steps]
    simp only [Nat.add_assoc]

theorem run_bind_ok {x : ℕ → χ} {p : Prog C ε α} {f : α → Prog C ε β} {a : α} {t t' : τ} {s s' : σ}
    (h : M.run x p t s = (.ok a, t', s')) :
    M.run x (p.bind f) t s = M.run (fun n => x (n + M.steps x p t s)) (f a) t' s' := by
  rw [run_bind, h]

theorem steps_bind_ok {x : ℕ → χ} {p : Prog C ε α} {f : α → Prog C ε β} {a : α} {t t' : τ}
    {s s' : σ} (h : M.run x p t s = (.ok a, t', s')) :
    M.steps x (p.bind f) t s =
      M.steps (fun n => x (n + M.steps x p t s)) (f a) t' s' + M.steps x p t s := by
  induction p generalizing x t s with
  | pure a => cases h; rfl
  | raise e => cases h
  | cmd c k ih =>
    refine (congrArg (· + 1) (ih _ h)).trans ?_
    rw [steps]
    simp only [Nat.add_assoc]

theorem run_outcome {ε' : Type} (x : ℕ → χ) (p : Prog C ε α) (t : τ) (s : σ) :
    M.run x (p.outcome : Prog C ε' (Except ε α)) t s =
      (.ok (M.run x p t s).1, (M.run x p t s).2) := by
  induction p generalizing x t s with
  | pure | raise => rfl
  | cmd c k ih => exact ih _ (fun n => x (n + 1)) _ _

theorem steps_outcome {ε' : Type} (x : ℕ → χ) (p : Prog C ε α) (t : τ) (s : σ) :
    M.steps x (p.outcome : Prog C ε' (Except ε α)) t s = M.steps x p t s := by
  induction p generalizing x t s with
  | pure | raise => rfl
  | cmd c k ih => exact congrArg (· + 1) (ih _ (fun n => x (n + 1)) _ _)

theorem run_neverRaises {p : Prog C ε α} (h : p.NeverRaises) (x : ℕ → χ) (t : τ) (s : σ) :
    ∃ a, (M.run x p t s).1 = .ok a := by
  induction p generalizing x t s with
  | pure a => exact ⟨a, rfl⟩
  | raise e => exact h.elim
  | cmd c k ih => exact ih _ (h _) _ _ _

/-- Execution in which the environment makes the same choice at every command. -/
def runConst (x : χ) : Prog C ε α → τ → σ → Except ε α × τ × σ := M.run fun _ => x

@[simp] theorem runConst_cmd (x : χ) (c : C β) (k : β → Prog C ε α) :
    M.runConst x (.cmd c k) t s =
      M.runConst x (k (M.exec x c t s).1) (M.exec x c t s).2.1 (M.exec x c t s).2.2 := rfl

/-- What every command preserves, an execution preserves. -/
theorem runConst_invariant {G : τ → σ → Prop} (x : χ)
    (hG : ∀ {β : Type} (c : C β) t s, G t s → G (M.exec x c t s).2.1 (M.exec x c t s).2.2)
    (p : Prog C ε α) (h : G t s) : G (M.runConst x p t s).2.1 (M.runConst x p t s).2.2 := by
  induction p generalizing t s with
  | pure | raise => exact h
  | cmd c k ih => exact ih _ (hG c t s h)

/-- **Frame.** A change of the shared state that no command of the program notices is there
afterwards, and has made no difference. -/
theorem run_comm {A : {β : Type} → C β → β → Prop} {I : {β : Type} → C β → Prop} {P : ε → Prop}
    {Q : α → Prop}
    (hA : ∀ {β : Type} (c : C β) x t s, A c (M.exec x c t s).1) (f : σ → σ)
    (hf : ∀ {β : Type} (c : C β), I c → ∀ x t s, M.exec x c t (f s) =
      ((M.exec x c t s).1, (M.exec x c t s).2.1, f (M.exec x c t s).2.2))
    {p : Prog C ε α} (h : p.Meets A I P Q) (x : ℕ → χ) (t : τ) (s : σ) :
    M.run x p t (f s) = ((M.run x p t s).1, (M.run x p t s).2.1, f (M.run x p t s).2.2) := by
  induction p generalizing x t s with
  | pure | raise => rfl
  | cmd c k ih =>
    simp only [run, hf c h.1]
    exact ih _ (h.2 _ (hA ..)) _ _ _

/-- **Postconditions.** `Q` holds of the result, the session and the state with which the program
ends when no other client is around. -/
def Ends (x : χ) (Q : Except ε α → τ → σ → Prop) (t : τ) (s : σ) (p : Prog C ε α) : Prop :=
  Q (M.runConst x p t s).1 (M.runConst x p t s).2.1 (M.runConst x p t s).2.2

section
variable {M} {x : χ} {Q Q' : Except ε α → τ → σ → Prop} {p : Prog C ε α}

theorem Ends.mono (h : M.Ends x Q t s p) (hQ : ∀ r t s, Q r t s → Q' r t s) :
    M.Ends x Q' t s p := hQ _ _ _ h

theorem Ends.cmd {c : C β} {k : β → Prog C ε α}
    (h : M.Ends x Q (M.exec x c t s).2.1 (M.exec x c t s).2.2 (k (M.exec x c t s).1)) :
    M.Ends x Q t s (.cmd c k) := h

theorem Ends.bind {R : Except ε β → τ → σ → Prop} {p : Prog C ε β} {f : β → Prog C ε α}
    (h : M.Ends x R t s p) (hok : ∀ t s b, R (.ok b) t s → M.Ends x Q t s (f b))
    (herr : ∀ t s e, R (.error e) t s → Q (.error e) t s) : M.Ends x Q t s (p.bind f) := by
  induction p generalizing t s with
  | pure b => exact hok _ _ _ h
  | raise e => exact herr _ _ _ h
  | cmd c k ih => exact ih _ h

/-- A part whose result is known, and the rest. -/
theorem Ends.of_run {p : Prog C ε β} {f : β → Prog C ε α} {a : β} {t' : τ} {s' : σ}
    (hp : M.runConst x p t s = (.ok a, t', s')) (h : M.Ends x Q t' s' (f a)) :
    M.Ends x Q t s (p.bind f) := by
  refine Ends.bind (R := fun r u v => (r, u, v) = (.ok a, t', s')) hp ?_ ?_
  · intro u v b hb
    cases hb
    exact h
  · intro u v e he
    cases he

theorem Ends.outcome {ε' : Type} {Q : Except ε' (Except ε α) → τ → σ → Prop}
    (h : M.Ends x (fun r t s => Q (.ok r) t s) t s p) : M.Ends x Q t s p.outcome := by
  induction p generalizing t s with
  | pure | raise => exact h
  | cmd c k ih => exact ih _ h

theorem Ends.tryCatch {R : Except ε α → τ → σ → Prop} {f : ε → Prog C ε α}
    (h : M.Ends x R t s p) (hok : ∀ t s a, R (.ok a) t s → Q (.ok a) t s)
    (herr : ∀ t s e, R (.error e) t s → M.Ends x Q t s (f e)) : M.Ends x Q t s (p.tryCatch f) := by
  induction p generalizing t s with
  | pure a => exact hok _ _ _ h
  | raise e => exact herr _ _ _ h
  | cmd c k ih => exact ih _ h

end

/-- **Local assertions.** `I` holds at each command of the program, with the events so far and
the session, and `Q` at its end, whatever the answers are: each answer is one that some shared
state gives. -/
def Always (I : {β : Type} → List (Event C) → τ → C β → Prop)
    (Q : List (Event C) → τ → Except ε α → Prop) : List (Event C) → τ → Prog C ε α → Prop
  | log, t, .pure a => Q log t (.ok a)
  | log, t, .raise e => Q log t (.error e)
  | log, t, .cmd c k => I log t c ∧ ∀ x s,
    let r := M.exec x c t s
    Always I Q (log ++ [⟨_, c, r.1⟩]) r.2.1 (k r.1)

section
variable {M} {I : {β : Type} → List (Event C) → τ → C β → Prop}

theorem Always.mono {Q Q' : List (Event C) → τ → Except ε α → Prop} {p : Prog C ε α}
    (h : M.Always I Q log t p) (hQ : ∀ log t r, Q log t r → Q' log t r) :
    M.Always I Q' log t p := by
  induction p generalizing log t with
  | pure | raise => exact hQ _ _ _ h
  | cmd c k ih => exact ⟨h.1, fun x s => ih _ (h.2 x s)⟩

theorem Always.imp {I' : {β : Type} → List (Event C) → τ → C β → Prop}
    {Q Q' : List (Event C) → τ → Except ε α → Prop} {p : Prog C ε α} (h : M.Always I Q log t p)
    (hI : ∀ log t {β : Type} (c : C β), I log t c → I' log t c)
    (hQ : ∀ log t r, Q log t r → Q' log t r) : M.Always I' Q' log t p := by
  induction p generalizing log t with
  | pure | raise => exact hQ _ _ _ h
  | cmd c k ih => exact ⟨hI _ _ _ h.1, fun x s => ih _ (h.2 x s)⟩

theorem Always.and {I' : {β : Type} → List (Event C) → τ → C β → Prop}
    {Q Q' : List (Event C) → τ → Except ε α → Prop} {p : Prog C ε α} (h : M.Always I Q log t p)
    (h' : M.Always I' Q' log t p) :
    M.Always (fun log t c => I log t c ∧ I' log t c)
      (fun log t r => Q log t r ∧ Q' log t r) log t p := by
  induction p generalizing log t with
  | pure | raise => exact ⟨h, h'⟩
  | cmd c k ih => exact ⟨⟨h.1, h'.1⟩, fun x s => ih _ (h.2 x s) (h'.2 x s)⟩

/-- The log only grows. -/
theorem Always.and_grows {Q : List (Event C) → τ → Except ε α → Prop} {p : Prog C ε α}
    {log₀ : List (Event C)} (h : M.Always I Q log t p) (hl : log₀ <+: log) :
    M.Always (fun log t c => log₀ <+: log ∧ I log t c) (fun log t r => log₀ <+: log ∧ Q log t r)
      log t p := by
  induction p generalizing log t with
  | pure | raise => exact ⟨hl, h⟩
  | cmd c k ih =>
    exact ⟨⟨hl, h.1⟩, fun x s => ih _ (h.2 x s) (hl.trans (List.prefix_append ..))⟩

/-- What holds of every command that is issued holds of every event in the log. -/
theorem Always.and_events {F : {β : Type} → C β → Prop} {Q : List (Event C) → τ → Except ε α → Prop}
    {p : Prog C ε α} (h : M.Always I Q log t p)
    (hF : ∀ log t {β : Type} (c : C β), I log t c → F c) (hl : ∀ e ∈ log, F e.cmd) :
    M.Always (fun log t c => (∀ e ∈ log, F e.cmd) ∧ I log t c)
      (fun log t r => (∀ e ∈ log, F e.cmd) ∧ Q log t r) log t p := by
  induction p generalizing log t with
  | pure | raise => exact ⟨hl, h⟩
  | cmd c k ih =>
    refine ⟨⟨hl, h.1⟩, fun x s => ih _ (h.2 x s) fun e he => ?_⟩
    rcases List.mem_append.mp he with he | he
    · exact hl e he
    · exact List.mem_singleton.mp he ▸ hF _ _ c h.1

theorem Always.of_forall {Q : List (Event C) → τ → Except ε α → Prop} {p : Prog C ε α}
    (hI : ∀ log t {β : Type} (c : C β), I log t c) (hQ : ∀ log t r, Q log t r) :
    M.Always I Q log t p := by
  induction p generalizing log t with
  | pure | raise => exact hQ _ _ _
  | cmd c k ih => exact ⟨hI _ _ _, fun x s => ih _⟩

/-- A program keeps to what it meets as long as it is answered so. -/
theorem Always.of_meets {A : {β : Type} → C β → β → Prop} {F : {β : Type} → C β → Prop}
    {P : ε → Prop} {Q : α → Prop} {p : Prog C ε α}
    (h : (∀ e ∈ log, A e.cmd e.ans) → p.Meets A F P Q) :
    M.Always (fun log _ c => (∀ e ∈ log, A e.cmd e.ans) → F c) (fun _ _ _ => True) log t p := by
  induction p generalizing log t with
  | pure | raise => trivial
  | cmd c k ih =>
    refine ⟨fun hl => (h hl).1, fun x s => ih _ fun hl => ?_⟩
    exact (h fun e he => hl e (List.mem_append_left _ he)).2 _ (hl _ (List.mem_append_right _
      (List.mem_singleton_self _)))

theorem Always.bind {Q : List (Event C) → τ → Except ε α → Prop}
    {Q' : List (Event C) → τ → Except ε β → Prop} {p : Prog C ε α} {f : α → Prog C ε β}
    (h : M.Always I Q log t p) (hok : ∀ log t a, Q log t (.ok a) → M.Always I Q' log t (f a))
    (herr : ∀ log t e, Q log t (.error e) → Q' log t (.error e)) :
    M.Always I Q' log t (p.bind f) := by
  induction p generalizing log t with
  | pure a => exact hok _ _ _ h
  | raise e => exact herr _ _ _ h
  | cmd c k ih => exact ⟨h.1, fun x s => ih _ (h.2 x s)⟩

theorem Always.outcome {ε' : Type} {Q : List (Event C) → τ → Except ε' (Except ε α) → Prop}
    {p : Prog C ε α} (h : M.Always I (fun log t r => Q log t (.ok r)) log t p) :
    M.Always I Q log t p.outcome := by
  induction p generalizing log t with
  | pure | raise => exact h
  | cmd c k ih => exact ⟨h.1, fun x s => ih _ (h.2 x s)⟩

theorem Always.tryCatch {Q Q' : List (Event C) → τ → Except ε α → Prop} {p : Prog C ε α}
    {f : ε → Prog C ε α} (h : M.Always I Q log t p)
    (hok : ∀ log t a, Q log t (.ok a) → Q' log t (.ok a))
    (herr : ∀ log t e, Q log t (.error e) → M.Always I Q' log t (f e)) :
    M.Always I Q' log t (p.tryCatch f) := by
  induction p generalizing log t with
  | pure a => exact hok _ _ _ h
  | raise e => exact herr _ _ _ h
  | cmd c k ih => exact ⟨h.1, fun x s => ih _ (h.2 x s)⟩

/-- The same machine, for an environment that chooses more. -/
def comap {χ' : Type} (M : Machine C σ τ χ) (g : χ' → χ) : Machine C σ τ χ' where
  exec x := M.exec (g x)
  blocked := M.blocked

theorem Always.comap {χ' : Type} {Q : List (Event C) → τ → Except ε α → Prop} {p : Prog C ε α}
    (g : χ' → χ) (h : M.Always I Q log t p) : (M.comap g).Always I Q log t p := by
  induction p generalizing log t with
  | pure | raise => exact h
  | cmd c k ih => exact ⟨h.1, fun x s => ih _ (h.2 (g x) s)⟩

end

/-! ## Larger machines -/

/-- The commands of one machine among those of another, whose sessions contain the ones of the
first. -/
structure Embedding {D : Type → Type v} (M : Machine C σ τ χ) (N : Machine D σ τ' χ) where
  cmd : {β : Type} → C β → D β
  get : τ' → τ
  put : τ' → τ → τ'
  get_put : ∀ t u, get (put t u) = u
  put_put : ∀ t u u', put (put t u) u' = put t u'
  put_get : ∀ t, put t (get t) = t
  exec : ∀ {β : Type} (x : χ) (c : C β) (t : τ') (s : σ),
    N.exec x (cmd c) t s =
      ((M.exec x c (get t) s).1, put t (M.exec x c (get t) s).2.1, (M.exec x c (get t) s).2.2)

section
variable {D : Type → Type v} {τ' : Type} {N : Machine D σ τ' χ} {M} (f : Embedding M N)

theorem Embedding.run_lift (x : ℕ → χ) (p : Prog C ε α) (t : τ') (s : σ) :
    N.run x (p.lift f.cmd) t s =
      ((M.run x p (f.get t) s).1, f.put t (M.run x p (f.get t) s).2.1,
        (M.run x p (f.get t) s).2.2) := by
  induction p generalizing x t s with
  | pure a => simp only [Prog.lift, run, f.put_get]
  | raise e => simp only [Prog.lift, run, f.put_get]
  | cmd c k ih => simp only [Prog.lift, run, f.exec, ih, f.get_put, f.put_put]

theorem Embedding.steps_lift (x : ℕ → χ) (p : Prog C ε α) (t : τ') (s : σ) :
    N.steps x (p.lift f.cmd) t s = M.steps x p (f.get t) s := by
  induction p generalizing x t s with
  | pure a => rfl
  | raise e => rfl
  | cmd c k ih => simp only [Prog.lift, steps, f.exec, ih, f.get_put]

/-- An event of the smaller machine, seen in the larger one. -/
def Embedding.event (e : Event C) : Event D := ⟨e.β, f.cmd e.cmd, e.ans⟩

/-- **Assertions lift.** -/
theorem Embedding.always {I : {β : Type} → List (Event C) → τ → C β → Prop}
    {Q : List (Event C) → τ → Except ε α → Prop} {J : {β : Type} → List (Event D) → τ' → D β → Prop}
    {R : List (Event D) → τ' → Except ε α → Prop} {p : Prog C ε α} {log : List (Event C)} {t : τ'}
    (hI : ∀ {β : Type} (log) (t : τ') (c : C β), I log (f.get t) c →
      J (log.map f.event) t (f.cmd c))
    (hQ : ∀ log t r, Q log (f.get t) r → R (log.map f.event) t r)
    (h : M.Always I Q log (f.get t) p) :
    N.Always J R (log.map f.event) t (p.lift f.cmd) := by
  induction p generalizing log t with
  | pure a => exact hQ _ _ _ h
  | raise e => exact hQ _ _ _ h
  | cmd c k ih =>
    refine ⟨hI _ _ _ h.1, fun x s => ?_⟩
    have hk : M.Always I Q (log ++ [⟨_, c, (M.exec x c (f.get t) s).1⟩])
        (f.get (f.put t (M.exec x c (f.get t) s).2.1)) (k (M.exec x c (f.get t) s).1) := by
      rw [f.get_put]
      exact h.2 x s
    have hlift := ih _ hk
    rw [List.map_append] at hlift
    simp only [f.exec]
    exact hlift

/-- An assertion of the larger machine that follows from an invariant of the commands of the
smaller one. -/
theorem Embedding.always_lift {J : List (Event D) → τ' → Prop}
    {I : {β : Type} → List (Event D) → τ' → D β → Prop}
    (hI : ∀ {β : Type} (log) (t : τ') (c : C β), J log t → I log t (f.cmd c))
    (hJ : ∀ {β : Type} (log) (t : τ') (c : C β) (x : χ) (s : σ), J log t →
      J (log ++ [⟨_, f.cmd c, (N.exec x (f.cmd c) t s).1⟩]) (N.exec x (f.cmd c) t s).2.1)
    (p : Prog C ε α) (h : J log t) : N.Always I (fun log t _ => J log t) log t (p.lift f.cmd) := by
  induction p generalizing log t with
  | pure a => exact h
  | raise e => exact h
  | cmd c k ih => exact ⟨hI _ _ c h, fun x s => ih _ (hJ _ _ c x s h)⟩

end

end Machine

/-- The states reached from `s₀` by events that satisfy `ok`, one after the other. -/
inductive Reach {σ η : Type} (step : η → σ → σ) (ok : σ → η → Prop) (s₀ : σ) : σ → Prop where
  | refl : Reach step ok s₀ s₀
  | step {s : σ} {e : η} (H : Reach step ok s₀ s) (hok : ok s e) : Reach step ok s₀ (step e s)

theorem Reach.invariant {σ η : Type} {step : η → σ → σ} {ok : σ → η → Prop} {s₀ s : σ}
    {P : σ → Prop} (H : Reach step ok s₀ s) (h₀ : P s₀)
    (hstep : ∀ s e, P s → ok s e → P (step e s)) : P s := by
  induction H with
  | refl => exact h₀
  | step _ hok ih => exact hstep _ _ ih hok

/-- Follow a list of events while a test accepts each of them. -/
def Reach.follow {σ η : Type} (step : η → σ → σ) (ok : σ → η → Bool) (s : σ) :
    List η → Option σ
  | [] => some s
  | e :: es => if ok s e then follow step ok (step e s) es else none

theorem Reach.of_follow {σ η : Type} {step : η → σ → σ} {ok : σ → η → Bool} {s₀ s s' : σ}
    (H : Reach step (fun s e => ok s e = true) s₀ s) {es : List η}
    (h : follow step ok s es = some s') : Reach step (fun s e => ok s e = true) s₀ s' := by
  induction es generalizing s with
  | nil => cases h; exact H
  | cons e es ih =>
    rw [follow] at h
    split at h
    · exact ih (H.step ‹_›) h
    · cases h
