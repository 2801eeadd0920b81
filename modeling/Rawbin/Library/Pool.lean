import Mathlib.Data.List.Basic
import Rawbin.Library.Program

/-!
# Interleaved execution

A configuration is a shared state and a pool of threads, each a request with what is left of
its program, its session and the events so far. A step starts a request, lets one thread issue
its next command, or lets the environment act; any number of requests may be in flight.

`Step.invariant` is the induction over runs; `Run.always` turns a local assertion of every
program (`Machine.Always`) into an invariant of every thread of every run. The steps of a run
may be restricted by a predicate on the configuration and the label, so that a run "in which
every commit finds ..." is a run like any other.
-/

/-- A machine together with the programs of the requests and the actions of the environment. -/
structure System (C : Type → Type u) (σ τ χ ε ρ α η : Type) extends Machine C σ τ χ where
  start : τ
  prog : ρ → Prog C ε α
  env : η → σ → σ

/-- A request in flight, or finished. -/
structure Thread (C : Type → Type u) (τ ε ρ α : Type) where
  req : ρ
  prog : Prog C ε α
  sess : τ
  log : List (Event C)

def Thread.ended {C : Type → Type u} {τ ε ρ α : Type} (t : Thread C τ ε ρ α) : Bool :=
  match t.prog with
  | .cmd _ _ => false
  | _ => true

structure Config (C : Type → Type u) (σ τ ε ρ α : Type) where
  state : σ
  threads : List (Thread C τ ε ρ α)

inductive Label (χ ρ η : Type) where
  | spawn (r : ρ)
  | step (i : ℕ) (x : χ)
  | env (e : η)

def Label.started {χ ρ η : Type} : Label χ ρ η → Option ρ
  | .spawn r => some r
  | _ => none

namespace System

variable {C : Type → Type u} {σ τ χ ε ρ α η : Type} (S : System C σ τ χ ε ρ α η)

def spawn (r : ρ) : Thread C τ ε ρ α := ⟨r, S.prog r, S.start, []⟩

/-- The sessions that a command of thread `i` may have to wait for. -/
def others (ts : List (Thread C τ ε ρ α)) (i : ℕ) : List τ := (ts.eraseIdx i).map Thread.sess

/-- The thread after its command was answered. -/
def advance {β : Type} (x : χ) (t : Thread C τ ε ρ α) (c : C β) (k : β → Prog C ε α) (s : σ) :
    Thread C τ ε ρ α :=
  let r := S.exec x c t.sess s
  ⟨t.req, k r.1, r.2.1, t.log ++ [⟨β, c, r.1⟩]⟩

inductive Step : Config C σ τ ε ρ α → Label χ ρ η → Config C σ τ ε ρ α → Prop where
  | spawn (r : ρ) : Step ⟨s, ts⟩ (.spawn r) ⟨s, ts ++ [S.spawn r]⟩
  | env (e : η) : Step ⟨s, ts⟩ (.env e) ⟨S.env e s, ts⟩
  | step {β : Type} {c : C β} {k : β → Prog C ε α} {t : Thread C τ ε ρ α} (x : χ)
      (hi : ts[i]? = some t) (hp : t.prog = .cmd c k)
      (hb : S.blocked c (others ts i) = false) :
      Step ⟨s, ts⟩ (.step i x) ⟨(S.exec x c t.sess s).2.2, ts.set i (S.advance x t c k s)⟩

/-- Compute the step with a given label, if it is enabled. -/
def next (c : Config C σ τ ε ρ α) : Label χ ρ η → Option (Config C σ τ ε ρ α)
  | .spawn r => some ⟨c.state, c.threads ++ [S.spawn r]⟩
  | .env e => some ⟨S.env e c.state, c.threads⟩
  | .step i x =>
    match c.threads[i]? with
    | none => none
    | some t =>
      match t.prog with
      | .cmd cm k =>
        if S.blocked cm (others c.threads i) then none
        else some ⟨(S.exec x cm t.sess c.state).2.2,
          c.threads.set i (S.advance x t cm k c.state)⟩
      | _ => none

theorem Step.of_next {c c' : Config C σ τ ε ρ α} (h : S.next c l = some c') : S.Step c l c' := by
  obtain ⟨s, ts⟩ := c
  cases l with
  | spawn r => cases h; exact .spawn r
  | env e => cases h; exact .env e
  | step i x =>
    simp only [next] at h
    cases hi : ts[i]? with
    | none => simp only [hi, reduceCtorEq] at h
    | some t =>
      simp only [hi] at h
      cases hp : t.prog with
      | pure | raise => simp only [hp, reduceCtorEq] at h
      | cmd cm k =>
        simp only [hp] at h
        split at h <;> rename_i hb
        · cases h
        · cases h
          exact .step x hi hp (Bool.not_eq_true _ ▸ hb)

/-- The requests in the pool are those that were started. -/
theorem next_reqs {c c' : Config C σ τ ε ρ α} (h : S.next c l = some c') :
    c'.threads.map Thread.req = c.threads.map Thread.req ++ l.started.toList := by
  cases Step.of_next S h with
  | spawn r => exact List.map_append
  | env e => exact (List.append_nil _).symm
  | @step ts i s β cm k t x hi hp hb =>
    obtain ⟨hlt, rfl⟩ := List.getElem?_eq_some_iff.mp hi
    show (ts.set i _).map Thread.req = ts.map Thread.req ++ []
    rw [List.map_set, List.append_nil]
    refine Eq.trans ?_ (List.set_getElem_self (i := i) (by simpa using hlt))
    rw [List.getElem_map]
    rfl

/-- The configurations reached from `c₀` by steps that all satisfy `ok`. -/
inductive Run (ok : Config C σ τ ε ρ α → Label χ ρ η → Prop) (c₀ : Config C σ τ ε ρ α) :
    Config C σ τ ε ρ α → Prop where
  | refl : Run ok c₀ c₀
  | step (H : Run ok c₀ c) (hok : ok c l) (hs : S.Step c l c') : Run ok c₀ c'

/-- A run, with what is observed of its steps, in order. A step may be restricted by what was
observed before. -/
inductive Traced {ω : Type} (ok : List ω → Config C σ τ ε ρ α → Label χ ρ η → Prop)
    (obs : Config C σ τ ε ρ α → Label χ ρ η → List ω) (c₀ : Config C σ τ ε ρ α) :
    List ω → Config C σ τ ε ρ α → Prop where
  | refl : Traced ok obs c₀ [] c₀
  | step (H : Traced ok obs c₀ os c) (hok : ok os c l) (hs : S.Step c l c') :
    Traced ok obs c₀ (os ++ obs c l) c'

/-- Follow a list of labels while a test accepts each of them. -/
def followIf (ok : Config C σ τ ε ρ α → Label χ ρ η → Bool) (c : Config C σ τ ε ρ α) :
    List (Label χ ρ η) → Option (Config C σ τ ε ρ α)
  | [] => some c
  | l :: ls => if ok c l then (S.next c l).bind fun c' => followIf ok c' ls else none

/-- Follow a list of labels while a test accepts each of them, and observe the steps. -/
def traceIf {ω : Type} (ok : List ω → Config C σ τ ε ρ α → Label χ ρ η → Bool)
    (obs : Config C σ τ ε ρ α → Label χ ρ η → List ω) (os : List ω) (c : Config C σ τ ε ρ α) :
    List (Label χ ρ η) → Option (List ω × Config C σ τ ε ρ α)
  | [] => some (os, c)
  | l :: ls =>
    if ok os c l then (S.next c l).bind fun c' => traceIf ok obs (os ++ obs c l) c' ls else none

/-- Follow a list of labels. -/
def follow (c : Config C σ τ ε ρ α) (ls : List (Label χ ρ η)) : Option (Config C σ τ ε ρ α) :=
  S.followIf (fun _ _ => true) c ls

variable {S} {ok : Config C σ τ ε ρ α → Label χ ρ η → Prop}
variable {c c₀ c' : Config C σ τ ε ρ α} {l : Label χ ρ η}

theorem Run.trans (H : S.Run ok c₀ c) (H' : S.Run ok c c') : S.Run ok c₀ c' := by
  induction H' with
  | refl => exact H
  | step _ hok hs ih => exact ih.step hok hs

theorem Run.mono {ok' : Config C σ τ ε ρ α → Label χ ρ η → Prop} (H : S.Run ok c₀ c)
    (h : ∀ c l, ok c l → ok' c l) : S.Run ok' c₀ c := by
  induction H with
  | refl => exact .refl
  | step _ hok hs ih => exact ih.step (h _ _ hok) hs

/-- A list of labels that can be followed is a run. -/
theorem Run.of_followIf {ok : Config C σ τ ε ρ α → Label χ ρ η → Bool} {ls : List (Label χ ρ η)}
    (h : S.followIf ok c ls = some c') : S.Run (fun c l => ok c l = true) c c' := by
  induction ls generalizing c with
  | nil => cases h; exact .refl
  | cons l ls ih =>
    rw [followIf] at h
    split at h <;> rename_i hok
    · obtain ⟨d, hd, h⟩ := Option.bind_eq_some_iff.mp h
      exact (Run.refl.step hok (.of_next S hd)).trans (ih h)
    · cases h

/-- **Induction over runs.** -/
theorem Run.invariant {P : Config C σ τ ε ρ α → Prop} (H : S.Run ok c₀ c) (h₀ : P c₀)
    (hstep : ∀ c l c', P c → ok c l → S.Step c l c' → P c') : P c := by
  induction H with
  | refl => exact h₀
  | step _ hok hs ih => exact hstep _ _ _ ih hok hs

section
variable {ω : Type} {obs : Config C σ τ ε ρ α → Label χ ρ η → List ω} {os : List ω}
variable {okt : List ω → Config C σ τ ε ρ α → Label χ ρ η → Prop}

theorem Traced.run (H : S.Traced okt obs c₀ os c) (h : ∀ os c l, okt os c l → ok c l) :
    S.Run ok c₀ c := by
  induction H with
  | refl => exact .refl
  | step _ hok hs ih => exact ih.step (h _ _ _ hok) hs

theorem Run.traced (H : S.Run ok c₀ c) (obs : Config C σ τ ε ρ α → Label χ ρ η → List ω) :
    ∃ os, S.Traced (fun _ => ok) obs c₀ os c := by
  induction H with
  | refl => exact ⟨[], .refl⟩
  | step _ hok hs ih =>
    obtain ⟨os, ih⟩ := ih
    exact ⟨_, ih.step hok hs⟩

/-- A list of labels that can be followed is a run with the same observations. -/
theorem Traced.of_traceIf {okt : List ω → Config C σ τ ε ρ α → Label χ ρ η → Bool}
    {ls : List (Label χ ρ η)} {os' : List ω}
    (H : S.Traced (fun os c l => okt os c l = true) obs c₀ os c)
    (h : S.traceIf okt obs os c ls = some (os', c')) :
    S.Traced (fun os c l => okt os c l = true) obs c₀ os' c' := by
  induction ls generalizing os c with
  | nil => cases h; exact H
  | cons l ls ih =>
    rw [traceIf] at h
    split at h <;> rename_i hok
    · obtain ⟨d, hd, h⟩ := Option.bind_eq_some_iff.mp h
      exact ih (H.step hok (.of_next S hd)) h
    · cases h

/-- **Induction over runs** with their observations. -/
theorem Traced.invariant {P : List ω → Config C σ τ ε ρ α → Prop} (H : S.Traced okt obs c₀ os c)
    (h₀ : P [] c₀) (hstep : ∀ os c l c', P os c → okt os c l → S.Step c l c' →
      P (os ++ obs c l) c') : P os c := by
  induction H with
  | refl => exact h₀
  | step _ hok hs ih => exact hstep _ _ _ _ ih hok hs

end

/-! ## Threads -/

/-- Every thread after a step is a new one, an old one, or the one that moved. -/
theorem Step.thread_cases {P : Thread C τ ε ρ α → Prop} (H : S.Step c l c')
    (hold : ∀ t ∈ c.threads, P t) (hnew : ∀ r, l = .spawn r → P (S.spawn r))
    (hmove : ∀ {β : Type} {cm : C β} {k : β → Prog C ε α} {t x}, t ∈ c.threads →
      t.prog = .cmd cm k → P (S.advance x t cm k c.state)) : ∀ t ∈ c'.threads, P t := by
  cases H with
  | spawn r =>
    intro t ht
    rcases List.mem_append.mp ht with ht | ht
    · exact hold t ht
    · exact List.mem_singleton.mp ht ▸ hnew r rfl
  | env e => exact hold
  | step x hi hp hb =>
    intro t ht
    rcases List.mem_or_eq_of_mem_set ht with ht | rfl
    · exact hold t ht
    · exact hmove (List.mem_of_getElem? hi) hp

/-- A thread stays in the pool; its request is the same and its log only grows. -/
theorem Step.thread_grows {i : ℕ} {t : Thread C τ ε ρ α} (H : S.Step c l c')
    (hi : c.threads[i]? = some t) :
    ∃ t', c'.threads[i]? = some t' ∧ t'.req = t.req ∧ t.log <+: t'.log := by
  have hlt : i < c.threads.length := (List.getElem?_eq_some_iff.mp hi).1
  cases H with
  | spawn r => exact ⟨t, by rw [List.getElem?_append_left hlt]; exact hi, rfl, List.prefix_rfl⟩
  | env e => exact ⟨t, hi, rfl, List.prefix_rfl⟩
  | @step ts j s β cm k t₁ x hj hp hb =>
    by_cases hij : j = i
    · subst j
      cases hi.symm.trans hj
      exact ⟨S.advance x t cm k s, List.getElem?_set_self hlt, rfl, List.prefix_append ..⟩
    · exact ⟨t, by rw [List.getElem?_set_ne hij]; exact hi, rfl, List.prefix_rfl⟩

theorem Run.thread_grows {i : ℕ} {t : Thread C τ ε ρ α} (H : S.Run ok c₀ c)
    (hi : c₀.threads[i]? = some t) :
    ∃ t', c.threads[i]? = some t' ∧ t'.req = t.req ∧ t.log <+: t'.log := by
  refine H.invariant (P := fun c => ∃ t', c.threads[i]? = some t' ∧ t'.req = t.req ∧
    t.log <+: t'.log)
    ⟨t, hi, rfl, List.prefix_rfl⟩ fun _ _ _ hc _ hs => ?_
  obtain ⟨t₁, hi₁, hreq₁, hlog₁⟩ := hc
  obtain ⟨t₂, hi₂, hreq₂, hlog₂⟩ := hs.thread_grows hi₁
  exact ⟨t₂, hi₂, hreq₂.trans hreq₁, hlog₁.trans hlog₂⟩

/-- The thread at a position keeps its request. -/
theorem Step.req_eq {i : ℕ} {t t' : Thread C τ ε ρ α} (H : S.Step c l c')
    (hi : c.threads[i]? = some t) (hi' : c'.threads[i]? = some t') : t'.req = t.req := by
  obtain ⟨u, hu, hreq, _⟩ := H.thread_grows hi
  cases hi'.symm.trans hu
  exact hreq

theorem mem_others {ts : List (Thread C τ ε ρ α)} (hj : ts[j]? = some t) (hij : j ≠ i) :
    t.sess ∈ others ts i :=
  List.mem_map_of_mem (List.mem_eraseIdx_iff_getElem?.mpr ⟨j, hij, hj⟩)

/-- A relation between any two different threads. -/
def Pairs (R : Thread C τ ε ρ α → Thread C τ ε ρ α → Prop) (ts : List (Thread C τ ε ρ α)) : Prop :=
  ∀ (i j : ℕ) t t', i ≠ j → ts[i]? = some t → ts[j]? = some t' → R t t'

/-- Where an element of a list with one more element stands. -/
theorem getElem?_snoc {A : Type*} {as : List A} {a b : A} {i : ℕ} (h : (as ++ [a])[i]? = some b) :
    as[i]? = some b ∨ i = as.length ∧ b = a := by
  rw [List.getElem?_append] at h
  split at h
  · exact .inl h
  · have hlt : i - as.length < 1 := (List.getElem?_eq_some_iff.mp h).1
    exact .inr ⟨by omega, List.mem_singleton.mp (List.mem_of_getElem? h)⟩

/-- The last element that passes a test, when the list gets one more. -/
theorem getLast?_filter_snoc {A : Type*} (as : List A) (a : A) (p : A → Bool) :
    ((as ++ [a]).filter p).getLast? = if p a then some a else (as.filter p).getLast? := by
  rw [List.filter_append]
  by_cases ha : p a = true
  · rw [if_pos ha, List.filter_cons_of_pos ha, List.filter_nil, List.getLast?_concat]
  · rw [if_neg ha, List.filter_cons_of_neg ha, List.filter_nil, List.append_nil]

theorem Pairs.snoc {R : Thread C τ ε ρ α → Thread C τ ε ρ α → Prop} {ts : List (Thread C τ ε ρ α)}
    {u : Thread C τ ε ρ α} (H : Pairs R ts) (hu : ∀ t ∈ ts, R t u ∧ R u t) :
    Pairs R (ts ++ [u]) := by
  intro i j t t' hij hi hj
  rcases getElem?_snoc hi with hi' | ⟨rfl, rfl⟩ <;> rcases getElem?_snoc hj with hj' | ⟨rfl, rfl⟩
  · exact H i j t t' hij hi' hj'
  · exact (hu t (List.mem_of_getElem? hi')).1
  · exact (hu t' (List.mem_of_getElem? hj')).2
  · exact absurd rfl hij

theorem Pairs.set {R : Thread C τ ε ρ α → Thread C τ ε ρ α → Prop} {ts : List (Thread C τ ε ρ α)}
    {u : Thread C τ ε ρ α} {i : ℕ} (H : Pairs R ts)
    (hu : ∀ (j : ℕ) t, j ≠ i → ts[j]? = some t → R t u ∧ R u t) : Pairs R (ts.set i u) := by
  intro j k t t' hjk hj hk
  rw [List.getElem?_set] at hj hk
  split at hj <;> split at hk
  · omega
  · cases (Option.ite_none_right_eq_some.mp hj).2
    exact (hu k t' (by omega) hk).2
  · cases (Option.ite_none_right_eq_some.mp hk).2
    exact (hu j t (by omega) hj).1
  · exact H j k t t' hjk hj hk

/-- **Inversion**: a thread after a step was there before and did not move, or is new, or is the
one that moved. -/
theorem Step.getElem?_cases {j : ℕ} {t' : Thread C τ ε ρ α} (H : S.Step c l c')
    (hj : c'.threads[j]? = some t') :
    (c.threads[j]? = some t' ∧ ∀ x, l ≠ .step j x) ∨
    (∃ r, l = .spawn r ∧ j = c.threads.length ∧ t' = S.spawn r) ∨
    ∃ x t, ∃ (β : Type) (cm : C β) (k : β → Prog C ε α), l = .step j x ∧
      c.threads[j]? = some t ∧ t.prog = .cmd cm k ∧ S.blocked cm (others c.threads j) = false ∧
      t' = S.advance x t cm k c.state ∧ c'.state = (S.exec x cm t.sess c.state).2.2 := by
  cases H with
  | env e => exact .inl ⟨hj, nofun⟩
  | @spawn s ts r =>
    rcases getElem?_snoc hj with hj | ⟨rfl, rfl⟩
    · exact .inl ⟨hj, nofun⟩
    · exact .inr (.inl ⟨r, rfl, rfl, rfl⟩)
  | @step ts i s β cm k t x hi hp hb =>
    change (ts.set i (S.advance x t cm k s))[j]? = some t' at hj
    by_cases h : i = j
    · subst h
      rw [List.getElem?_set_self (List.getElem?_eq_some_iff.mp hi).1] at hj
      exact .inr (.inr ⟨x, t, β, cm, k, rfl, hi, hp, hb, (Option.some.inj hj).symm, rfl⟩)
    · rw [List.getElem?_set_ne h] at hj
      exact .inl ⟨hj, fun _ he => by cases he; exact h rfl⟩

theorem Step.getElem?_advance {t : Thread C τ ε ρ α} {β : Type} {cm : C β} {k : β → Prog C ε α}
    (H : S.Step c (.step i x) c') (hi : c.threads[i]? = some t) (hp : t.prog = .cmd cm k) :
    c'.threads[i]? = some (S.advance x t cm k c.state) := by
  cases H with
  | step x hi' hp' hb =>
    cases hi.symm.trans hi'
    cases hp.symm.trans hp'
    exact List.getElem?_set_self (List.getElem?_eq_some_iff.mp hi).1

theorem Step.state_advance {t : Thread C τ ε ρ α} {β : Type} {cm : C β} {k : β → Prog C ε α}
    (H : S.Step c (.step i x) c') (hi : c.threads[i]? = some t) (hp : t.prog = .cmd cm k) :
    c'.state = (S.exec x cm t.sess c.state).2.2 := by
  cases H with
  | step x hi' hp' hb =>
    cases hi.symm.trans hi'
    cases hp.symm.trans hp'
    rfl

/-- What a new thread and the thread that moves have to be checked for, if a symmetric relation
is to hold between any two threads. -/
theorem Step.pairs {R : Thread C τ ε ρ α → Thread C τ ε ρ α → Prop} (H : S.Step c l c')
    (hsymm : ∀ t t', R t t' → R t' t) (hold : Pairs R c.threads)
    (hnew : ∀ r, l = .spawn r → ∀ t ∈ c.threads, R t (S.spawn r))
    (hmove : ∀ {β : Type} {cm : C β} {k : β → Prog C ε α} {i t x}, l = .step i x →
      c.threads[i]? = some t → t.prog = .cmd cm k → S.blocked cm (others c.threads i) = false →
      ∀ j t', j ≠ i → c.threads[j]? = some t' → R (S.advance x t cm k c.state) t') :
    Pairs R c'.threads := by
  intro i j t t' hij hi hj
  rcases H.getElem?_cases hi with ⟨hi', _⟩ | ⟨r, hr, hri, rfl⟩ |
      ⟨x, u, β, cm, k, hl, hu, hp, hb, rfl, _⟩ <;>
    rcases H.getElem?_cases hj with ⟨hj', _⟩ | ⟨r', hr', hrj, rfl⟩ |
      ⟨x', u', β', cm', k', hl', hu', hp', hb', rfl, _⟩
  · exact hold i j t t' hij hi' hj'
  · exact hnew r' hr' t (List.mem_of_getElem? hi')
  · exact hsymm _ _ (hmove hl' hu' hp' hb' i t hij hi')
  · exact hsymm _ _ (hnew r hr t' (List.mem_of_getElem? hj'))
  · exact absurd (hri.trans hrj.symm) hij
  · exact nomatch hr.symm.trans hl'
  · exact hmove hl hu hp hb j t' hij.symm hj'
  · exact nomatch hl.symm.trans hr'
  · cases hl.symm.trans hl'
    exact absurd rfl hij

/-- In a configuration between the two, the event was the answer to the next command of thread
`i`, and it stands in the log of the thread after the events of before. -/
def Answered (S : System C σ τ χ ε ρ α η) (ok : Config C σ τ ε ρ α → Label χ ρ η → Prop)
    (c₀ c : Config C σ τ ε ρ α) (i : ℕ) (e : Event C) : Prop :=
  ∃ c₁ t x, ∃ (β : Type) (cm : C β) (k : β → Prog C ε α), S.Run ok c₀ c₁ ∧ S.Run ok c₁ c ∧
    c₁.threads[i]? = some t ∧ t.prog = .cmd cm k ∧ e = ⟨β, cm, (S.exec x cm t.sess c₁.state).1⟩ ∧
    ∃ t', c.threads[i]? = some t' ∧ t.log ++ [e] <+: t'.log

theorem Answered.step {i : ℕ} {e : Event C} (h : S.Answered ok c₀ c i e) (hok : ok c l)
    (hs : S.Step c l c') : S.Answered ok c₀ c' i e := by
  obtain ⟨c₁, t, x, β, cm, k, H, H', hi, hp, he, t', hi', hlog⟩ := h
  obtain ⟨u, hu, _, hgrows⟩ := hs.thread_grows hi'
  exact ⟨c₁, t, x, β, cm, k, H, H'.step hok hs, hi, hp, he, u, hu, hlog.trans hgrows⟩

/-- Every event in the log of a thread has been answered. -/
theorem Run.answered {i : ℕ} {t : Thread C τ ε ρ α} {e : Event C} (H : S.Run ok c₀ c)
    (h₀ : c₀.threads = []) (hi : c.threads[i]? = some t) (he : e ∈ t.log) :
    S.Answered ok c₀ c i e := by
  induction H generalizing t with
  | refl =>
    rw [h₀] at hi
    cases hi
  | @step c l c' H hok hs ih =>
    rcases hs.getElem?_cases hi with ⟨hold, _⟩ | ⟨r, _, _, rfl⟩ |
      ⟨x, t, β, cm, k, _, hold, hp, _, rfl, _⟩
    · exact (ih hold he).step hok hs
    · cases he
    · rcases List.mem_append.mp he with he | he
      · exact (ih hold he).step hok hs
      · obtain rfl := List.mem_singleton.mp he
        exact ⟨c, t, x, β, cm, k, H, Run.refl.step hok hs, hold, hp, rfl, _, hi, List.prefix_rfl⟩

/-- Thread `i` was answered this event at a moment of the run at which the state had this property:
the event stands in its log after those that the thread had seen at that moment. -/
def AnsweredAt (S : System C σ τ χ ε ρ α η) (ok : Config C σ τ ε ρ α → Label χ ρ η → Prop)
    (c₀ c : Config C σ τ ε ρ α) (i : ℕ) (e : Event C) (P : σ → Prop) : Prop :=
  ∃ c₁ t₁ t, S.Run ok c₀ c₁ ∧ S.Run ok c₁ c ∧ P c₁.state ∧ c₁.threads[i]? = some t₁ ∧
    c.threads[i]? = some t ∧ t₁.log ++ [e] <+: t.log

/-- An event in a log tells of the moment at which its command was answered. -/
theorem Run.answeredAt {i : ℕ} {t : Thread C τ ε ρ α} {e : Event C} {P : σ → Prop}
    (H : S.Run ok c₀ c) (h₀ : c₀.threads = []) (hi : c.threads[i]? = some t) (he : e ∈ t.log)
    (h : ∀ (c₁ : Config C σ τ ε ρ α) (t₁ : Thread C τ ε ρ α) (x : χ) (β : Type) (cm : C β)
      (k : β → Prog C ε α), S.Run ok c₀ c₁ → t₁ ∈ c₁.threads → t₁.req = t.req →
        t₁.prog = .cmd cm k →
      e = ⟨β, cm, (S.exec x cm t₁.sess c₁.state).1⟩ → P c₁.state) :
    S.AnsweredAt ok c₀ c i e P := by
  obtain ⟨c₁, t₁, x, β, cm, k, H₁, H₂, hi₁, hp, he, t', hi', hlog⟩ := H.answered h₀ hi he
  obtain ⟨t₂, hi₂, hreq, _⟩ := H₂.thread_grows hi₁
  cases hi.symm.trans hi₂
  exact ⟨c₁, t₁, t', H₁, H₂,
    h c₁ t₁ x β cm k H₁ (List.mem_of_getElem? hi₁) hreq.symm hp he, hi₁, hi', hlog⟩

/-- A property of the request and the log of some thread that only becomes truer persists. -/
theorem Step.exists_thread {P : ρ → List (Event C) → Prop} (H : S.Step c l c')
    (hP : ∀ r log log', log <+: log' → P r log → P r log')
    (h : ∃ t ∈ c.threads, P t.req t.log) : ∃ t ∈ c'.threads, P t.req t.log := by
  obtain ⟨t, ht, h⟩ := h
  obtain ⟨i, hi⟩ := List.getElem?_of_mem ht
  obtain ⟨t', hi', hr, hl⟩ := H.thread_grows hi
  exact ⟨t', List.mem_of_getElem? hi', hr ▸ hP _ _ _ hl h⟩

/-- Each thread satisfies the assertion of its program after a step if each did before, and the
program of a new one does from its start. -/
theorem Step.always {I : ρ → {β : Type} → List (Event C) → τ → C β → Prop}
    {Q : ρ → List (Event C) → τ → Except ε α → Prop} (H : S.Step c l c')
    (hc : ∀ t ∈ c.threads, S.Always (I t.req) (Q t.req) t.log t.sess t.prog)
    (hnew : ∀ r, l = .spawn r → S.Always (I r) (Q r) [] S.start (S.prog r)) :
    ∀ t ∈ c'.threads, S.Always (I t.req) (Q t.req) t.log t.sess t.prog := by
  refine H.thread_cases hc hnew fun {β cm k t x} ht hp => ?_
  have h := hc t ht
  rw [hp] at h
  exact h.2 x c.state

/-- **Local assertions hold in every run**: if every program satisfies its assertion from its
start, every thread of every configuration reached satisfies it from where it stands. -/
theorem Run.always {I : ρ → {β : Type} → List (Event C) → τ → C β → Prop}
    {Q : ρ → List (Event C) → τ → Except ε α → Prop} (H : S.Run ok c₀ c)
    (h₀ : ∀ t ∈ c₀.threads, S.Always (I t.req) (Q t.req) t.log t.sess t.prog)
    (hnew : ∀ c r, ok c (.spawn r) → S.Always (I r) (Q r) [] S.start (S.prog r)) :
    ∀ t ∈ c.threads, S.Always (I t.req) (Q t.req) t.log t.sess t.prog :=
  H.invariant (P := fun c => ∀ t ∈ c.threads, S.Always (I t.req) (Q t.req) t.log t.sess t.prog) h₀
    fun _ _ _ hc hok hs => hs.always hc fun r hr => hnew _ r (hr ▸ hok)

/-- **What a thread knows**: what holds of its log and its session at the start, and is preserved by
every command that its program issues. -/
theorem Run.known {I : ρ → {β : Type} → List (Event C) → τ → C β → Prop}
    {Q : ρ → List (Event C) → τ → Except ε α → Prop} {J : ρ → List (Event C) → τ → Prop}
    (H : S.Run ok c₀ c) (h₀ : c₀.threads = [])
    (hnew : ∀ c r, ok c (.spawn r) → S.Always (I r) (Q r) [] S.start (S.prog r))
    (hstart : ∀ r, J r [] S.start)
    (hstep : ∀ (r : ρ) {β : Type} (log : List (Event C)) (t : τ) (cm : C β) (x : χ) (s : σ),
      I r log t cm → J r log t →
        J r (log ++ [⟨β, cm, (S.exec x cm t s).1⟩]) (S.exec x cm t s).2.1) :
    ∀ t ∈ c.threads, J t.req t.log t.sess := by
  refine (H.invariant (P := fun c => (∀ t ∈ c.threads, J t.req t.log t.sess) ∧
      ∀ t ∈ c.threads, S.Always (I t.req) (Q t.req) t.log t.sess t.prog)
    ⟨by simp [h₀], by simp [h₀]⟩
    fun c l c' hc hok hs => ⟨?_, hs.always hc.2 fun r hr => hnew c r (hr ▸ hok)⟩).1
  refine hs.thread_cases hc.1 (fun r _ => hstart r) fun {β cm k t x} ht hp => ?_
  have h := hc.2 t ht
  rw [hp] at h
  exact hstep t.req t.log t.sess cm x c.state h.1 (hc.1 t ht)

end System
