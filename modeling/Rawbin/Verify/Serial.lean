import Rawbin.Library.Serial
import Rawbin.Verify.Statements

/-!
# Requests that have ended

A request that has ended has answered once and holds no locks. So the next one does not have to wait
for it: what `serve`, which runs one request from its first command to its last, says about requests
one after the other is what the running system does when they do not overlap, and nothing else.
-/

namespace Rawbin

/-! ## How a request ends -/

section
variable {E : Env} {ok : Pool → Label Choice Job ℕ → Prop} {w₀ : World} {c : Pool} {t : JobThread}

/-- How a job that has ended stands. -/
theorem run_performsEnd (H : (backend E).Run ok ⟨w₀, []⟩ c) (ht : t ∈ c.threads)
    (hend : t.ended = true) :
    ∃ outcome, t.prog = .pure outcome ∧ t.req.PerformsEnd t.log t.sess.written (.ok outcome) := by
  have h := H.always (I := fun j {_} log (t : Session) c => j.Performs E log t.written c)
    (Q := fun j log (t : Session) r => j.PerformsEnd log t.written r) (fun _ h => nomatch h)
    (fun _ j _ => j.performs .idle rfl) t ht
  cases hp : t.prog with
  | cmd => simp [Thread.ended, hp] at hend
  | pure outcome =>
    rw [hp] at h
    exact ⟨outcome, rfl, h⟩
  | raise e =>
    rw [hp] at h
    have h : t.req.PerformsEnd t.log t.sess.written (.error e) := h
    cases hreq : t.req with
    | http r =>
      rw [hreq] at h
      obtain ⟨_, h, _⟩ := h
      cases h
    | _ =>
      rw [hreq] at h
      obtain ⟨⟨_, h⟩, _⟩ := h
      cases h

theorem written_eq_nil_of_ended (H : (backend E).Run ok ⟨w₀, []⟩ c) (ht : t ∈ c.threads)
    (hend : t.ended = true) : t.sess.written = [] := by
  obtain ⟨outcome, _, h⟩ := run_performsEnd H ht hend
  cases hreq : t.req with
  | http r =>
    rw [hreq] at h
    exact h.choose_spec.2.2.2
  | _ =>
    rw [hreq] at h
    exact h.2

end

/-- **Every request is answered once.** However the jobs are interleaved, none of them ends with an
exception, a request that has ended has sent the response that it returns and no other one and has
ended its transaction once, and no job that has ended holds a lock. -/
theorem requests_served {E : Env} {ok : Pool → Label Choice Job ℕ → Prop} {w₀ : World} {c : Pool}
    {t : JobThread} (H : (backend E).Run ok ⟨w₀, []⟩ c) (ht : t ∈ c.threads)
      (hend : t.ended = true) :
    t.sess.written = [] ∧ ∃ outcome, t.prog = .pure outcome ∧ ∀ r, t.req = .http r →
      ∃ response, outcome = .response response ∧ responses t.log = [response] ∧
        (endings t.log).length = 1 := by
  obtain ⟨outcome, hp, h⟩ := run_performsEnd H ht hend
  refine ⟨written_eq_nil_of_ended H ht hend, outcome, hp, fun r hr => ?_⟩
  rw [hr] at h
  obtain ⟨response, ho, hresp, hlen, _⟩ := h
  cases ho
  exact ⟨response, rfl, hresp, hlen⟩

/-- The second refresh waits for the row that the first has revoked. -/
def refreshesContend : List (Label Choice Job Nat) :=
  .spawn (refreshRequest 1) :: .spawn (refreshRequest 2) :: Sample.steps 0 9 ++ Sample.steps 1 7

/-- The first refresh has ended; it has sent its pair and holds nothing. -/
theorem refreshesContend_served : ∃ c t,
    (backend Sample.env).follow ⟨tokenWorld, []⟩
      (refreshesContend ++ Sample.steps 0 2) = some c ∧ c.threads[0]? = some t ∧
    t.sess.written = [] ∧ ∃ outcome, t.prog = .pure outcome ∧
      ∀ r, t.req = .http r → ∃ response, outcome = .response response ∧
        responses t.log = [response] ∧ (endings t.log).length = 1 := by
  have h : ((backend Sample.env).follow ⟨tokenWorld, []⟩
      (refreshesContend ++ Sample.steps 0 2)).any (·.threads[0]?.any (·.ended)) = true := by
    decide +kernel
  obtain ⟨c, hc, h⟩ := (Option.any_eq_true _ _).mp h
  obtain ⟨t, ht, hend⟩ := (Option.any_eq_true _ _).mp h
  exact ⟨c, t, hc, ht, requests_served (.of_followIf hc) (List.mem_of_getElem? ht) hend⟩

/-! ## Requests that do not overlap -/

/-- Requests served one after the other, with their responses, while time passes in between. -/
inductive ServedInTurn (E : Env) (w₀ : World) : List (Request × Response) → World → Prop where
  | nil : ServedInTurn E w₀ [] w₀
  | request {rs : List (Request × Response)} {w : World} (h : ServedInTurn E w₀ rs w)
      (r : Request) :
    ServedInTurn E w₀ (rs ++ [(r, (serve E r w).1)]) (serve E r w).2
  | tick {rs : List (Request × Response)} {w : World} (h : ServedInTurn E w₀ rs w) (dt : ℕ) :
    ServedInTurn E w₀ rs (w.tick dt)

/-- The request of a pool, and its result, that stand for a request and its response. -/
def Served.job (p : Request × Response) : Job × Except Exn Outcome :=
  (.http p.1, .ok (.response p.2))

theorem Request.prog_neverRaises (E : Env) (r : Request) : (r.prog E).NeverRaises := by
  refine (Prog.NeverRaises.outcome _).bind fun res => ?_
  cases res with
  | ok p =>
    intro _
    have hfinish : (finish p.2).NeverRaises := by
      refine .tryCatch (fun e => ?_) _
      exact fun _ => trivial
    exact hfinish.bind fun _ => trivial
  | error e => exact fun _ _ => trivial

theorem alone_http (E : Env) (r : Request) (w : World) :
    ((backend E).alone .ok (.http r) w).1 = .ok (.response (serve E r w).1) ∧
    ((backend E).alone .ok (.http r) w).2.2 = (serve E r w).2 := by
  obtain ⟨response, hr⟩ := machine.run_neverRaises (r.prog_neverRaises E) (fun _ => .ok) .idle w
  obtain ⟨res, t, w', hrun⟩ : ∃ res t w', machine.runConst .ok (r.prog E) .idle w = (res, t, w') :=
    ⟨_, _, _, rfl⟩
  obtain rfl : res = .ok response := (congrArg Prod.fst hrun).symm.trans hr
  have hserve : serve E r w = (response, w') := by rw [serve, hrun]
  have halone : (backend E).alone .ok (.http r) w = (.ok (.response response), t, w') :=
    machine.run_bind_ok hrun
  rw [halone, hserve]
  exact ⟨rfl, rfl⟩

section
variable {E : Env} {w₀ w : World} {c : Pool}

theorem ServedInTurn.inTurn {rs : List (Request × Response)} (h : ServedInTurn E w₀ rs w) :
    (backend E).InTurn .ok w₀ (rs.map Served.job) w := by
  induction h with
  | nil => exact .nil
  | @request rs w _ r ih =>
    obtain ⟨hresult, hworld⟩ := alone_http E r w
    have hjob := ih.job (.http r)
    rw [hresult, hworld] at hjob
    rw [List.map_append]
    exact hjob
  | tick _ dt ih => exact ih.env dt

end

end Rawbin
