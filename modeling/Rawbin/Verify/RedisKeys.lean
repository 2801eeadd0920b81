import Rawbin.Verify.PlainRoutes
import Rawbin.Verify.Sequential

/-!
# The keys of a request

What a key of Redis holds makes no difference to a request that does not go to it, and stays.
-/

namespace Rawbin

/-- The command does not read or write the key. -/
def Cmd.Avoids (key : RedisKey) : {β : Type} → Cmd β → Prop
  | _, .redis c => key ∉ c.keys
  | _, .attempt c => c.Avoids key
  | _, _ => True

/-- The world with another entry, or none, under the key. -/
def World.overlay (w : World) (key : RedisKey) (e : Option (Entry Time key.Val)) : World :=
  { w with redis := w.redis.put key e }

theorem World.overlay_self (w : World) (key : RedisKey) : w.overlay key (w.redis key) = w := by
  rw [overlay, Expiring.put_eq_self]

section
variable {key : RedisKey} {e : Option (Entry Time key.Val)}

theorem World.tick_overlay {w : World} {dt : ℕ} :
    (w.overlay key e).tick dt = (w.tick dt).overlay key e := rfl

theorem World.overlay_key {w : World} : (w.overlay key e).redis key = e := Expiring.put_self ..

theorem World.overlay_ne {w : World} {k : RedisKey} (h : k ≠ key) :
    (w.overlay key e).redis k = w.redis k := Expiring.put_ne h

theorem RedisCmd.exec_put {c : RedisCmd β} (h : key ∉ c.keys) (now : Time) (r : Redis) :
    c.exec now (r.put key e) = ((c.exec now r).1, (c.exec now r).2.put key e) := by
  have hne {k : RedisKey} (hk : k ∈ c.keys) : k ≠ key := fun hkey => h (hkey ▸ hk)
  have hkeys : ∀ k ∈ c.keys, r.put key e k = r k := fun k hk => Expiring.put_ne (hne hk)
  refine Prod.ext (RedisCmd.exec_fst_congr hkeys now) (funext fun k => ?_)
  by_cases hk : k = key
  · subst hk
    exact (RedisCmd.exec_of_notMem h now _).trans
      ((Expiring.put_self r k e).trans (Expiring.put_self _ k e).symm)
  · exact (RedisCmd.exec_snd_congr hkeys now (Expiring.put_ne hk)).trans (Expiring.put_ne hk).symm

theorem Cmd.exec_overlay {c : Cmd β} (h : c.Avoids key) (x : Choice) (t : Session) (w : World) :
    c.exec x t (w.overlay key e) =
      ((c.exec x t w).1, (c.exec x t w).2.1, (c.exec x t w).2.2.overlay key e) := by
  induction c generalizing x with
  | execute wr =>
    simp only [exec, World.overlay]
    cases hv : wr.violates (t.view w.db) with
    | some => rfl
    | none =>
      by_cases hn : wr.noop (t.view w.db) = true
      · simp only [if_pos hn]
        exact if_pos hn
      · simp only [if_neg hn]
        exact if_neg hn
  | redis c =>
    have hc := RedisCmd.exec_put (e := e) h w.now w.redis
    simp only [exec, World.overlay, hc]
  | attempt c ih =>
    cases x with
    | ok => simp only [exec, ih h .ok]
    | fault => rfl
    | lost => simp only [exec, ih h .ok]
  | _ => rfl

end

/-! ## Requests -/

section
variable {E : Env} {key : RedisKey} {r : Request}

theorem Cmd.GoesTo.avoids {c : Cmd β} (h : c.GoesTo (· ≠ key)) : c.Avoids key := by
  cases c with
  | redis => exact fun hkey => h key hkey rfl
  | attempt => cases h
  | _ => trivial

theorem Request.prog_avoids (h : ¬ r.GoesTo key) :
    (r.prog E).Meets (fun _ _ => True) (Cmd.Avoids key) (fun _ => True) fun _ => True :=
  r.prog_meets ⟨fun _ => trivial, fun _ => trivial, fun _ _ => trivial⟩
    (K := (· ≠ key)) (fun _ hk heq => h (heq ▸ hk)) (fun _ _ => trivial) (fun _ hc => hc.avoids)
    trivial trivial (fun _ _ => trivial) fun _ _ => trivial

/-- **What is under another key makes no difference to a request**, and is there afterwards. -/
theorem serve_overlay (h : ¬ r.GoesTo key) (w : World) (e : Option (Entry Time key.Val)) :
    serve E r (w.overlay key e) = ((serve E r w).1, (serve E r w).2.overlay key e) := by
  have hrun := machine.run_comm (fun _ _ _ _ => trivial) (fun w => w.overlay key e)
    (fun c hc x t w => Cmd.exec_overlay hc x t w) (r.prog_avoids (E := E) h) (fun _ => .ok) .idle w
  rw [serve, serve, Machine.runConst, hrun]
  generalize machine.run (fun _ => .ok) (r.prog E) .idle w = res
  obtain ⟨res, t, w'⟩ := res
  cases res <;> rfl

theorem serve_redis (h : ¬ r.GoesTo key) (w : World) :
    (serve E r w).2.redis key = w.redis key := by
  have hself := congrArg (fun res => res.2.redis key) (serve_overlay (E := E) h w (w.redis key))
  simp only [World.overlay_self] at hself
  exact hself.trans (Expiring.put_self _ key _)

end

end Rawbin
