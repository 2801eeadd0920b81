import Rawbin.Api.Schemas
import Rawbin.Db.Write
import Rawbin.Library.Program

/-!
# Commands, sessions and handlers

A route is a sequence of commands: SELECTs, the statements of a flush, the commit, Redis
commands and clock reads. The database runs at READ COMMITTED: a statement sees what is
committed at that moment and what its own transaction wrote; the writes of a transaction are
applied at its commit, and until then their locks make conflicting statements wait.

A `Handler` keeps the pending changes of the ORM session beside its commands. The session does
not flush by itself (`autoflush=False`), so a change reaches the database at the next `flush`
or at the commit.
-/

namespace Rawbin

structure World where
  db : Db
  redis : Redis
  now : Time

instance : Inhabited World := ⟨⟨.empty, .empty, 0⟩⟩

/-- The open transaction of a session: the statements it has executed and the instant it began,
which is the `now()` of the database. -/
structure Session where
  written : List Write
  began : Option Time

namespace Session

def idle : Session := ⟨[], none⟩

def begin (t : Session) (now : Time) : Session := { t with began := some (t.began.getD now) }

/-- The database as the statements of this transaction see it. -/
def view (t : Session) (db : Db) : Db := t.written.foldl (fun db w => w.apply db) db

end Session

/-- Whether a command that a worker guards by `try` succeeds, fails without an effect, or takes
effect while its answer is lost. -/
inductive Choice where
  | ok | fault | lost
  deriving DecidableEq

inductive Cmd : Type → Type 1 where
  | select {β : Type} (q : Query β) : Cmd β
  | execute (w : Write) : Cmd (Except Exn Unit)
  | commit : Cmd Unit
  | rollback : Cmd Unit
  | redis {β : Type} (c : RedisCmd β) : Cmd β
  /-- `datetime.now(timezone.utc)` -/
  | utcnow : Cmd Time
  /-- `func.now()`, which a server default or `onupdate` puts into a row. -/
  | txnow : Cmd Time
  /-- The response leaves the server; the commit of `get_db` comes after it. -/
  | respond (r : Response) : Cmd Unit
  /-- A command inside a `try` that catches every exception. -/
  | attempt {β : Type} (c : Cmd β) : Cmd (Except Exn β)

namespace Cmd

def exec : {β : Type} → Choice → Cmd β → Session → World → β × Session × World
  | _, _, .select q, t, w => (q.eval (t.view w.db), t.begin w.now, w)
  | _, _, .execute wr, t, w =>
    match wr.violates (t.view w.db) with
    | some e => (.error e, t.begin w.now, w)
    | none =>
      if wr.noop (t.view w.db) then (.ok (), t.begin w.now, w)
      else (.ok (), { t.begin w.now with written := t.written ++ [wr] }, w)
  | _, _, .commit, t, w => ((), .idle, { w with db := t.view w.db })
  | _, _, .rollback, _, w => ((), .idle, w)
  | _, _, .redis c, t, w => let r := c.exec w.now w.redis; (r.1, t, { w with redis := r.2 })
  | _, _, .utcnow, t, w => (w.now, t, w)
  | _, _, .txnow, t, w => (t.began.getD w.now, t.begin w.now, w)
  | _, _, .respond _, t, w => ((), t, w)
  | _, x, .attempt c, t, w =>
    match x with
    | .ok => let r := exec .ok c t w; (.ok r.1, r.2)
    | .fault => (.error .operationalError, t, w)
    | .lost => (.error .operationalError, (exec .ok c t w).2)

/-- The statement that a command executes. -/
def statement : {β : Type} → Cmd β → Option Write
  | _, .execute wr => some wr
  | _, .attempt c => c.statement
  | _, _ => none

/-- The response that a command sends. -/
def response : {β : Type} → Cmd β → Option Response
  | _, .respond r => some r
  | _, .attempt c => c.response
  | _, _ => none

/-- The command is not inside a `try`. -/
def plain : {β : Type} → Cmd β → Bool
  | _, .attempt _ => false
  | _, _ => true

def isSelect : {β : Type} → Cmd β → Bool
  | _, .select _ => true
  | _, .attempt c => c.isSelect
  | _, _ => false

def isCommit : {β : Type} → Cmd β → Bool
  | _, .commit => true
  | _, .attempt c => c.isCommit
  | _, _ => false

def isRedis : {β : Type} → Cmd β → Bool
  | _, .redis _ => true
  | _, .attempt c => c.isRedis
  | _, _ => false

/-- A statement waits for the transactions that hold a lock it needs. -/
def blocked : {β : Type} → Cmd β → List Session → Bool
  | _, .execute wr, ts => ts.any fun t => wr.conflicts t.written
  | _, .attempt c, ts => c.blocked ts
  | _, _, _ => false

end Cmd

def machine : Machine Cmd World Session Choice where
  exec := Cmd.exec
  blocked := Cmd.blocked

/-! ## Handlers -/

/-- A part of a route: a program that carries the pending changes of the ORM session. -/
def Handler (α : Type) := List Write → Prog Cmd Exn (α × List Write)

namespace Handler

instance : Monad Handler where
  pure a := fun p => .pure (a, p)
  bind h f := fun p => (h p).bind fun r => f r.1 r.2

instance : MonadExceptOf Exn Handler where
  throw e := fun _ => .raise e
  tryCatch h f := fun p => (h p).tryCatch fun e => f e p

def perform (c : Cmd β) : Handler β := fun p => .cmd c fun b => .pure (b, p)

def select (q : Query β) : Handler β := perform (.select q)

def redis (c : RedisCmd β) : Handler β := perform (.redis c)

def utcnow : Handler Time := perform .utcnow

def txnow : Handler Time := perform .txnow

/-- Record a change in the ORM session. -/
def add (w : Write) : Handler Unit := fun p => .pure ((), p ++ [w])

/-- Execute the pending changes, one statement after the other. -/
def flushAll : List Write → Prog Cmd Exn Unit
  | [] => .pure ()
  | w :: ws => .cmd (.execute w) fun
    | .ok _ => flushAll ws
    | .error e => .raise e

def flush : Handler Unit := fun p => (flushAll p).bind fun _ => .pure ((), [])

/-- The value of a computation without commands. -/
def ofExcept : Except Exn α → Handler α
  | .ok a => pure a
  | .error e => throw e

/-- `scalar_one_or_none` on a result that no constraint limits to one row. -/
def scalarOneOrNone : List α → Handler (Option α)
  | [] => pure none
  | [a] => pure (some a)
  | _ => throw .multipleResultsFound

@[simp] theorem pure_apply (a : α) (p : List Write) :
    (pure a : Handler α) p = .pure (a, p) := rfl

@[simp] theorem bind_apply (h : Handler α) (f : α → Handler β) (p : List Write) :
    (h >>= f) p = (h p).bind fun r => f r.1 r.2 := rfl

@[simp] theorem add_apply (w : Write) (p : List Write) : add w p = .pure ((), p ++ [w]) := rfl

@[simp] theorem flush_apply (p : List Write) :
    flush p = (flushAll p).bind fun _ => .pure ((), []) := rfl

@[simp] theorem ite_apply {c : Prop} [Decidable c] (h h' : Handler α) (p : List Write) :
    (if c then h else h') p = if c then h p else h' p := by split <;> rfl

end Handler

/-- `raise HTTPException(...)` -/
def httpException (status : Nat) (detail : String) : Handler α :=
  throw (Exn.httpException status detail)

namespace Handler

/-- An `if` without an `else`. -/
def when (c : Prop) [Decidable c] (h : Handler Unit) : Handler Unit := if c then h else pure ()

/-- `if c: raise HTTPException(...)` -/
def raiseIf (c : Prop) [Decidable c] (status : Nat) (detail : String) : Handler Unit :=
  when c (httpException status detail)

end Handler

/-! ## What a command changes -/

namespace Cmd

/-- A commit puts the writes of the transaction into the database and ends it, a command to Redis
changes Redis, and nothing else changes the world. -/
theorem exec_world (c : Cmd β) (x : Choice) (t : Session) (w : World) :
    (c.exec x t w).2.2 = w ∨
      (c.isCommit = true ∧ (c.exec x t w).2 = (.idle, { w with db := t.view w.db })) ∨
      c.isRedis = true ∧ ∃ redis, (c.exec x t w).2.2 = { w with redis := redis } := by
  induction c generalizing x with
  | execute wr =>
    refine .inl ?_
    simp only [exec]
    split
    · rfl
    · split <;> rfl
  | commit => exact .inr (.inl ⟨rfl, rfl⟩)
  | redis => exact .inr (.inr ⟨rfl, _, rfl⟩)
  | attempt c ih =>
    cases x
    · exact ih .ok
    · exact .inl rfl
    · exact ih .ok
  | _ => exact .inl rfl

theorem exec_db (c : Cmd β) (x : Choice) (t : Session) (w : World) :
    (c.exec x t w).2.2.db = w.db ∨
      c.isCommit = true ∧ (c.exec x t w).2 = (.idle, { w with db := t.view w.db }) := by
  rcases c.exec_world x t w with h | h | ⟨_, redis, h⟩
  · exact .inl (by rw [h])
  · exact .inr h
  · exact .inl (by rw [h])

theorem exec_now (c : Cmd β) (x : Choice) (t : Session) (w : World) :
    (c.exec x t w).2.2.now = w.now := by
  rcases c.exec_world x t w with h | ⟨_, h⟩ | ⟨_, redis, h⟩ <;> rw [h]

theorem exec_redis {c : Cmd β} (hc : c.isRedis = false) (x : Choice) (t : Session) (w : World) :
    (c.exec x t w).2.2.redis = w.redis := by
  rcases c.exec_world x t w with h | ⟨_, h⟩ | ⟨hr, _⟩
  · rw [h]
  · rw [h]
  · cases hc.symm.trans hr

theorem exec_of_commit {c : Cmd β} (hp : c.plain = true) (hc : c.isCommit = true) (x : Choice)
    (t : Session) (w : World) : (c.exec x t w).2 = (.idle, { w with db := t.view w.db }) := by
  cases c with
  | commit => rfl
  | attempt => cases hp
  | _ => cases hc

theorem exec_db_of_not_commit {c : Cmd β} (hc : c.isCommit = false) (x : Choice) (t : Session)
    (w : World) : (c.exec x t w).2.2.db = w.db :=
  (c.exec_db x t w).resolve_right fun h => absurd h.1 (by rw [hc]; nofun)

/-- A statement that violates nothing joins the ones that the transaction has executed; a commit
or a rollback clears them. -/
theorem exec_written (c : Cmd β) (x : Choice) (t : Session) (w : World) :
    (c.exec x t w).2.1.written = t.written ∨ (c.exec x t w).2.1.written = [] ∨
      ∃ wr, c.statement = some wr ∧ wr.violates (t.view w.db) = none ∧
        (c.exec x t w).2.1.written = t.written ++ [wr] := by
  induction c generalizing x with
  | execute wr =>
    simp only [exec]
    split
    · exact .inl rfl
    · rename_i hv
      split
      · exact .inl rfl
      · exact .inr (.inr ⟨wr, rfl, hv, rfl⟩)
  | commit | rollback => exact .inr (.inl rfl)
  | attempt c ih =>
    cases x
    · exact ih .ok
    · exact .inl rfl
    · exact ih .ok
  | _ => exact .inl rfl

/-- A statement that is issued conflicts with nothing that another transaction holds. -/
theorem conflicts_of_not_blocked {c : Cmd β} {ts : List Session} (h : c.blocked ts = false)
    (hw : c.statement = some wr) (ht : t ∈ ts) : wr.conflicts t.written = false := by
  induction c with
  | execute wr' =>
    cases hw
    simpa using List.any_eq_false.mp h t ht
  | attempt c ih => exact ih h hw
  | _ => cases hw

/-- The answer to a SELECT. -/
theorem eval_of_event {c : Cmd β} {q : Query γ} {a : γ} {x : Choice} {t : Session} {w : World}
    (h : (⟨β, c, (c.exec x t w).1⟩ : Event Cmd) = ⟨γ, .select q, a⟩) :
    c.isSelect = true ∧ q.eval (t.view w.db) = a := by
  generalize ha : (c.exec x t w).1 = b at h
  cases h
  exact ⟨rfl, ha⟩

end Cmd

end Rawbin
