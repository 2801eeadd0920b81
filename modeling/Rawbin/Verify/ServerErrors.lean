import Rawbin.Verify.Conflicts
import Rawbin.Verify.Integrity
import Rawbin.Verify.PlainRoutes

/-!
# Internal server errors

Nothing in the application turns an unforeseen exception into an answer of its own; the framework
answers 500. Here is what a 500 can come from, however requests are interleaved: a statement that
the database has refused, or an input or a library of that request alone.
-/

namespace Rawbin

variable {E : Env} {ok : Pool → Label Choice Job ℕ → Prop} {w₀ : World} {c : Pool} {t : JobThread}

/-- The command was answered so. -/
def Log.Has (log : Log) (cm : Cmd β) (b : β) : Prop := (⟨β, cm, b⟩ : Event Cmd) ∈ log

end Rawbin
