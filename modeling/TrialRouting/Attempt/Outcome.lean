import TrialRouting.Decorator
import TrialRouting.DispatchError
import TrialRouting.Program

/-!
# TrialRouting.Attempt.Outcome

One attempt from start to end: the call of the trial, surrounded by the decorators, within a budget
and until the invocation is cancelled. A cancellation before the attempt keeps everything from
running.
-/

namespace TrialRouting

/-- How an attempt ends. -/
inductive AttemptOutcome where
  | success (value : String)
  | failed (error : String)
  | timedOut (after : Duration)
  | cancelled
  | unresolvable (source : ResolveError)
  | pipeline (error : String)
  deriving DecidableEq, Repr

namespace AttemptOutcome

/-- The outcome of an attempt that came to its own end. -/
def ofVerdict : Verdict → AttemptOutcome
  | .success value => .success value
  | .failed error => .failed error
  | .pipeline error => .pipeline error

/-- The outcome of guarded work with the given budget. -/
def ofGuarded (budget : Option Duration) : Program.Guarded Yield → AttemptOutcome
  | .finished y => ofVerdict y.verdict
  | .expired => .timedOut (budget.getD .zero)
  | .cancelled => .cancelled

end AttemptOutcome

/-- Runs an attempt within its budget, if it has one. -/
def runAttempt {σ : Type} (decorators : List (Decorator σ)) (attempt : Attempt)
    (call : Work σ Yield) (budget : Option Duration) : Program σ AttemptOutcome :=
  .cancelled fun
    | true => .done .cancelled
    | false =>
      (Program.guarded (budget.map Duration.clockMillis) (surround decorators attempt call)).bind
        fun g => .done (.ofGuarded budget g)

end TrialRouting
