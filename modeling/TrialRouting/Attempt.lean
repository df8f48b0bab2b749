import TrialRouting.Context

/-!
# TrialRouting.Attempt

One run of one trial within an invocation. Attempts are numbered from one; every attempt after the
first is a replay.
-/

namespace TrialRouting

/-- What a decorator knows about the attempt it surrounds. -/
structure Attempt where
  contract : ContractId
  method : String
  scope : ScopeId
  trial : TrialKey
  number : Nat
  deriving DecidableEq, Repr, Inhabited

namespace Attempt

/-- The attempt of a trial on behalf of a caller. -/
def of (ctx : Context) (trial : TrialKey) (number : Nat) : Attempt :=
  ⟨ctx.contract, ctx.method, ctx.scope, trial, number⟩

def isReplay (a : Attempt) : Bool :=
  1 < a.number

/-- The trial, and which replay it is. -/
def describe (trial : TrialKey) (number : Nat) : String :=
  if 1 < number then s!"{trial} (replay {number - 1})" else trial.text

end Attempt

end TrialRouting
