import TrialRouting.Name

/-!
# TrialRouting.Context

What an invocation knows about its caller.
-/

namespace TrialRouting

/-- The contract and method that are called, the scope in which, and for whom. -/
structure Context where
  contract : ContractId
  method : String
  scope : ScopeId
  identity : Option String
  deriving DecidableEq, Repr, Inhabited

end TrialRouting
