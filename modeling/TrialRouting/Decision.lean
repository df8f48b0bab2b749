import TrialRouting.Selection.Error

/-!
# TrialRouting.Decision

Which trial serves a contract within a scope. When the trial is not the selected one but the
default standing in for it, the decision says why.
-/

namespace TrialRouting

open Text

/-- Why the default trial stands in. -/
inductive Substitution where
  | selection (error : SelectionError)
  | experimentDisabled
  | trialDisabled (trial : TrialKey)
  deriving DecidableEq, Repr, Inhabited

namespace Substitution

/-- One word for the cause. -/
def reason : Substitution → String
  | .selection (.unknownTrialKey _) => "unknown_trial_key"
  | .selection _ => "selection_failed"
  | .experimentDisabled => "experiment_disabled"
  | .trialDisabled _ => "trial_disabled"

def shown : Substitution → String
  | .selection error => shownWrapped "Selection" error.shown
  | .experimentDisabled => "ExperimentDisabled"
  | .trialDisabled trial => shownWrapped "TrialDisabled" trial.shown

end Substitution

/-- A trial, the candidates it was chosen from, and the reason if it is a substitute. -/
structure Decision where
  trial : TrialKey
  candidates : List TrialKey
  substitution : Option Substitution
  deriving DecidableEq, Repr, Inhabited

namespace Decision

/-- A trial that the selection chose. -/
def selected (trial : TrialKey) (candidates : List TrialKey) : Decision :=
  ⟨trial, candidates, none⟩

/-- The default trial in place of another. -/
def substituted (default : TrialKey) (candidates : List TrialKey) (reason : Substitution) :
    Decision :=
  ⟨default, candidates, some reason⟩

def isSubstituted (d : Decision) : Bool :=
  d.substitution.isSome

end Decision

/-- A decision is kept for a contract within a scope. -/
structure DecisionKey where
  contract : ContractId
  scope : ScopeId
  deriving DecidableEq, Repr, Inhabited

end TrialRouting
