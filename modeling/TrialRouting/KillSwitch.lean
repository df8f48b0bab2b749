import TrialRouting.Event

/-!
# TrialRouting.KillSwitch

Experiments and trials that are switched off while the program runs. A disabled experiment serves
its default trial only, a disabled trial is not used unless it is the default one.

The trials are kept in one list for each contract; a contract without disabled trials has no list.
-/

namespace TrialRouting

/-- What is switched off. -/
structure KillSwitch where
  experiments : List ContractId
  trials : List (ContractId × List TrialKey)
  deriving DecidableEq, Repr, Inhabited

namespace KillSwitch

/-- Everything is on. -/
def allOn : KillSwitch :=
  ⟨[], []⟩

def experimentDisabled (k : KillSwitch) (contract : ContractId) : Bool :=
  k.experiments.contains contract

/-- The disabled trials of a contract. -/
def disabledTrials (k : KillSwitch) (contract : ContractId) : List TrialKey :=
  ((k.trials.find? (·.1 == contract)).map (·.2)).getD []

def trialDisabled (k : KillSwitch) (contract : ContractId) (trial : TrialKey) : Bool :=
  (k.disabledTrials contract).contains trial

/-! ## Operations -/

/-- What can be done to a switch. -/
inductive Operation where
  | disableExperiment (contract : ContractId)
  | enableExperiment (contract : ContractId)
  | disableTrial (contract : ContractId) (trial : TrialKey)
  | enableTrial (contract : ContractId) (trial : TrialKey)
  deriving DecidableEq, Repr

/-- A list with an element that it gets only once. -/
def listed {α : Type} [BEq α] (xs : List α) (x : α) : List α :=
  if xs.contains x then xs else xs ++ [x]

/-- Replaces the disabled trials of a contract; no list is kept for no trials. -/
def setTrials (k : KillSwitch) (contract : ContractId) (keys : List TrialKey) : KillSwitch :=
  let others := k.trials.filter (·.1 != contract)
  { k with trials := if keys.isEmpty then others else others ++ [(contract, keys)] }

/-- The switch after an operation. -/
def apply (k : KillSwitch) : Operation → KillSwitch
  | .disableExperiment contract => { k with experiments := listed k.experiments contract }
  | .enableExperiment contract =>
    { k with experiments := k.experiments.filter (· != contract) }
  | .disableTrial contract trial =>
    k.setTrials contract (listed (k.disabledTrials contract) trial)
  | .enableTrial contract trial =>
    k.setTrials contract ((k.disabledTrials contract).filter (· != trial))

/-- What the log is told about an operation. Enabling is told only of an experiment that was
disabled. -/
def events (k : KillSwitch) : Operation → List Event
  | .disableExperiment contract => [.experimentDisabled contract]
  | .enableExperiment contract =>
    if k.experimentDisabled contract then [.experimentEnabled contract] else []
  | .disableTrial contract trial => [.trialDisabled contract trial]
  | .enableTrial .. => []

/-- The switch after several operations, and what the log is told. -/
def applyAll (k : KillSwitch) : List Operation → KillSwitch × List Event
  | [] => (k, [])
  | o :: os =>
    let (k', es) := applyAll (k.apply o) os
    (k', k.events o ++ es)

end KillSwitch

end TrialRouting
