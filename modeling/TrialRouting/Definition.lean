import TrialRouting.Decorator
import TrialRouting.Policy
import TrialRouting.Selection.Mode

/-!
# TrialRouting.Definition

An experiment: the trials of a contract, how one is selected, and what happens when it fails.

A `Draft` is what the author wrote, a `Definition` what has been checked; `Draft.build` checks a
draft and names the first fault, in the order of the constructors of `DefinitionError`. The trials
of a definition have distinct keys and one default (`TrialSet`), and its error policy names none
but these trials (`policy_registered`), so no later step has to check this again.
-/

namespace TrialRouting

open Text

/-! ## Faults -/

/-- Why an experiment is refused. -/
inductive DefinitionError where
  | noTrials (contract : ContractId)
  | duplicateTrialKey (contract : ContractId) (key : TrialKey)
  | noDefaultTrial (contract : ContractId)
  | multipleDefaultTrials (contract : ContractId) (keys : List TrialKey)
  | missingSelectionMode (contract : ContractId)
  | invalidSelectionMode (contract : ContractId) (reason : String)
  | unknownPolicyTrial (contract : ContractId) (key : TrialKey)
  | duplicateContract (contract : ContractId)
  | globalAlreadyInstalled
  deriving DecidableEq, Repr

namespace DefinitionError

def message : DefinitionError → String
  | .noTrials contract => s!"experiment '{contract}' has no trials"
  | .duplicateTrialKey contract key =>
    s!"experiment '{contract}' registers trial '{key}' more than once"
  | .noDefaultTrial contract => s!"experiment '{contract}' has no default trial"
  | .multipleDefaultTrials contract keys =>
    let keys := shownList (keys.map TrialKey.shown)
    s!"experiment '{contract}' has several default trials: {keys}"
  | .missingSelectionMode contract => s!"experiment '{contract}' has no selection mode"
  | .invalidSelectionMode contract reason =>
    s!"experiment '{contract}': invalid selection mode: {reason}"
  | .unknownPolicyTrial contract key =>
    s!"experiment '{contract}': error policy references unknown trial '{key}'"
  | .duplicateContract contract => s!"contract '{contract}' is already registered"
  | .globalAlreadyInstalled => "global experiment registry is already installed"

/-- The name of the fault. -/
def name : DefinitionError → String
  | .noTrials _ => "NoTrials"
  | .duplicateTrialKey .. => "DuplicateTrialKey"
  | .noDefaultTrial _ => "NoDefaultTrial"
  | .multipleDefaultTrials .. => "MultipleDefaultTrials"
  | .missingSelectionMode _ => "MissingSelectionMode"
  | .invalidSelectionMode .. => "InvalidSelectionMode"
  | .unknownPolicyTrial .. => "UnknownPolicyTrial"
  | .duplicateContract _ => "DuplicateContract"
  | .globalAlreadyInstalled => "GlobalAlreadyInstalled"

end DefinitionError

/-! ## Definitions -/

/-- An experiment that has been checked. -/
structure Definition (σ : Type) where
  contract : ContractId
  trials : TrialSet
  strategy : Strategy σ
  policy : ErrorPolicy
  timeout : Option TimeoutSettings
  decorators : List (DecoratorFactory σ)
  policy_registered : ∀ k ∈ policy.referencedKeys, k ∈ trials.keys

namespace Definition

variable {σ : Type}

def shown (d : Definition σ) : String :=
  shownRecord "ExperimentDefinition"
    [("contract", d.contract.shown), ("trials", d.trials.shown),
     ("selection", d.strategy.shown), ("error_policy", d.policy.shown),
     ("timeout", shownOption (d.timeout.map TimeoutSettings.shown)),
     ("decorators", shownList (d.decorators.map fun f => quoted f.name))]

/-- What the log is told when a definition has been built. -/
def builtEvent (d : Definition σ) : Event :=
  .definitionBuilt d.contract d.trials.size d.strategy.kind d.policy.name

end Definition

/-! ## Drafts -/

/-- An experiment as its author wrote it. -/
structure Draft (σ : Type) where
  contract : ContractId
  trials : List Trial
  selection : Option (SelectionMode σ)
  policy : ErrorPolicy
  timeout : Option TimeoutSettings
  decorators : List (DecoratorFactory σ)

/-- The first key of the list that is among those seen, or occurs earlier in the list. -/
def repeatedKey? (seen : List TrialKey) : List TrialKey → Option TrialKey
  | [] => none
  | k :: ks => if k ∈ seen then some k else repeatedKey? (k :: seen) ks

theorem nodup_of_repeatedKey?_eq_none {seen ks : List TrialKey}
    (h : repeatedKey? seen ks = none) : ks.Nodup ∧ ∀ k ∈ ks, k ∉ seen := by
  induction ks generalizing seen with
  | nil => simp
  | cons k ks ih =>
    simp only [repeatedKey?] at h
    split at h
    · cases h
    · rename_i hk
      obtain ⟨hn, hs⟩ := ih h
      refine ⟨List.nodup_cons.2 ⟨fun hm => hs k hm (by simp), hn⟩, ?_⟩
      intro x hx
      rcases List.mem_cons.1 hx with rfl | hx'
      · exact hk
      · exact fun hxs => hs x hx' (List.mem_cons_of_mem _ hxs)

namespace Draft

variable {σ : Type}

/-- The trials of a draft, or the first fault among them. -/
def trialSet (contract : ContractId) (trials : List Trial) : Except DefinitionError TrialSet :=
  if trials.isEmpty then .error (.noTrials contract)
  else
    match h : repeatedKey? [] (trials.map Trial.key) with
    | some key => .error (.duplicateTrialKey contract key)
    | none =>
      match hd : trials.filter Trial.isDefault with
      | [] => .error (.noDefaultTrial contract)
      | [default] => .ok ⟨trials, default, (nodup_of_repeatedKey?_eq_none h).1, hd⟩
      | defaults => .error (.multipleDefaultTrials contract (defaults.map Trial.key))

/-- Checks a draft: its trials, then its selection mode, then its error policy. -/
def build (d : Draft σ) : Except DefinitionError (Definition σ) := do
  let trials ← trialSet d.contract d.trials
  match d.selection with
  | none => .error (.missingSelectionMode d.contract)
  | some mode =>
    match mode.bind d.contract trials with
    | .error reason => .error (.invalidSelectionMode d.contract reason)
    | .ok strategy =>
      match h : d.policy.referencedKeys.find? (fun k => !decide (k ∈ trials.keys)) with
      | some key => .error (.unknownPolicyTrial d.contract key)
      | none =>
        .ok
          { contract := d.contract
            trials
            strategy
            policy := d.policy
            timeout := d.timeout
            decorators := d.decorators
            policy_registered := by
              intro k hk
              have := List.find?_eq_none.1 h k hk
              simpa using this }

end Draft

end TrialRouting
