import TrialRouting.Attempt
import TrialRouting.Decision

/-!
# TrialRouting.Event

What the library tells its log. An event has a level, the part of the program that tells it, and
fields of which `message` is the text for people; `Event.record` gives all three. Measured times,
which the log shows for attempts and invocations as `elapsed_ms`, are left out.
-/

namespace TrialRouting

open Text

/-- How a telemetry scope ended. -/
inductive Outcome where
  | pending
  | success
  | failure (error : String)
  deriving DecidableEq, Repr, Inhabited

/-- One word for the outcome. -/
def Outcome.label : Outcome → String
  | .pending => "unknown"
  | .success => "success"
  | .failure _ => "failure"

/-- What telemetry knows of an invocation when it is over. -/
structure InvocationReport where
  contract : ContractId
  method : String
  scope : ScopeId
  trial : TrialKey
  variant : String
  source : String
  fallbacks : List TrialKey
  outcome : Outcome
  deriving DecidableEq, Repr, Inhabited

/-- A line of the log, by its cause. -/
inductive Event where
  | definitionBuilt (contract : ContractId) (trials : Nat) (selection : SelectionKind)
      (policy : String)
  | experimentRegistered (contract : ContractId) (trials : Nat)
  | dispatcherReady (experiments maxEntries idleSecs : Nat)
  | configLoaded (path : String)
  | experimentMissing (contract : ContractId)
  | experimentSkipped (contract : ContractId) (default : TrialKey)
  | trialSelected (contract : ContractId) (scope : ScopeId) (trial : TrialKey)
  | selectionFailed (contract : ContractId) (scope : ScopeId) (selector : SelectionKind)
      (error : SelectionError) (default : TrialKey)
  | selectionRetried (contract : ContractId) (scope : ScopeId)
  | trialSkipped (trial : TrialKey) (contract : ContractId) (default : TrialKey)
  | attemptStarted (trial : TrialKey) (number : Nat) (contract : ContractId)
  | attemptTimed (attempt : Attempt) (ok : Bool)
  | attemptFailed (attempt : Attempt) (identity : Option String) (error : String)
  | replaying (contract : ContractId) (policy : String) (failed : TrialKey) (number : Nat)
      (next : TrialKey)
  | invocationFailed (contract : ContractId) (method kind : String)
  | invocationReported (report : InvocationReport)
  | scopeEnded (scope : ScopeId) (decisions : Nat)
  | experimentDisabled (contract : ContractId)
  | experimentEnabled (contract : ContractId)
  | trialDisabled (contract : ContractId) (trial : TrialKey)
  deriving DecidableEq, Repr

/-- How urgent an event is. -/
inductive Level where
  | debug
  | info
  | warn
  | error
  deriving DecidableEq, Repr, Inhabited

def Level.name : Level → String
  | .debug => "DEBUG"
  | .info => "INFO"
  | .warn => "WARN"
  | .error => "ERROR"

namespace Event

/-- Level, teller and fields of an event. -/
structure Record where
  level : Level
  target : String
  fields : List (String × Document)
  deriving Inhabited

/-- An event that is only a message. -/
def plain (level : Level) (target message : String) : Record :=
  ⟨level, target, [("message", .text message)]⟩

/-- An event with fields beside its message. -/
def detailed (level : Level) (target message : String) (fields : List (String × Document)) :
    Record :=
  ⟨level, target, ("message", .text message) :: fields⟩

/-- The level, teller and fields of each event. -/
def record : Event → Record
  | .definitionBuilt contract trials selection policy =>
    detailed .debug "trialswitch_core::definition" "experiment definition built"
      [("contract", .text contract.text), ("trials", .integer trials),
       ("selection", .text selection.name), ("policy", .text policy)]
  | .experimentRegistered contract trials =>
    plain .info "trialswitch_core::registry"
      s!"Registered experiment '{contract}' with {trials} trials"
  | .dispatcherReady experiments maxEntries idleSecs =>
    plain .info dispatcher
      (s!"Dispatcher ready: {experiments} experiments, decision cache {maxEntries} entries"
        ++ s!" / {idleSecs}s idle")
  | .configLoaded path =>
    plain .info "trialswitch_dispatch::config" s!"Loaded dispatch config from {path}"
  | .experimentMissing contract =>
    plain .error dispatcher s!"No experiment registered for contract '{contract}'"
  | .experimentSkipped contract default =>
    plain .debug dispatcher s!"Experiment '{contract}' disabled, using default trial '{default}'"
  | .trialSelected contract scope trial =>
    detailed .debug "trialswitch_dispatch::decision" "trial selected"
      [("contract", .text contract.text), ("scope", .text scope.text), ("trial", .text trial.text)]
  | .selectionFailed contract scope selector error default =>
    detailed .warn "trialswitch_dispatch::decision"
      s!"selection failed, using default trial '{default}'"
      [("contract", .text contract.text), ("scope", .text scope.text),
       ("selector", .text selector.name), ("error", .text error.message)]
  | .selectionRetried contract scope =>
    detailed .debug cache "shared decision resolution was cancelled, retrying"
      [("contract", .text contract.text), ("scope", .text scope.text)]
  | .trialSkipped trial contract default =>
    plain .warn dispatcher
      s!"Trial '{trial}' of '{contract}' disabled, using default trial '{default}'"
  | .attemptStarted trial number contract =>
    plain .debug dispatcher s!"Running {Attempt.describe trial number} for '{contract}'"
  | .attemptTimed attempt ok =>
    detailed .debug pipeline "attempt timed"
      [("contract", .text attempt.contract.text), ("method", .text attempt.method),
       ("trial", .text attempt.trial.text), ("attempt", .integer attempt.number), ("ok", .bool ok)]
  | .attemptFailed attempt identity error =>
    detailed .error pipeline "trial attempt failed"
      [("contract", .text attempt.contract.text), ("method", .text attempt.method),
       ("scope", .text attempt.scope.text), ("trial", .text attempt.trial.text),
       ("attempt", .integer attempt.number), ("identity", .text (identity.getD "-")),
       ("error", .text error)]
  | .replaying contract policy failed number next =>
    detailed .warn "trialswitch_dispatch::policy" s!"trial failed, replaying on '{next}'"
      [("contract", .text contract.text), ("policy", .text policy), ("failed", .text failed.text),
       ("attempt", .integer number)]
  | .invocationFailed contract method kind =>
    detailed .debug dispatcher "invocation failed"
      [("contract", .text contract.text), ("method", .text method), ("kind", .text kind)]
  | .invocationReported report =>
    let fields := [("contract", .text report.contract.text), ("method", .text report.method),
      ("scope", .text report.scope.text), ("trial", .text report.trial.text),
      ("variant", .text report.variant), ("source", .text report.source),
      ("fallbacks", .text (shownList (report.fallbacks.map TrialKey.shown)))]
    match report.outcome with
    | .failure error =>
      detailed .warn "trialswitch_dispatch::telemetry" "invocation failed"
        (fields ++ [("error", .text error)])
    | outcome =>
      detailed .info "trialswitch_dispatch::telemetry" "invocation finished"
        (fields ++ [("outcome", .text outcome.label)])
  | .scopeEnded scope decisions =>
    plain .debug cache s!"Ended scope {scope} ({decisions} decisions evicted)"
  | .experimentDisabled contract =>
    plain .warn killSwitch s!"Kill switch: experiment '{contract}' disabled"
  | .experimentEnabled contract =>
    plain .info killSwitch s!"Kill switch: experiment '{contract}' re-enabled"
  | .trialDisabled contract trial =>
    plain .warn killSwitch s!"Kill switch: trial '{trial}' of '{contract}' disabled"
where
  dispatcher : String := "trialswitch_dispatch::dispatcher"
  cache : String := "trialswitch_dispatch::cache"
  pipeline : String := "trialswitch_dispatch::pipeline"
  killSwitch : String := "trialswitch_dispatch::kill_switch"

end Event

end TrialRouting
