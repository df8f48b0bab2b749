import TrialRouting.DispatchError
import TrialRouting.Event

/-!
# TrialRouting.Telemetry

What an invocation reports about itself, and what becomes of it.

A telemetry scope is opened by `start` and closed by `dispose`; in between come the selector, the
fallbacks and the outcome. A sink turns these calls into lines of the log (`tracing`) or into
counters (`metrics`); `TelemetryScope` is what it remembers until the scope is closed.
-/

namespace TrialRouting

open Document

/-! ## Calls -/

/-- What is known of an invocation when its scope opens. -/
structure InvocationStart where
  contract : ContractId
  method : String
  scope : ScopeId
  selector : SelectionKind
  trial : TrialKey
  candidates : List TrialKey
  deriving DecidableEq, Repr, Inhabited

/-- The error that a failure is reported with. A dispatcher reports the error it returns; whoever
else opens a scope may report any error, of which a sink reads the message. -/
inductive ReportedError where
  | dispatch (error : DispatchError)
  | foreign (message : String)
  deriving DecidableEq, Repr

def ReportedError.message : ReportedError → String
  | .dispatch error => error.message
  | .foreign message => message

/-- A report of an invocation. -/
inductive TelemetryCall where
  | start (info : InvocationStart)
  | variant (name source : String)
  | fallback (trial : TrialKey)
  | success
  | failure (error : ReportedError)
  | dispose
  deriving DecidableEq, Repr

/-! ## Kinds of sinks -/

/-- Where reports go. -/
inductive TelemetryKind where
  | none
  | tracing
  | metrics
  deriving DecidableEq, Repr, Inhabited

namespace TelemetryKind

def name : TelemetryKind → String
  | .none => "none"
  | .tracing => "tracing"
  | .metrics => "metrics"

def shown : TelemetryKind → String
  | .none => "None"
  | .tracing => "Tracing"
  | .metrics => "Metrics"

def ofName? (name : String) : Option TelemetryKind :=
  if name = "none" then some .none
  else if name = "tracing" then some .tracing
  else if name = "metrics" then some .metrics
  else Option.none

def encode (k : TelemetryKind) : Document :=
  .text k.name

def decode? (dialect : Dialect) : Document → Option TelemetryKind :=
  unit? dialect ofName?

end TelemetryKind

/-! ## Metrics -/

/-- A counter or a histogram with the values of its labels. Of a histogram only the number of its
samples is counted, not the measured seconds. -/
inductive Metric where
  | fallbacks (contract : ContractId) (trial : TrialKey)
  | failures (contract : ContractId) (trial : TrialKey)
  | invocations (contract : ContractId) (trial : TrialKey) (outcome : Outcome)
  | seconds (contract : ContractId) (trial : TrialKey)
  deriving DecidableEq, Repr

namespace Metric

def name : Metric → String
  | .fallbacks .. => "trialswitch_fallbacks_total"
  | .failures .. => "trialswitch_failures_total"
  | .invocations .. => "trialswitch_invocations_total"
  | .seconds .. => "trialswitch_invocation_seconds"

def labels : Metric → List (String × String)
  | .fallbacks contract trial => [("contract", contract.text), ("trial", trial.text)]
  | .failures contract trial => [("contract", contract.text), ("trial", trial.text)]
  | .invocations contract trial outcome =>
    [("contract", contract.text), ("trial", trial.text), ("outcome", outcome.label)]
  | .seconds contract trial => [("contract", contract.text), ("trial", trial.text)]

/-- How far each metric moved: name, labels and count, in the order of name and labels. -/
def tally (moved : List Metric) : List (String × List (String × String) × Nat) :=
  let rows := moved.map fun m => (m.name, m.labels)
  let counted := rows.foldl (fun kept row =>
    match kept.find? (·.1 == row) with
    | some (_, n) => kept.filter (·.1 != row) ++ [(row, n + 1)]
    | none => kept ++ [(row, 1)]) ([] : List ((String × List (String × String)) × Nat))
  let key (row : (String × List (String × String)) × Nat) : List String :=
    row.1.1 :: row.1.2.flatMap fun l => [l.1, l.2]
  (counted.mergeSort fun a b => !(key b).lex (key a)).map fun (row, n) => (row.1, row.2, n)

end Metric

/-! ## Sinks -/

/-- What a sink remembers of an open telemetry scope. -/
structure TelemetryScope where
  info : InvocationStart
  variant : Option (String × String)
  fallbacks : List TrialKey
  outcome : Outcome
  deriving Inhabited

namespace TelemetryScope

def opened (info : InvocationStart) : TelemetryScope :=
  ⟨info, none, [], .pending⟩

/-- What the scope remembers after a call. -/
def note (t : TelemetryScope) : TelemetryCall → TelemetryScope
  | .start info => opened info
  | .variant name source => { t with variant := some (name, source) }
  | .fallback trial => { t with fallbacks := t.fallbacks ++ [trial] }
  | .success => { t with outcome := .success }
  | .failure error => { t with outcome := .failure error.message }
  | .dispose => t

/-- The report of a scope that is being closed. -/
def report (t : TelemetryScope) : InvocationReport where
  contract := t.info.contract
  method := t.info.method
  scope := t.info.scope
  trial := t.info.trial
  variant := (t.variant.map (·.1)).getD ""
  source := (t.variant.map (·.2)).getD ""
  fallbacks := t.fallbacks
  outcome := t.outcome

/-- What a sink that writes to the log tells about a call. -/
def events (t : TelemetryScope) : TelemetryCall → List Event
  | .dispose => [.invocationReported t.report]
  | _ => []

/-- The metrics that a call moves. -/
def metrics (t : TelemetryScope) : TelemetryCall → List Metric
  | .fallback trial => [.fallbacks t.info.contract trial]
  | .failure _ => [.failures t.info.contract t.info.trial]
  | .dispose =>
    [.invocations t.info.contract t.info.trial t.outcome, .seconds t.info.contract t.info.trial]
  | _ => []

end TelemetryScope

namespace TelemetryKind

/-- What a sink of this kind tells the log about a call. -/
def eventsOf (k : TelemetryKind) (t : TelemetryScope) (call : TelemetryCall) : List Event :=
  match k with
  | .tracing => t.events call
  | _ => []

/-- The metrics that a sink of this kind moves at a call. -/
def metricsOf (k : TelemetryKind) (t : TelemetryScope) (call : TelemetryCall) : List Metric :=
  match k with
  | .metrics => t.metrics call
  | _ => []

end TelemetryKind

end TrialRouting
