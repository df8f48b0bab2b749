import TrialRouting.Program

/-!
# TrialRouting.Telemetry.Ledger

What a sink makes of what happens in several invocations at the same time. The ledger holds the
telemetry scopes that are open, each at the place of its invocation; `follow` goes through the
notes in the order in which they were made, and gives the lines of the log, those of the sink
among them, and the metrics that the sink moves.
-/

namespace TrialRouting

/-- The open telemetry scopes by the places of their invocations. -/
abbrev Ledger := List (Nat × TelemetryScope)

namespace Ledger

/-- The open scope of a place. -/
def get? (l : Ledger) (place : Nat) : Option TelemetryScope :=
  (l.find? (·.1 == place)).map (·.2)

/-- The ledger after a call: `start` opens a scope, `dispose` closes it. -/
def after (l : Ledger) (place : Nat) (call : TelemetryCall) : Ledger :=
  let others := l.filter (·.1 != place)
  match call with
  | .start info => (place, .opened info) :: others
  | .dispose => others
  | call =>
    match l.get? place with
    | some t => (place, t.note call) :: others
    | none => l

end Ledger

/-- What was told to the log and counted. -/
structure Trace where
  events : List Event
  metrics : List Metric
  deriving Inhabited

namespace TelemetryKind

/-- Goes through notes with a sink of this kind. -/
def follow (k : TelemetryKind) : Ledger → List (Nat × Note) → Trace
  | _, [] => ⟨[], []⟩
  | l, (_, .remark (.event e)) :: notes =>
    let t := k.follow l notes
    { t with events := e :: t.events }
  | l, (place, .telemetry call) :: notes =>
    let t := k.follow (l.after place call) notes
    match l.get? place with
    | Option.none => t
    | some scope =>
      { events := k.eventsOf scope call ++ t.events
        metrics := k.metricsOf scope call ++ t.metrics }
  | l, _ :: notes => k.follow l notes

/-- What comes of the notes of invocations that are all over. -/
def trace (k : TelemetryKind) (notes : List (Nat × Note)) : Trace :=
  k.follow [] notes

end TelemetryKind

end TrialRouting
