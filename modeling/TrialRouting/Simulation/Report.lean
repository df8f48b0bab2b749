import TrialRouting.Document.Basic
import TrialRouting.Tally
import TrialRouting.Text.Column

/-!
# TrialRouting.Simulation.Report

What a simulation found, as a document and as a text.
-/

namespace TrialRouting.Simulation

open Text

/-- The trials of the simulated experiment, the default first. -/
def trialNames : List String :=
  ["control", "express", "one_click"]

/-- The outcome of a simulation: how its requests ended, on which trials they started, which trials
served them and on which ones they were replayed, and how many decisions were kept. -/
structure Report where
  seed : Nat
  requests : Nat
  scopes : Nat
  policy : String
  selection : String
  succeeded : Nat
  failed : Nat
  failures : Tally
  selected : Tally
  served : Tally
  fallbacks : Tally
  decisions : Nat
  deriving Inhabited

namespace Report

/-- The share of requests that succeeded, all of none. -/
def successRate (r : Report) : Binary64 :=
  if r.requests = 0 then .ofNat 1 else (Binary64.ofNat r.succeeded).div (.ofNat r.requests)

def fallbackCount (r : Report) : Nat :=
  r.fallbacks.total

/-- Counts as a record. -/
def tallyDocument (t : Tally) : Document :=
  .record (t.map fun (name, n) => (name, .integer n))

def document (r : Report) : Document :=
  .record
    [("seed", .integer r.seed), ("requests", .integer r.requests), ("scopes", .integer r.scopes),
     ("policy", .text r.policy), ("selection", .text r.selection),
     ("succeeded", .integer r.succeeded), ("failed", .integer r.failed),
     ("failures", tallyDocument r.failures), ("selected", tallyDocument r.selected),
     ("served", tallyDocument r.served), ("fallbacks", tallyDocument r.fallbacks),
     ("decisions", .integer r.decisions)]

/-- A row of the table of trials. -/
def row (trial selected served fallback : String) : String :=
  leftIn 12 trial ++ " " ++ rightIn 10 selected ++ " " ++ rightIn 10 served ++ " "
    ++ rightIn 10 fallback

/-- The lines about the requests. -/
def summary (r : Report) : List String :=
  let share := (r.successRate.mul (.ofNat 100)).fixed 1
  [s!"Seed: {r.seed}", s!"Requests: {r.requests} over {r.scopes} scopes", s!"Policy: {r.policy}",
    s!"Selection: {r.selection}", s!"Decisions cached: {r.decisions}",
    s!"Succeeded: {r.succeeded} ({share}%)", s!"Failed: {r.failed}",
    s!"Fallbacks: {r.fallbackCount}"]

/-- The table of trials. -/
def table (r : Report) : List String :=
  row "trial" "selected" "served" "fallback" :: trialNames.map fun name =>
    row name (toString (r.selected.count name)) (toString (r.served.count name))
      (toString (r.fallbacks.count name))

/-- The lines about failures, if there were any. -/
def failureLines (r : Report) : List String :=
  if r.failures.isEmpty then []
  else "" :: "=== Failures ===" :: r.failures.map fun (kind, n) => s!"{kind}: {n}"

/-- The report for people, each line with its break. -/
def text (r : Report) : String :=
  let lines := "=== trialswitch simulation ===" :: "" :: r.summary ++ "" :: r.table ++ r.failureLines
  String.join (lines.map (· ++ "\n"))

end Report

end TrialRouting.Simulation
