import TrialRouting.Dispatcher
import TrialRouting.Program.Session
import TrialRouting.Random
import TrialRouting.Simulation.Report
import TrialRouting.Telemetry.Ledger

/-!
# TrialRouting.Simulation

Simulated traffic: requests go through the dispatcher to an experiment with three trials that fail
at random. The requests are spread over some scopes in turn, and every scope has a caller of its
own. The selection and the trials draw from one stream of random words in the order in which they
run, so a seed determines the whole report.

`Simulation.runOn` takes any random stream, and any decisions that the cache drops on its own
between requests; `Simulation.run` takes the stream of the seed and drops none.
-/

namespace TrialRouting.Simulation

/-! ## Settings -/

/-- How the simulated experiment selects. -/
inductive Routing where
  | random
  | sticky
  deriving DecidableEq, Repr, Inhabited

def Routing.name : Routing → String
  | .random => "random"
  | .sticky => "sticky"

structure Settings where
  seed : UInt64 := 42
  requests : UInt64 := 1000
  scopes : UInt64 := 100
  failureRate : Binary64 := .ofDecimal false 1 (-1)
  policy : ErrorPolicy := .replayDefault
  routing : Routing := .random
  dispatch : Config := {}

namespace Settings

/-- At least one scope. -/
def scopeCount (s : Settings) : Nat :=
  max s.scopes.toNat 1

end Settings

/-- Why a simulation does not start. -/
inductive Refusal where
  | failureRate (rate : Binary64)
  | definition (e : DefinitionError)
  deriving DecidableEq, Repr

def Refusal.message : Refusal → String
  | .failureRate rate => s!"failure rate must be within 0..=1, got {rate.plain}"
  | .definition e => e.message

/-! ## The experiment -/

def contract : ContractId :=
  ⟨"checkout"⟩

/-- Selects every candidate with the same probability. -/
def selectRandomly : Selector Random := fun _ candidates => do
  let i ← Work.modifyGet (Random.below candidates.length)
  return .ok ((candidates[i]?).getD default)

def Routing.mode : Routing → SelectionMode Random
  | .random => .custom "checkout.random" selectRandomly
  | .sticky => .stickyRouting "checkout.sticky"

/-- The trials; the first one is the default. -/
def trials : List Trial :=
  trialNames.mapIdx fun i name => ⟨⟨name⟩, i == 0, ⟨"checkout::" ++ name⟩⟩

def draft (s : Settings) : Draft Random where
  contract := contract
  trials := trials
  selection := some s.routing.mode
  policy := s.policy
  timeout := none
  decorators := [timing none, errorLogging]

/-- Every trial is implemented by its name. -/
def implementations : ImplementationTable :=
  trialNames.foldl (fun t name => t.insert contract ⟨name⟩ (.text name)) .empty

/-- A trial fails at the given rate and otherwise answers with its name. -/
def serve (failureRate : Binary64) : Implementation → Work Random Yield
  | .text name => do
    if ← Work.modifyGet (Random.chance failureRate) then
      return .failure s!"{name} declined the request"
    else return .output name
  | _ => .done .foreignOutput

/-- The dispatcher of the simulated experiment. -/
def dispatcher (s : Settings) : Except Refusal (Dispatcher Random) := do
  let d ← (draft s).build.mapError .definition
  let registry ← (Registry.empty.register d).mapError .definition
  return ⟨registry, fun contract trial _ => implementations.resolve contract trial, .allOn,
    s.dispatch⟩

/-! ## Requests -/

/-- What is known after some requests. -/
structure Progress where
  session : Session Random
  succeeded : Nat
  failed : Nat
  failures : Tally
  selected : Tally
  served : Tally
  fallbacks : Tally
  metrics : List Metric
  deriving Inhabited

namespace Progress

def start (session : Session Random) : Progress :=
  ⟨session, 0, 0, [], [], [], [], []⟩

/-- Counts the trials that telemetry names. -/
def noted (p : Progress) : Note → Progress
  | .telemetry (.start info) => { p with selected := p.selected.increment info.trial.text }
  | .telemetry (.fallback trial) => { p with fallbacks := p.fallbacks.increment trial.text }
  | _ => p

/-- Counts how a request ended. -/
def ended (p : Progress) : Except DispatchError String → Progress
  | .ok name => { p with succeeded := p.succeeded + 1, served := p.served.increment name }
  | .error e => { p with failed := p.failed + 1, failures := p.failures.increment e.kind }

end Progress

/-- The caller of a scope, by its place among the scopes. -/
def context (index : Nat) : Context :=
  ⟨contract, "place_order", .generated index, some s!"customer-{index}"⟩

/-- One more request, before which the cache drops some decisions. -/
def request (s : Settings) (disp : Dispatcher Random) (drops : Nat → List DecisionKey)
    (p : Progress) (i : Nat) : Progress :=
  let cache := (drops i).foldl DecisionCache.evict p.session.cache
  let course := disp.invoke .text (serve s.failureRate) (context (i % s.scopeCount))
  let run := course.run .live { p.session with cache }
  let metrics := (s.dispatch.telemetry.trace (run.notes.map (0, ·))).metrics
  (run.notes.foldl Progress.noted
    { p with session := run.session, metrics := metrics ++ p.metrics }).ended run.value

/-! ## Simulations -/

/-- What a simulation found, and the metrics that it moved. -/
structure Findings where
  report : Report
  metrics : List Metric
  deriving Inhabited

/-- What is found after all requests. -/
def findings (s : Settings) (p : Progress) : Findings where
  report :=
    { seed := s.seed.toNat
      requests := s.requests.toNat
      scopes := s.scopeCount
      policy := s.policy.name
      selection := s.routing.name
      succeeded := p.succeeded
      failed := p.failed
      failures := p.failures
      selected := p.selected
      served := p.served
      fallbacks := p.fallbacks
      decisions := p.session.cache.maintain.entryCount }
  metrics := p.metrics

/-- Runs a simulation on a random stream, with a cache that drops decisions before requests. -/
def runOn (random : Random) (drops : Nat → List DecisionKey) (s : Settings) :
    Except Refusal Findings := do
  if !s.failureRate.isUnitInterval then throw (.failureRate s.failureRate)
  let disp ← dispatcher s
  let p := (List.range s.requests.toNat).foldl (request s disp drops)
    (.start ⟨0, disp.newCache, random⟩)
  return findings s p

/-- Runs a simulation. -/
def run (s : Settings) : Except Refusal Findings :=
  runOn (.ofSeed s.seed) (fun _ => []) s

end TrialRouting.Simulation
