import TrialRouting.Program.Crowd
import TrialRouting.Rehearsal.Party

/-!
# TrialRouting.Rehearsal.Course

The course of a rehearsal: a dispatcher serves invocations one by one or several at the same time,
while its stage changes in between. What happened is kept as notes in the order of events, each
with the place of its invocation.
-/

namespace TrialRouting.Rehearsal

/-! ## Invocations -/

/-- An invocation: who calls, when after the present time it starts, whether it is cancelled from
the start, and how long after its start it will be. A plain one passes on neither the caller's
identity nor a cancellation. -/
structure Invocation where
  ctx : Context
  startAfter : Nat
  cancelled : Bool
  cancelAfter : Option Nat
  plain : Bool
  deriving Inhabited

/-- How an invocation ended, and how long after its start. -/
structure Ending where
  result : Except DispatchError String
  elapsed : Nat
  deriving Inhabited

namespace Invocation

/-- The course of the invocation. -/
def program (i : Invocation) (disp : Dispatcher Stage) : Program Stage (Except DispatchError String) :=
  if i.plain then disp.invokePlainly .word call i.ctx.contract i.ctx.method i.ctx.scope
  else disp.invoke .word call i.ctx

/-- The token of an invocation that starts now. -/
def token (i : Invocation) (clock : Nat) : Token :=
  if i.plain then .live else .starting clock i.cancelled i.cancelAfter

/-- The invocation as one of several. -/
def entrant (i : Invocation) (disp : Dispatcher Stage) :
    Crowd.Entrant Stage (Except DispatchError String) where
  program := i.program disp
  startAfter := i.startAfter
  cancelled := !i.plain && i.cancelled
  cancelAfter := if i.plain then none else i.cancelAfter

end Invocation

/-! ## Courses -/

/-- How far a rehearsal has come: its dispatcher, what that acts on, how many scopes it has named,
and the seed of their names. -/
structure Course where
  dispatcher : Dispatcher Stage
  session : Session Stage
  scopes : Nat
  seed : UInt64

namespace Course

/-- The beginning: every trial of the registry has a script. -/
def opened (registry : Registry Stage) (config : Config) (stage : Stage) (seed : UInt64) :
    Course :=
  let dispatcher : Dispatcher Stage := ⟨registry, resolver, board, config⟩
  let stage := registry.definitions.foldl
    (fun s d => s.ensureScripts d.contract d.trials.keys) stage
  ⟨dispatcher, ⟨0, dispatcher.newCache, stage⟩, 0, seed⟩

/-- One invocation by itself. -/
def invoke (c : Course) (i : Invocation) : Ending × List (Nat × Note) × Course :=
  let run := (i.program c.dispatcher).run (i.token c.session.clock) c.session
  (⟨run.value, run.session.clock - c.session.clock⟩, run.notes.map (0, ·),
    { c with session := run.session })

/-- Several invocations at the same time. Their calls are not counted in the journal. -/
def invokeAll (c : Course) (is : List Invocation) :
    List (Option Ending) × List (Nat × Note) × Course :=
  let counted (b : Bool) (s : Session Stage) : Session Stage :=
    { s with state := { s.state with counted := b } }
  let crowd := (Crowd.gather (counted false c.session) (is.map (·.entrant c.dispatcher))).run
  let start (i : Invocation) : Nat := c.session.clock + Duration.cutWait i.startAfter
  let endings := (is.zip crowd.members).map fun (i, m) =>
    m.result?.map fun (result, time) => (⟨result, time - start i⟩ : Ending)
  (endings, crowd.notes.reverse, { c with session := counted true crowd.session })

/-- Changes the stage between invocations. -/
def change (c : Course) (f : Stage → Stage) : Course :=
  { c with session := { c.session with state := f c.session.state } }

/-- Operates the kill switch between invocations, which tells the log. -/
def operate (c : Course) (operations : List KillSwitch.Operation) : List Event × Course :=
  let (events, stage) := c.session.state.kill operations
  (events, c.change fun _ => stage)

/-- Names a new scope. -/
def beginScope (c : Course) : ScopeId × Course :=
  (.drawn c.seed c.scopes, { c with scopes := c.scopes + 1 })

/-- Ends a scope, which tells the log. -/
def endScope (c : Course) (scope : ScopeId) : List Event × Course :=
  let cache := c.session.cache
  (cache.endScopeEvents scope, { c with session := { c.session with cache := cache.endScope scope } })

/-- The decision that is kept for a contract within a scope. -/
def decision? (c : Course) (contract : ContractId) (scope : ScopeId) : Option Decision :=
  c.session.cache.get? ⟨contract, scope⟩

/-- Drops the decisions that are too many. -/
def maintain (c : Course) : Course :=
  { c with session := { c.session with cache := c.session.cache.maintain } }

end Course

end TrialRouting.Rehearsal
