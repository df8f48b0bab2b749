import TrialRouting.Cache.Lookup
import TrialRouting.Config
import TrialRouting.Implementation
import TrialRouting.Registry
import TrialRouting.Replay

/-!
# TrialRouting.Dispatcher

An invocation from its call to its result. The dispatcher decides on a trial, opens a telemetry
scope, makes the decorators of the experiment, attempts trials until one gives an output or no
other may be tried, and closes the telemetry scope with the outcome.

An invocation that ends before there is a decision, because its contract has no experiment or
because it was cancelled, leaves no trace of these steps.
-/

namespace TrialRouting

/-! ## Selection -/

namespace Definition

variable {σ : Type}

/-- The default trial in place of a selection that failed. -/
def substituteDefault (d : Definition σ) (ctx : Context) (error : SelectionError) :
    Work σ Decision := do
  let default := d.trials.defaultKey
  Work.tell (.selectionFailed d.contract ctx.scope d.strategy.kind error default)
  return .substituted default d.strategy.candidates (.selection error)

/-- Selects a trial for a caller. The answer has to be a trial of the experiment; otherwise, and
after any error, the default trial is used. -/
def select (d : Definition σ) (ctx : Context) : Work σ Decision := do
  match ← d.strategy.resolve ctx with
  | .error error => d.substituteDefault ctx error
  | .ok key =>
    if d.trials.contains key then
      Work.tell (.trialSelected d.contract ctx.scope key)
      return .selected key d.strategy.candidates
    else d.substituteDefault ctx (.unknownTrialKey key)

end Definition

/-! ## The dispatcher -/

/-- Finds the implementation of a trial. -/
abbrev Resolver (σ : Type) := ContractId → Trial → σ → Except ResolveError Implementation

/-- Experiments, their implementations, the switches and the settings. -/
structure Dispatcher (σ : Type) where
  registry : Registry σ
  resolver : Resolver σ
  board : Switchboard σ
  config : Config

namespace Dispatcher

variable {σ : Type}

/-- What the log is told when a dispatcher is ready. -/
def readyEvent (disp : Dispatcher σ) : Event :=
  .dispatcherReady disp.registry.size disp.config.decisionCache.maxEntries.toNat
    disp.config.decisionCache.scopeIdleSecs.toNat

/-- The decision cache with which a dispatcher starts. -/
def newCache (disp : Dispatcher σ) : DecisionCache :=
  .empty disp.config.decisionCache.capacity.toNat

/-- The default trial in place of a decided one that is switched off. The default itself is never
replaced. -/
def replaceDisabled (disp : Dispatcher σ) (d : Definition σ) (decision : Decision) :
    Program σ Decision :=
  let default := d.trials.defaultKey
  if decision.trial = default then .done decision
  else
    (Program.view fun s => disp.board.trialDisabled s d.contract decision.trial).bind fun
      | false => .done decision
      | true =>
        .note (.event (.trialSkipped decision.trial d.contract default)) <|
        .done (.substituted default decision.candidates (.trialDisabled decision.trial))

/-- Decides on the trial of an invocation. The decision of a scope is looked up or made, unless the
whole experiment is switched off; what the switches change is not kept. -/
def decide (disp : Dispatcher σ) (d : Definition σ) (ctx : Context) :
    Program σ (Option Decision) :=
  (Program.view fun s => disp.board.experimentDisabled s d.contract).bind fun
    | true =>
      let default := d.trials.defaultKey
      .note (.event (.experimentSkipped d.contract default)) <|
      .done (some (.substituted default d.strategy.candidates .experimentDisabled))
    | false =>
      (DecisionCache.getOrResolve ⟨d.contract, ctx.scope⟩ (d.select ctx)).bind fun
        | none => .done none
        | some decision => (disp.replaceDisabled d decision).bind fun x => .done (some x)

/-- Makes the decorators of an invocation, one after the other. -/
def createDecorators (ctx : Context) : List (DecoratorFactory σ) → Program σ (List (Decorator σ))
  | [] => .done []
  | f :: fs =>
    .note (.creating f.name) <|
    (Program.modifyGet fun s => let (d, s, rs) := f.create ctx s; ((d, rs), s)).bind fun (d, rs) =>
    (Program.tellAll (rs.map Note.remark)).bind fun _ =>
    (createDecorators ctx fs).bind fun ds => .done (d :: ds)

/-- The budget of an attempt: that of the experiment, or else that of the dispatcher. -/
def attemptBudget (disp : Dispatcher σ) (d : Definition σ) : Option Duration :=
  match d.timeout with
  | some settings => some settings.after
  | none => disp.config.defaultAttemptTimeout

/-- The implementation of a trial as a value of the type that the caller can use. -/
def implementation (disp : Dispatcher σ) (type : ImplementationType) (d : Definition σ)
    (trial : Trial) : Program σ (Except ResolveError Implementation) :=
  .note (.resolving d.contract trial) <|
  (Program.view fun s => disp.resolver d.contract trial s).bind fun
    | .error e => .done (.error e)
    | .ok i =>
      match i.as? type with
      | some i => .done (.ok i)
      | none => .done (.error (.typeMismatch trial.implementation type.name))

/-- One attempt of an invocation. -/
def attempt (disp : Dispatcher σ) (type : ImplementationType) (call : Implementation → Work σ Yield)
    (d : Definition σ) (ctx : Context) (decorators : List (Decorator σ)) (key : TrialKey)
    (number : Nat) : Program σ AttemptOutcome :=
  match d.trials.get? key with
  | none => .done (.unresolvable (.notRegistered d.contract key))
  | some trial =>
    (disp.implementation type d trial).bind fun
      | .error e => .done (.unresolvable e)
      | .ok i =>
        .note (.event (.attemptStarted key number d.contract)) <|
        runAttempt decorators (.of ctx key number) (call i) (disp.attemptBudget d)

/-- What is noted of a result. -/
def resultNotes (d : Definition σ) (ctx : Context) : Except DispatchError String → List Note
  | .ok _ => [.telemetry .success]
  | .error e =>
    [.event (.invocationFailed d.contract ctx.method e.kind), .telemetry (.failure (.dispatch e))]

/-- An invocation that has its decision. -/
def invokeDecided (disp : Dispatcher σ) (type : ImplementationType)
    (call : Implementation → Work σ Yield) (d : Definition σ) (ctx : Context)
    (decision : Decision) : Program σ (Except DispatchError String) :=
  let start : InvocationStart :=
    ⟨d.contract, ctx.method, ctx.scope, d.strategy.kind, decision.trial, decision.candidates⟩
  let fallback := if decision.isSubstituted then [TelemetryCall.fallback decision.trial] else []
  let opening := .start start :: .variant d.strategy.name d.strategy.kind.name :: fallback
  (Program.tellAll (opening.map Note.telemetry)).bind fun _ =>
  (createDecorators ctx d.decorators).bind fun decorators =>
  (d.replay disp.board (disp.attempt type call d ctx decorators) [] decision.trial).bind
    fun result =>
  (Program.tellAll (resultNotes d ctx result ++ [.telemetry .dispose])).bind fun _ =>
  .done result

/-- An invocation: `type` is what the caller can use as an implementation, and `call` calls it. -/
def invoke (disp : Dispatcher σ) (type : ImplementationType) (call : Implementation → Work σ Yield)
    (ctx : Context) : Program σ (Except DispatchError String) :=
  match disp.registry.get? ctx.contract with
  | none =>
    .note (.event (.experimentMissing ctx.contract)) <|
    .done (.error (.definitionNotFound ctx.contract))
  | some d =>
    (disp.decide d ctx).bind fun
      | none => .done (.error (.cancelled none))
      | some decision => disp.invokeDecided type call d ctx decision

/-- A plain invocation: nobody in particular calls, and nobody can cancel. -/
def invokePlainly (disp : Dispatcher σ) (type : ImplementationType)
    (call : Implementation → Work σ Yield) (contract : ContractId) (method : String)
    (scope : ScopeId) : Program σ (Except DispatchError String) :=
  (disp.invoke type call ⟨contract, method, scope, none⟩).shielded

end Dispatcher

end TrialRouting
