import TrialRouting.Dispatcher
import TrialRouting.Rehearsal.Stage

/-!
# TrialRouting.Rehearsal.Party

The parties of a rehearsal at work: sources, selectors, trials and decorators that follow the
scripts of the stage and write down in the journal what they do.
-/

namespace TrialRouting.Rehearsal

/-! ## Sources -/

/-- The text of a part of the context; callers without an identity have none. -/
def ContextPart.reading (ctx : Context) : ContextPart → Reading
  | .identity =>
    match ctx.identity with
    | some name => .text name
    | none => .other
  | .method => .text ctx.method
  | .scope => .text ctx.scope.text
  | .contract => .text ctx.contract.text

/-- An answer to a caller. -/
def Answer.resolve (ctx : Context) : Answer → Except SourceError Reading
  | .reading r => .ok r
  | .part p => .ok (p.reading ctx)
  | .error message => .error ⟨message⟩

/-- Reads a source: the next line of its script, after its delay. -/
def readSource (name : String) (ctx : Context) : Work Stage (Except SourceError Reading) := do
  Work.note (.read name)
  let line ← Work.modifyGet (Stage.read name)
  Work.pause line.delay
  return line.answer.resolve ctx

/-- A source of flags; anything else is an error. -/
def flagSource : FlagSource Stage Bool := fun name ctx => do
  match ← readSource name ctx with
  | .error e => return .error e
  | .ok (.flag b) => return .ok b
  | .ok _ => return .error ⟨s!"flag '{name}' is not a boolean"⟩

/-- A source of texts; anything else is no text. -/
def textSource : FlagSource Stage (Option String) := fun name ctx => do
  match ← readSource name ctx with
  | .error e => return .error e
  | .ok (.text s) => return .ok (some s)
  | .ok _ => return .ok none

/-! ## Selectors -/

/-- What a selector of the given name chooses when it has chosen `n` times before. -/
def Choice.resolve (name : String) (n : Nat) (ctx : Context) (candidates : List TrialKey) :
    Choice → Except SelectionError TrialKey
  | .fixed key => .ok key
  | .index i => .ok (candidate i)
  | .roundRobin => .ok (candidate n)
  | .byMethod keys =>
    .ok (((keys.find? (·.1 == ctx.method)).map (·.2)).getD ⟨ctx.method⟩)
  | .byIdentity =>
    match ctx.identity with
    | some identity => .ok ⟨identity⟩
    | none => .error (.missingIdentity name)
  | .unavailable reason => .error (.unavailable name reason)
  | .unknown key => .error (.unknownTrialKey key)
  | .reject reason => .error (.rejected name reason)
where
  /-- The candidate at a place, counted round and round. -/
  candidate (i : Nat) : TrialKey :=
    (candidates[i % candidates.length]?).getD default

/-- The scripted selector of a contract. It counts a choice before its delay. -/
def SelectorScript.selector (script : SelectorScript) (contract : ContractId) (name : String) :
    Selector Stage := fun ctx candidates => do
  let n ← Work.modifyGet (Stage.pick contract)
  Work.pause script.delay
  Work.note (.select name candidates)
  return script.choice.resolve name n ctx candidates

/-! ## Trials -/

/-- Operates the kill switch, which tells the log. -/
def operate (operations : List KillSwitch.Operation) : Work Stage Unit := do
  Work.tellAll (← Work.modifyGet (Stage.kill operations))

/-- Calls the trial whose script is at the given place. -/
def callTrial (i : Nat) : Work Stage Yield := do
  let (trial, line, count) ← Work.modifyGet (Stage.call i)
  Work.note (.call trial count)
  operate line.kill
  if line.cancel then Work.cancelInvocation
  Work.pause line.delay
  match line.ending with
  | .ok value => return .output value
  | .error error => return .failure error

/-- An implementation stands for the place of its script. -/
def call : Implementation → Work Stage Yield
  | .word i => callTrial i.toNat
  | _ => .done .foreignOutput

/-- An attempt that only operates the kill switch and cancels before it ends as it is told. -/
def scriptedAttempt (operations : List KillSwitch.Operation) (cancel : Bool)
    (outcome : AttemptOutcome) : Program Stage AttemptOutcome :=
  (Program.modifyGet (Stage.kill operations)).bind fun events =>
  (Program.tellAll (events.map Note.event)).bind fun _ =>
  if cancel then .cancel (.done outcome) else .done outcome

/-- What stands behind a trial on the stage. -/
def resolver : Resolver Stage := fun contract trial s =>
  match s.scriptIndex? contract trial.key with
  | none => .error (.notRegistered contract trial.key)
  | some i =>
    match (s.trials.getD i default).casting with
    | .scripted => .ok (.word (.ofNat i))
    | .missing => .error (.notRegistered contract trial.key)
    | .wrongType => .ok (.text trial.key.text)
    | .factory reason => .error (.factory trial.implementation reason)

/-- The switches on the stage. -/
def board : Switchboard Stage :=
  .ofState Stage.switches

/-! ## Decorators -/

/-- The stance of a manner that has been used so many times. -/
def Manner.stance (label : String) (a : Attempt) (uses : Nat) : Manner → Work Stage (Stance Stage)
  | .record => do
    Work.note (.before label a uses)
    return .proceed fun y => do
      Work.note (.after label a.trial y.error?)
      return y
  | .skip value => return .settle (.output value)
  | .veto error => return .proceed fun _ => return .foreignFailure error
  | .vetoBefore error => return .settle (.foreignFailure error)
  | .failTyped error => return .settle (.failure error)
  | .foreignOutput => return .proceed fun y => return if y.isOk then .foreignOutput else y
  | .replace value => return .proceed fun y => return if y.isOk then .output value else y
  | .wrap wrapper => return .proceed fun
    | .output value => return .output (wrapper ++ "(" ++ value ++ ")")
    | y => return y
  | .swallow value => return .proceed fun y => return if y.isOk then y else .output value

/-- The scripted decorator of the given number. -/
def DecoratorScript.decorator (d : DecoratorScript) (number : Nat) : Decorator Stage where
  name := d.label
  around a :=
    if d.concerns a then do
      let uses ← Work.modifyGet (Stage.use number)
      Work.pause d.delay
      d.manner.stance d.label a uses
    else return .proceed fun y => return y

/-- Makes scripted decorators, a new one for each invocation. -/
def DecoratorScript.factory (d : DecoratorScript) : DecoratorFactory Stage where
  name := d.label
  create _ s :=
    let (number, s) := s.makeDecorator
    (d.decorator number, s, [.entry (.create d.label)])

/-- Tells the journal of every attempt that was timed. -/
def observedTiming : DecoratorFactory Stage :=
  timing (some fun a ok => Work.note (.timing a.trial a.number ok))

end TrialRouting.Rehearsal
