import TrialRouting.Implementation
import TrialRouting.KillSwitch

/-!
# TrialRouting.Rehearsal.Script

What scripted parties are told to do. A rehearsal runs the dispatcher with sources, selectors,
trials and decorators that follow scripts instead of serving anybody.

Scripts that list several lines are followed line by line, and the last line is repeated.
-/

namespace TrialRouting.Rehearsal

/-- The line for the `n`-th time, counted from one: the last line is repeated. -/
def line? {α : Type} (lines : List α) (n : Nat) : Option α :=
  lines[min n lines.length - 1]?

/-! ## Sources -/

/-- What a source has for a name. -/
inductive Reading where
  | flag (value : Bool)
  | text (value : String)
  | other
  deriving DecidableEq, Repr, Inhabited

/-- A part of the caller's context. -/
inductive ContextPart where
  | identity
  | method
  | scope
  | contract
  deriving DecidableEq, Repr

/-- What a source answers. -/
inductive Answer where
  | reading (r : Reading)
  | part (p : ContextPart)
  | error (message : String)
  deriving DecidableEq, Repr, Inhabited

/-- An answer and how long it takes. -/
structure SourceLine where
  delay : Nat
  answer : Answer
  deriving DecidableEq, Repr, Inhabited

/-- A source that has nothing, at once. -/
def SourceLine.nothing : SourceLine :=
  ⟨0, .reading .other⟩

/-! ## Selectors -/

/-- How a custom selector chooses. -/
inductive Choice where
  | fixed (key : TrialKey)
  | index (i : Nat)
  | roundRobin
  | byMethod (keys : List (String × TrialKey))
  | byIdentity
  | unavailable (reason : String)
  | unknown (key : TrialKey)
  | reject (reason : String)
  deriving DecidableEq, Repr, Inhabited

/-- A choice and how long it takes. -/
structure SelectorScript where
  delay : Nat
  choice : Choice
  deriving DecidableEq, Repr, Inhabited

/-! ## Trials -/

/-- What a trial does when it is called: it operates the kill switch, cancels the invocation that
calls, lets some time pass, and ends. -/
structure TrialLine where
  kill : List KillSwitch.Operation
  cancel : Bool
  delay : Nat
  ending : Except String String
  deriving Inhabited

/-- What stands behind a trial. -/
inductive Casting where
  | scripted
  | missing
  | wrongType
  | factory (reason : String)
  deriving DecidableEq, Repr, Inhabited

/-- The script of a trial, and how often the trial was called since it has this script. -/
structure TrialScript where
  contract : ContractId
  trial : TrialKey
  casting : Casting
  lines : List TrialLine
  called : Nat
  deriving Inhabited

namespace TrialScript

/-- A trial that has not been called yet. -/
def fresh (contract : ContractId) (trial : TrialKey) (casting : Casting)
    (lines : List TrialLine) : TrialScript :=
  ⟨contract, trial, casting, lines, 0⟩

/-- A trial without lines answers with its key. -/
def next (s : TrialScript) : TrialLine :=
  (line? s.lines (s.called + 1)).getD ⟨[], false, 0, .ok s.trial.text⟩

/-- The script after a call. -/
def advance (s : TrialScript) : TrialScript :=
  { s with called := s.called + 1 }

end TrialScript

/-! ## Decorators -/

/-- What a scripted decorator does to the attempts it surrounds. -/
inductive Manner where
  | record
  | skip (value : String)
  | veto (error : String)
  | vetoBefore (error : String)
  | failTyped (error : String)
  | foreignOutput
  | replace (value : String)
  | wrap (wrapper : String)
  | swallow (value : String)
  deriving DecidableEq, Repr, Inhabited

/-- A decorator, and the attempts and trials for which it does anything at all. -/
structure DecoratorScript where
  label : String
  manner : Manner
  delay : Nat
  onAttempt : Option Nat
  onTrial : Option TrialKey
  deriving DecidableEq, Repr, Inhabited

/-- The decorator is meant for the attempt. -/
def DecoratorScript.concerns (d : DecoratorScript) (a : Attempt) : Bool :=
  d.onAttempt.all (· == a.number) && d.onTrial.all (· == a.trial)

end TrialRouting.Rehearsal
