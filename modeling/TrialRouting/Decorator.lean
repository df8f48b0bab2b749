import TrialRouting.Work

/-!
# TrialRouting.Decorator

Decorators surround the attempts of an invocation. A decorator works before the attempt and then
takes a stance: it settles the attempt itself, or it lets the attempt proceed and works on what the
attempt yields. The stance is taken once, so what a decorator surrounds runs at most once.

The first decorator of a list is the outermost one (`surround_cons`). What leaves the outermost
decorator decides the attempt (`Yield.verdict`): only an output or an error of the trial's own
types counts as the trial's.
-/

namespace TrialRouting

/-! ## What an attempt yields -/

/-- An output or an error, of the trial's types or foreign to them. -/
inductive Yield where
  | output (value : String)
  | foreignOutput
  | failure (error : String)
  | foreignFailure (error : String)
  deriving DecidableEq, Repr

namespace Yield

def isOk : Yield → Bool
  | .output _ => true
  | .foreignOutput => true
  | _ => false

/-- The text of an error. -/
def error? : Yield → Option String
  | .failure e => some e
  | .foreignFailure e => some e
  | _ => none

end Yield

/-- How a finished attempt counts. -/
inductive Verdict where
  | success (value : String)
  | failed (error : String)
  | pipeline (error : String)
  deriving DecidableEq, Repr

/-- An output counts as success and a trial error as failure; anything foreign is a fault of the
decorators. -/
def Yield.verdict : Yield → Verdict
  | .output value => .success value
  | .foreignOutput =>
    .pipeline "decorator replaced the trial output with a value of another type"
  | .failure error => .failed error
  | .foreignFailure error => .pipeline error

/-! ## Decorators -/

/-- What a decorator decides before the attempt it surrounds. -/
inductive Stance (σ : Type) where
  | settle (y : Yield)
  | proceed (after : Yield → Work σ Yield)

/-- Work around an attempt. -/
structure Decorator (σ : Type) where
  name : String
  around : Attempt → Work σ (Stance σ)

/-- The decorators around a call, the outermost first. -/
def surround {σ : Type} : List (Decorator σ) → Attempt → Work σ Yield → Work σ Yield
  | [], _, call => call
  | d :: ds, a, call => (d.around a).bind fun
    | .settle y => .done y
    | .proceed after => (surround ds a call).bind after

theorem surround_nil {σ : Type} (a : Attempt) (call : Work σ Yield) :
    surround [] a call = call := rfl

theorem surround_cons {σ : Type} (d : Decorator σ) (ds : List (Decorator σ)) (a : Attempt)
    (call : Work σ Yield) :
    surround (d :: ds) a call = (d.around a).bind fun
      | .settle y => .done y
      | .proceed after => (surround ds a call).bind after := rfl

/-- Makes a decorator for each invocation. Making one may leave remarks and change the state. -/
structure DecoratorFactory (σ : Type) where
  name : String
  create : Context → σ → Decorator σ × σ × List Remark

namespace DecoratorFactory

/-- A factory that hands out one decorator to everybody. -/
def constant {σ : Type} (name : String) (d : Context → Decorator σ) : DecoratorFactory σ :=
  ⟨name, fun ctx s => (d ctx, s, [])⟩

end DecoratorFactory

/-! ## Timing -/

/-- Hears of every attempt that came to an end, and whether it succeeded. The measured time of the
attempt is left out. -/
abbrev TimingObserver (σ : Type) := Attempt → Bool → Work σ Unit

/-- Tells the log, and an observer if there is one, that an attempt ended and how. -/
def timingDecorator {σ : Type} (observer : Option (TimingObserver σ)) : Decorator σ where
  name := "timing"
  around a := .done <| .proceed fun y => do
    Work.tell (.attemptTimed a y.isOk)
    match observer with
    | none => return y
    | some observe =>
      observe a y.isOk
      return y

def timing {σ : Type} (observer : Option (TimingObserver σ)) : DecoratorFactory σ :=
  .constant "timing" fun _ => timingDecorator observer

/-! ## Error logging -/

/-- Tells the log of every attempt that ended in an error, and who called. -/
def errorLoggingDecorator {σ : Type} (identity : Option String) : Decorator σ where
  name := "error_logging"
  around a := .done <| .proceed fun y =>
    match y.error? with
    | none => .done y
    | some error => do
      Work.tell (.attemptFailed a identity error)
      return y

def errorLogging {σ : Type} : DecoratorFactory σ :=
  .constant "error_logging" fun ctx => errorLoggingDecorator ctx.identity

end TrialRouting
