import TrialRouting.Cache
import TrialRouting.Telemetry
import TrialRouting.Trial
import TrialRouting.Work

/-!
# TrialRouting.Program

The course of an invocation. A program is to the dispatcher what work is to the parties around it:
a finite tree of steps. Besides the steps of work it may sleep until its cancellation wakes it,
look whether it has been cancelled, and take part in the sharing of decisions:

* `claim key` asks for the decision of a key. It is a hit if there is one; otherwise the caller has
  won the right to make it, unless another caller is making it already, for whom it then waits.
* `settle key` ends what a won claim began, with a decision or without.

Work becomes part of a program under a guard (`guarded`): at each wake-up the guard looks first
whether the invocation was cancelled, then lets the work go on, and last looks whether the budget
is used up. Work that ends exactly when its budget does is in time.
-/

namespace TrialRouting

/-! ## Notes -/

/-- What happens in an invocation, in the order in which it happens. -/
inductive Note where
  | remark (r : Remark)
  | telemetry (call : TelemetryCall)
  | selecting (key : DecisionKey)
  | creating (decorator : String)
  | attempting (trial : TrialKey) (number : Nat)
  | resolving (contract : ContractId) (trial : Trial)
  deriving DecidableEq, Repr

/-- A line of the log as a note. -/
def Note.event (e : Event) : Note :=
  .remark (.event e)

/-! ## Programs -/

/-- The answer to a claim. -/
inductive Claim where
  | hit (d : Decision)
  | won
  | abandoned
  deriving DecidableEq, Repr

/-- A finite course of steps of the dispatcher that ends in a value. -/
inductive Program (σ α : Type) where
  | done (value : α)
  | note (n : Note) (rest : Program σ α)
  | act (update : σ → σ) (next : σ → Program σ α)
  | sleep (ms : Nat) (rest : Program σ α)
  | cancelled (next : Bool → Program σ α)
  | cancel (rest : Program σ α)
  | claim (key : DecisionKey) (next : Claim → Program σ α)
  | settle (key : DecisionKey) (d : Option Decision) (rest : Program σ α)
  | track (key : DecisionKey) (rest : Program σ α)

namespace Program

variable {σ α β γ : Type}

/-- First `p`, then what `f` makes of its value. -/
def bind : Program σ α → (α → Program σ β) → Program σ β
  | .done a, f => f a
  | .note n p, f => .note n (p.bind f)
  | .act u k, f => .act u fun s => (k s).bind f
  | .sleep ms p, f => .sleep ms (p.bind f)
  | .cancelled k, f => .cancelled fun c => (k c).bind f
  | .cancel p, f => .cancel (p.bind f)
  | .claim key k, f => .claim key fun c => (k c).bind f
  | .settle key d p, f => .settle key d (p.bind f)
  | .track key p, f => .track key (p.bind f)

instance : Monad (Program σ) where
  pure := .done
  bind := bind

@[simp] theorem pure_eq (a : α) : (pure a : Program σ α) = .done a := rfl

@[simp] theorem bind_eq (p : Program σ α) (f : α → Program σ β) : p >>= f = p.bind f := rfl

@[simp] theorem done_bind (a : α) (f : α → Program σ β) : (done a).bind f = f a := rfl

@[simp] theorem bind_done (p : Program σ α) : p.bind done = p := by
  induction p <;> simp only [bind, *]

theorem bind_assoc (p : Program σ α) (f : α → Program σ β) (g : β → Program σ γ) :
    (p.bind f).bind g = p.bind fun a => (f a).bind g := by
  induction p <;> simp only [bind, *]

/-! ## Single steps -/

/-- Notes what happens. -/
def tell (n : Note) : Program σ Unit :=
  .note n (.done ())

/-- Notes several things. -/
def tellAll : List Note → Program σ Unit
  | [] => .done ()
  | n :: ns => .note n (tellAll ns)

/-- What `f` makes of the present state. -/
def view (f : σ → α) : Program σ α :=
  .act id fun s => .done (f s)

/-- Changes the state and gives what `f` makes of the former one. -/
def modifyGet (f : σ → α × σ) : Program σ α :=
  .act (fun s => (f s).2) fun s => .done (f s).1

/-- Whether the invocation has been cancelled. -/
def isCancelled : Program σ Bool :=
  .cancelled .done

/-- The program as if nobody could cancel it, itself included. -/
def shielded : Program σ α → Program σ α
  | .done a => .done a
  | .note n p => .note n p.shielded
  | .act u k => .act u fun s => (k s).shielded
  | .sleep ms p => .sleep ms p.shielded
  | .cancelled k => (k false).shielded
  | .cancel p => p.shielded
  | .claim key k => .claim key fun c => (k c).shielded
  | .settle key d p => .settle key d p.shielded
  | .track key p => .track key p.shielded

/-! ## Work under a guard -/

/-- How guarded work ends. -/
inductive Guarded (α : Type) where
  | finished (value : α)
  | expired
  | cancelled
  deriving DecidableEq, Repr

/-- Goes on unless the invocation has been cancelled. -/
def unlessCancelled (rest : Program σ (Guarded α)) : Program σ (Guarded α) :=
  .cancelled fun c => if c then .done .cancelled else rest

/-- A sleep, at the end of which a cancellation wins over everything else. -/
def sleepGuarded (ms : Nat) (rest : Program σ (Guarded α)) : Program σ (Guarded α) :=
  .sleep ms (unlessCancelled rest)

/-- Work within what is left of its budget in milliseconds, if it has one. A wait of no length is
no wait; a wait beyond the budget ends with it, and at once when nothing is left. -/
def guarded : Option Nat → Work σ α → Program σ (Guarded α)
  | _, .done a => .done (.finished a)
  | budget, .remark r w => .note (.remark r) (guarded budget w)
  | budget, .act u k => .act u fun s => guarded budget (k s)
  | budget, .cancel w => .cancel (guarded budget w)
  | none, .wait ms w =>
    if ms = 0 then guarded none w else sleepGuarded ms (guarded none w)
  | some left, .wait ms w =>
    if ms = 0 then guarded (some left) w
    else if ms ≤ left then sleepGuarded ms (guarded (some (left - ms)) w)
    else if left = 0 then .done .expired
    else sleepGuarded left (.done .expired)

end Program

end TrialRouting
