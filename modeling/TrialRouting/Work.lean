import TrialRouting.Event

/-!
# TrialRouting.Work

What the parties around the dispatcher do: flag sources, custom selectors, trials and decorators.
Work is a finite tree of steps over a state `σ` that the parties share: it writes remarks, changes
the state, waits on the clock, and may cancel the invocation that it serves. What follows a step
may depend on the state that the step found.

Between two waits work is one indivisible stretch. `Work.alone` runs work that nobody interrupts;
`TrialRouting.Program` says how the dispatcher runs it.
-/

namespace TrialRouting

/-! ## Remarks -/

/-- What a party writes down in the journal of an invocation. -/
inductive Entry where
  | read (source : String)
  | select (mode : String) (candidates : List TrialKey)
  | call (trial : TrialKey) (count : Option Nat)
  | create (decorator : String)
  | before (decorator : String) (attempt : Attempt) (uses : Nat)
  | after (decorator : String) (trial : TrialKey) (error : Option String)
  | timing (trial : TrialKey) (number : Nat) (ok : Bool)
  deriving DecidableEq, Repr

/-- A journal entry or a line of the log. -/
inductive Remark where
  | entry (e : Entry)
  | event (e : Event)
  deriving DecidableEq, Repr

/-! ## Work -/

/-- A finite course of steps that ends in a value. `act update next` replaces the state `s` by
`update s` and goes on as `next s` says. -/
inductive Work (σ α : Type) where
  | done (value : α)
  | remark (r : Remark) (rest : Work σ α)
  | act (update : σ → σ) (next : σ → Work σ α)
  | wait (ms : Nat) (rest : Work σ α)
  | cancel (rest : Work σ α)

namespace Work

variable {σ α β γ : Type}

/-- First `w`, then what `f` makes of its value. -/
def bind : Work σ α → (α → Work σ β) → Work σ β
  | .done a, f => f a
  | .remark r w, f => .remark r (w.bind f)
  | .act u k, f => .act u fun s => (k s).bind f
  | .wait ms w, f => .wait ms (w.bind f)
  | .cancel w, f => .cancel (w.bind f)

instance : Monad (Work σ) where
  pure := .done
  bind := bind

@[simp] theorem pure_eq (a : α) : (pure a : Work σ α) = .done a := rfl

@[simp] theorem bind_eq (w : Work σ α) (f : α → Work σ β) : w >>= f = w.bind f := rfl

@[simp] theorem done_bind (a : α) (f : α → Work σ β) : (done a).bind f = f a := rfl

@[simp] theorem bind_done (w : Work σ α) : w.bind done = w := by
  induction w with
  | done a => rfl
  | remark r w ih => simp [bind, ih]
  | act u k ih => simp [bind, ih]
  | wait ms w ih => simp [bind, ih]
  | cancel w ih => simp [bind, ih]

theorem bind_assoc (w : Work σ α) (f : α → Work σ β) (g : β → Work σ γ) :
    (w.bind f).bind g = w.bind fun a => (f a).bind g := by
  induction w with
  | done a => rfl
  | remark r w ih => simp [bind, ih]
  | act u k ih => simp [bind, ih]
  | wait ms w ih => simp [bind, ih]
  | cancel w ih => simp [bind, ih]

/-! ## Single steps -/

/-- Writes a journal entry. -/
def note (e : Entry) : Work σ Unit :=
  .remark (.entry e) (.done ())

/-- Tells the log. -/
def tell (e : Event) : Work σ Unit :=
  .remark (.event e) (.done ())

/-- Tells the log several events. -/
def tellAll : List Event → Work σ Unit
  | [] => .done ()
  | e :: es => .remark (.event e) (tellAll es)

/-- The present state. -/
def look : Work σ σ :=
  .act id .done

/-- Changes the state. -/
def change (f : σ → σ) : Work σ Unit :=
  .act f fun _ => .done ()

/-- Changes the state and gives what `f` makes of the former one. -/
def modifyGet (f : σ → α × σ) : Work σ α :=
  .act (fun s => (f s).2) fun s => .done (f s).1

/-- Waits, but not longer than the longest wait; no time at all is no wait. -/
def pause (ms : Nat) : Work σ Unit :=
  if ms = 0 then .done () else .wait (Duration.cutWait ms) (.done ())

/-- Cancels the invocation. -/
def cancelInvocation : Work σ Unit :=
  .cancel (.done ())

/-! ## Work that runs alone -/

/-- Runs work that nothing interrupts: its value, the state it leaves and its remarks. -/
def alone : Work σ α → σ → α × σ × List Remark
  | .done a, s => (a, s, [])
  | .remark r w, s =>
    let (a, s, rs) := alone w s
    (a, s, r :: rs)
  | .act u k, s => alone (k s) (u s)
  | .wait _ w, s => alone w s
  | .cancel w, s => alone w s

end Work

end TrialRouting
