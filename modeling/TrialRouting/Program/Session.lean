import TrialRouting.Program

/-!
# TrialRouting.Program.Session

Runs one program at a time. A session is what programs act on: the clock in milliseconds, the
decisions that are kept, and the state that the parties share. Each program runs with a token that
tells whether it has been cancelled; an alarm may cancel it at a given time. A cancelled program
does not sleep any more. An alarm does not interrupt a program that is running: it goes off in the
next sleep, unless that ends by the time for which the alarm is set.
-/

namespace TrialRouting

/-- What programs act on. -/
structure Session (σ : Type) where
  clock : Nat
  cache : DecisionCache
  state : σ
  deriving Inhabited

/-- Whether a program has been cancelled, and when it will be. -/
structure Token where
  cancelled : Bool
  alarm : Option Nat
  deriving DecidableEq, Repr, Inhabited

namespace Token

/-- Nobody cancels the program but itself. -/
def live : Token :=
  ⟨false, none⟩

/-- The token of a program that starts at the given time and may be cancelled some time after. -/
def starting (clock : Nat) (cancelled : Bool) (cancelAfter : Option Nat) : Token :=
  ⟨cancelled, cancelAfter.map fun ms => clock + Duration.cutWait ms⟩

/-- A sleep from the given time on: the token after it, and the time at which it ends. -/
def sleep (t : Token) (clock ms : Nat) : Token × Nat :=
  if t.cancelled then (t, clock)
  else
    match t.alarm with
    | none => (t, clock + ms)
    | some alarm =>
      if alarm < clock + ms then (⟨true, none⟩, max alarm clock) else (t, clock + ms)

end Token

/-- What running a program leaves: its value, its token, the session, and what happened. -/
structure Run (σ α : Type) where
  value : α
  token : Token
  session : Session σ
  notes : List Note

namespace Program

variable {σ α β : Type}

/-- Runs a program that has the session for itself. -/
def run : Program σ α → Token → Session σ → Run σ α
  | .done a, t, s => ⟨a, t, s, []⟩
  | .note n p, t, s =>
    let r := run p t s
    { r with notes := n :: r.notes }
  | .act u k, t, s => run (k s.state) t { s with state := u s.state }
  | .sleep ms p, t, s => run p (t.sleep s.clock ms).1 { s with clock := (t.sleep s.clock ms).2 }
  | .cancelled k, t, s => run (k t.cancelled) t s
  | .cancel p, t, s => run p { t with cancelled := true } s
  | .claim key k, t, s =>
    match s.cache.get? key with
    | some d => run (k (.hit d)) t s
    | none => run (k .won) t s
  | .settle key (some d) p, t, s => run p t { s with cache := s.cache.insert key d }
  | .settle _ none p, t, s => run p t s
  | .track key p, t, s => run p t { s with cache := s.cache.track key }

/-- One program after another: the second starts where the first ends. -/
theorem run_bind (p : Program σ α) (f : α → Program σ β) (t : Token) (s : Session σ) :
    (p.bind f).run t s =
      let r := p.run t s
      let r' := (f r.value).run r.token r.session
      { r' with notes := r.notes ++ r'.notes } := by
  induction p generalizing t s with
  | done a => rfl
  | note n p ih => simp [bind, run, ih]
  | act u k ih => simp [bind, run, ih]
  | sleep ms p ih => simp [bind, run, ih]
  | cancelled k ih => simp [bind, run, ih]
  | cancel p ih => simp [bind, run, ih]
  | claim key k ih =>
    simp only [bind, run]
    cases s.cache.get? key <;> simp [ih]
  | settle key d p ih => cases d <;> simp [bind, run, ih]
  | track key p ih => simp [bind, run, ih]

end Program

end TrialRouting
