import TrialRouting.Proofs.Unfolding.Guarded

/-!
# TrialRouting.Proofs.Invocation.Attempt

An attempt apart from its call.  A decorator takes its stance once, so all that
the decorators do before the call is work in which the call does not occur
(`chain`), and an attempt is a program without the call that ends by calling at
most once (`attempt_eq`).  What the decorators do after the call they have
settled before it.
-/

namespace TrialRouting

variable {σ : Type}

/-! ## The decorators -/

/-- What the decorators do before the call: they settle the attempt without it, or they let it
proceed and say what they will make of what it yields. -/
def chain : List (Decorator σ) → Attempt → Work σ (Stance σ)
  | [], _ => .done (.proceed .done)
  | d :: ds, a => (d.around a).bind fun
    | .settle y => .done (.settle y)
    | .proceed after => (chain ds a).bind fun
      | .settle y => (after y).bind fun y => .done (.settle y)
      | .proceed inner => .done (.proceed fun y => (inner y).bind after)

/-- **The call is made once at most**: first comes what the decorators do without it. -/
theorem surround_eq_chain (ds : List (Decorator σ)) (a : Attempt) (call : Work σ Yield) :
    surround ds a call = (chain ds a).bind fun
      | .settle y => .done y
      | .proceed after => call.bind after := by
  induction ds with
  | nil => exact (Work.bind_done call).symm
  | cons d ds ih =>
      rw [surround_cons, chain, Work.bind_assoc]
      refine congrArg (Work.bind _) (funext fun stance => ?_)
      cases stance with
      | settle y => rfl
      | proceed after =>
          dsimp only
          rw [ih, Work.bind_assoc, Work.bind_assoc]
          refine congrArg (Work.bind _) (funext fun inner => ?_)
          cases inner with
          | settle y =>
              rw [Work.bind_assoc]
              exact (Work.bind_done (after y)).symm
          | proceed inner => exact Work.bind_assoc call inner after

namespace Dispatcher

/-! ## The attempt -/

/-- How an attempt stands when it is over without a call, or is about to call. -/
inductive Approach (σ : Type) where
  | settled (outcome : AttemptOutcome)
  | calls (i : Implementation) (after : Yield → Work σ Yield) (left : Option Nat)

/-- What the decorators leave of an attempt on the given implementation. -/
def Approach.ofGuarded (budget : Option Duration) (i : Implementation) :
    Program.Guarded (Stance σ × Option Nat) → Approach σ
  | .finished (.settle y, _) => .settled (.ofVerdict y.verdict)
  | .finished (.proceed after, left) => .calls i after left
  | .expired => .settled (.ofGuarded budget .expired)
  | .cancelled => .settled (.ofGuarded budget .cancelled)

theorem Approach.eq_of_ofGuarded {budget : Option Duration} {i i' : Implementation}
    {g : Program.Guarded (Stance σ × Option Nat)} {after : Yield → Work σ Yield}
    {left : Option Nat} (h : Approach.ofGuarded budget i g = .calls i' after left) :
    g = .finished (.proceed after, left) ∧ i' = i := by
  cases g with
  | finished ended =>
      obtain ⟨stance, left'⟩ := ended
      cases stance with
      | settle y => cases h
      | proceed after' =>
          cases h
          exact ⟨rfl, rfl⟩
  | expired => cases h
  | cancelled => cases h

/-- An attempt up to its call. -/
def approach (disp : Dispatcher σ) (type : ImplementationType) (d : Definition σ) (ctx : Context)
    (decorators : List (Decorator σ)) (key : TrialKey) (number : Nat) :
    Program σ (Approach σ) :=
  match d.trials.get? key with
  | none => .done (.settled (.unresolvable (.notRegistered d.contract key)))
  | some trial =>
    (disp.implementation type d trial).bind fun
      | .error e => .done (.settled (.unresolvable e))
      | .ok i =>
        .note (.event (.attemptStarted key number d.contract)) <| .cancelled fun
          | true => .done (.settled .cancelled)
          | false =>
            (Program.guardedLeft ((disp.attemptBudget d).map Duration.clockMillis)
              (chain decorators (.of ctx key number))).bind fun g =>
            .done (.ofGuarded (disp.attemptBudget d) i g)

/-- An attempt from its call on. -/
def finish (disp : Dispatcher σ) (d : Definition σ) (call : Implementation → Work σ Yield) :
    Approach σ → Program σ AttemptOutcome
  | .settled outcome => .done outcome
  | .calls i after left =>
    (Program.guarded left ((call i).bind after)).bind fun g =>
    .done (.ofGuarded (disp.attemptBudget d) g)

/-- **An attempt calls once at most**: what precedes the call does not depend on it, and what
follows was fixed before. -/
theorem attempt_eq (disp : Dispatcher σ) (type : ImplementationType)
    (call : Implementation → Work σ Yield) (d : Definition σ) (ctx : Context)
    (decorators : List (Decorator σ)) (key : TrialKey) (number : Nat) :
    disp.attempt type call d ctx decorators key number =
      (disp.approach type d ctx decorators key number).bind (disp.finish d call) := by
  unfold attempt approach
  cases d.trials.get? key with
  | none => rfl
  | some trial =>
      dsimp only
      rw [Program.bind_assoc]
      refine congrArg (Program.bind _) (funext fun found => ?_)
      cases found with
      | error e => rfl
      | ok i =>
          refine congrArg (fun k => Program.note _ (.cancelled k)) (funext fun c => ?_)
          cases c with
          | true => rfl
          | false =>
              dsimp only
              rw [surround_eq_chain, Program.guarded_bind, Program.bind_assoc, Program.bind_assoc]
              refine congrArg (Program.bind _) (funext fun g => ?_)
              cases g with
              | finished ended =>
                  obtain ⟨stance, left⟩ := ended
                  cases stance <;> rfl
              | expired => rfl
              | cancelled => rfl

/-- An implementation is looked up once, and is what the resolver has found. -/
theorem unfolds_implementation {disp : Dispatcher σ} {type : ImplementationType}
    {d : Definition σ} {trial : Trial} {h : History σ}
    {found : Except ResolveError Implementation} (hu : (disp.implementation type d trial).Unfolds h found) :
    ∃ s, h = [.noted (.resolving d.contract trial), .acted id s] ∧
      ∀ i, found = .ok i → disp.resolver d.contract trial s = .ok i := by
  cases hu with
  | note _ hu =>
      obtain ⟨answer, _, _, rfl, hview, hu⟩ := Program.unfolds_bind hu
      obtain ⟨s, rfl, hanswer⟩ := Program.unfolds_view hview
      cases answer with
      | error e =>
          cases hu
          exact ⟨s, rfl, nofun⟩
      | ok i =>
          cases has : i.as? type with
          | none =>
              simp only [has] at hu
              cases hu
              exact ⟨s, rfl, nofun⟩
          | some j =>
              simp only [has] at hu
              cases hu
              refine ⟨s, rfl, fun i' hi' => ?_⟩
              cases hi'
              obtain ⟨_, rfl⟩ : i.type = type ∧ i = j := by simpa [Implementation.as?] using has
              exact hanswer.symm

end Dispatcher

end TrialRouting
