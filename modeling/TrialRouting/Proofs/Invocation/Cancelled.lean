import TrialRouting.Proofs.Invocation.Attempt
import TrialRouting.Proofs.Invocation.Reports

/-!
# TrialRouting.Proofs.Invocation.Cancelled

Invocations that have been cancelled before they begin.  Whenever such an
invocation looks whether it has been cancelled, it finds that it has
(`History.Forsaken`).  The first look is that of the look-up, before its claim,
so nothing else is done while the experiment is on (`decides_of_forsaken`).

But an experiment that is switched off is served without a look-up, and the
decision in its place looks at no token.  The invocation then goes through its
whole protocol: it opens its telemetry scope, makes its decorators, and asks
for the implementation of the default trial.  Only there, right before the
call, is the token looked at (`turns_of_forsaken`).

* `forsaken_history` — the histories of cancelled runs are of this kind;
* `cancelled_invocation` — the main theorem.
-/

namespace TrialRouting

variable {σ α : Type}

/-! ## Histories of cancelled callers -/

/-- Whenever the steps look whether the caller has been cancelled, it has. -/
def History.Forsaken (h : History σ) : Prop :=
  ∀ c, .asked c ∈ h → c = true

namespace History

variable {h h' : History σ}

theorem Forsaken.left (hf : Forsaken (h ++ h')) : Forsaken h :=
  fun c hc => hf c (List.mem_append_left h' hc)

theorem Forsaken.right (hf : Forsaken (h ++ h')) : Forsaken h' :=
  fun c hc => hf c (List.mem_append_right h hc)

theorem Forsaken.tail {step : Step σ} (hf : Forsaken (step :: h)) : Forsaken h :=
  fun c hc => hf c (List.mem_cons_of_mem step hc)

end History

namespace Program

/-- A caller that is cancelled when it begins stays so, and sees it at every look. -/
theorem forsaken_history (p : Program σ α) {t : Token} (ht : t.cancelled = true) (s : Session σ) :
    History.Forsaken (p.history t s) := by
  induction p generalizing t s with
  | done a => simp [history, History.Forsaken]
  | note n p ih => simpa [history, History.Forsaken] using ih ht s
  | act u k ih => simpa [history, History.Forsaken] using ih s.state ht _
  | sleep ms p ih =>
      have hsleep : (t.sleep s.clock ms).1.cancelled = true := by simp [Token.sleep, ht]
      simpa [history, History.Forsaken] using ih hsleep _
  | cancelled k ih =>
      have hnext := ih t.cancelled ht s
      intro c hc
      obtain heq | hc := List.mem_cons.mp hc
      · cases heq
        exact ht
      · exact hnext c hc
  | cancel p ih =>
      have hnext := ih (t := { t with cancelled := true }) rfl s
      simpa [history, History.Forsaken] using hnext
  | claim key k ih =>
      unfold history
      split
      · simpa [History.Forsaken] using ih _ ht s
      · simpa [History.Forsaken] using ih _ ht s
  | settle key d p ih =>
      cases d with
      | none => simpa [history, History.Forsaken] using ih ht s
      | some d => simpa [history, History.Forsaken] using ih ht _
  | track key p ih => simpa [history, History.Forsaken] using ih ht _

theorem unfolds_of_tellAll (ns : List Note) :
    (tellAll ns : Program σ Unit).Unfolds (ns.map Step.noted) () := by
  induction ns with
  | nil => exact .done ()
  | cons n ns ih => exact .note n ih

end Program

namespace Dispatcher

variable {disp : Dispatcher σ} {d : Definition σ} {ctx : Context} {type : ImplementationType}
  {call : Implementation → Work σ Yield} {h : History σ}

/-! ## The decision -/

/-- A cancelled caller comes to no decision while the experiment is on, and does nothing but look at
its token.  While the experiment is off its token is not looked at. -/
theorem decides_of_forsaken {value : Option Decision} (hu : (disp.decide d ctx).Unfolds h value)
    (hf : h.Forsaken) :
    ∃ s, (disp.board.experimentDisabled s d.contract = false ∧ h = [.acted id s, .asked true] ∧
        value = none) ∨
      (disp.board.experimentDisabled s d.contract = true ∧
        h = [.acted id s, .noted (.event (.experimentSkipped d.contract d.trials.defaultKey))] ∧
        value = some (.substituted d.trials.defaultKey d.strategy.candidates
          .experimentDisabled)) := by
  have hlive {looked : History σ} (hf : History.Forsaken (.asked false :: looked)) : False :=
    Bool.false_ne_true (hf false List.mem_cons_self)
  cases decides_of_unfolds hu with
  | disabled s hoff => exact ⟨s, .inr ⟨hoff, rfl, rfl⟩⟩
  | undecided s hon hlooks =>
      cases hlooks with
      | cancelled => exact ⟨s, .inl ⟨hon, rfl, rfl⟩⟩
      | abandoned => exact (hlive hf.tail).elim
      | unmade _ => exact (hlive hf.tail).elim
  | decided s hon hlooks _ =>
      cases hlooks with
      | found kept => exact (hlive hf.tail.left).elim
      | made _ => exact (hlive hf.tail.left).elim

/-! ## The attempt -/

/-- How the only attempt of a cancelled caller ends, and with which error the invocation. -/
inductive Forestalls (d : Definition σ) (key : TrialKey) : AttemptOutcome → DispatchError → Prop where
  | cancelled : Forestalls d key .cancelled (.cancelled (some key))
  | unresolvable (e : ResolveError) :
    Forestalls d key (.unresolvable e) (.implementationUnavailable d.contract key e)

theorem Forestalls.choose {key : TrialKey} {outcome : AttemptOutcome} {error : DispatchError}
    (hends : Forestalls d key outcome error) (board : Switchboard σ) (attempted : List TrialKey) :
    d.choose board attempted key outcome = .done (.inl (.error error)) := by
  cases hends <;> rfl

/-- An attempt of a cancelled caller ends before its call. -/
theorem forestalls_of_forsaken {decorators : List (Decorator σ)} {key : TrialKey} {number : Nat}
    {outcome : AttemptOutcome}
    (hu : (disp.attempt type call d ctx decorators key number).Unfolds h outcome)
    (hf : h.Forsaken) :
    (disp.approach type d ctx decorators key number).Unfolds h (.settled outcome) ∧
      ∃ error, Forestalls d key outcome error := by
  rw [attempt_eq] at hu
  obtain ⟨approached, first, last, rfl, happroach, hfinish⟩ := Program.unfolds_bind hu
  suffices hsettled : ∃ outcome' error, approached = .settled outcome' ∧
      Forestalls d key outcome' error by
    obtain ⟨outcome', error, rfl, hends⟩ := hsettled
    cases hfinish
    rw [List.append_nil]
    exact ⟨happroach, error, hends⟩
  replace hf := hf.left
  unfold approach at happroach
  split at happroach
  · cases happroach
    exact ⟨_, _, rfl, .unresolvable _⟩
  · obtain ⟨found, looked, rest, rfl, -, happroach⟩ := Program.unfolds_bind happroach
    cases found with
    | error e =>
        cases happroach
        exact ⟨_, _, rfl, .unresolvable e⟩
    | ok i =>
        cases happroach with
        | note _ happroach =>
            cases happroach with
            | cancelled c happroach =>
                obtain rfl : c = true := hf.right.tail c List.mem_cons_self
                cases happroach
                exact ⟨_, _, rfl, .cancelled⟩

/-- The turns of a cancelled caller are one attempt, which ends before its call. -/
theorem turns_of_forsaken {decorators : List (Decorator σ)} {key : TrialKey}
    {before later : List TrialKey} {result : Except DispatchError String}
    (ht : d.Turns disp.board (disp.attempt type call d ctx decorators) before key later h result)
    (hf : h.Forsaken) :
    later = [] ∧ ∃ tried outcome error,
      h = .noted (.attempting key (before ++ [key]).length) :: tried ∧
      (disp.approach type d ctx decorators key (before ++ [key]).length).Unfolds tried
        (.settled outcome) ∧
      Forestalls d key outcome error ∧ result = .error error := by
  cases ht with
  | last htried hchoose =>
      obtain ⟨happroach, error, hends⟩ := forestalls_of_forsaken htried hf.tail.left
      rw [hends.choose] at hchoose
      cases hchoose
      rw [List.append_nil]
      exact ⟨rfl, _, _, error, rfl, happroach, hends, rfl⟩
  | cancelled htried hchoose =>
      obtain ⟨-, error, hends⟩ := forestalls_of_forsaken htried hf.tail.left
      rw [hends.choose] at hchoose
      cases hchoose
  | onward htried hchoose _ =>
      obtain ⟨-, error, hends⟩ := forestalls_of_forsaken htried hf.tail.left
      rw [hends.choose] at hchoose
      cases hchoose

/-! ## The whole invocation -/

/-- An attempt that ends before its call goes the same way whatever the call would be. -/
theorem unfolds_attempt_of_settled {decorators : List (Decorator σ)} {key : TrialKey} {number : Nat}
    {outcome : AttemptOutcome}
    (hu : (disp.approach type d ctx decorators key number).Unfolds h (.settled outcome))
    (call : Implementation → Work σ Yield) :
    (disp.attempt type call d ctx decorators key number).Unfolds h outcome := by
  rw [attempt_eq, ← List.append_nil h]
  exact hu.bind (.done outcome)

section

variable {decision : Decision} {decorators : List (Decorator σ)} {decided made tried : History σ}
  {outcome : AttemptOutcome}

/-- The steps that follow the decision when the only attempt ends before its call. -/
def forestalledSteps (d : Definition σ) (ctx : Context) (decision : Decision)
    (made tried : History σ) (error : DispatchError) : History σ :=
  ((openingReports d ctx decision).map Note.telemetry).map .noted ++
    (made ++ ((.noted (.attempting decision.trial 1) :: tried) ++
      (resultNotes d ctx (.error error) ++ [Note.telemetry .dispose]).map .noted))

/-- What follows the decision of a cancelled caller goes the same way whatever the call would be. -/
theorem unfolds_invokeDecided_of_settled {error : DispatchError}
    (hmade : (createDecorators ctx d.decorators).Unfolds made decorators)
    (happroach : (disp.approach type d ctx decorators decision.trial 1).Unfolds tried
      (.settled outcome))
    (hends : Forestalls d decision.trial outcome error) (call : Implementation → Work σ Yield) :
    (disp.invokeDecided type call d ctx decision).Unfolds
      (forestalledSteps d ctx decision made tried error) (.error error) := by
  have hreplay : (d.replay disp.board (disp.attempt type call d ctx decorators) []
      decision.trial).Unfolds (.noted (.attempting decision.trial 1) :: tried) (.error error) := by
    rw [Definition.replay_eq]
    refine .note _ ?_
    rw [← List.append_nil tried]
    refine (unfolds_attempt_of_settled happroach call).bind ?_
    rw [hends.choose]
    exact .done _
  refine (Program.unfolds_of_tellAll _).bind (hmade.bind (hreplay.bind ?_))
  rw [← List.append_nil (List.map _ _)]
  exact (Program.unfolds_of_tellAll _).bind (.done _)

/-- The protocol of a cancelled caller that has its decision is whole, and has one attempt. -/
theorem protocol_of_settled {value : Option Decision} (error : DispatchError)
    (hdecided : (disp.decide d ctx).Unfolds decided value)
    (hmade : (createDecorators ctx d.decorators).Unfolds made decorators)
    (happroach : (disp.approach type d ctx decorators decision.trial 1).Unfolds tried
      (.settled outcome)) :
    protocol (decided ++ forestalledSteps d ctx decision made tried error).notes =
      wholeProtocol d ctx decision [] (.error error) := by
  let call : Implementation → Work σ Yield := fun _ => .done (.output "")
  have htried := protocol_of_inward (plain_attempt disp type call d ctx decorators decision.trial 1)
    (unfolds_attempt_of_settled happroach call)
  have hmade := protocol_of_inward (plain_createDecorators ctx d.decorators) hmade
  simp only [forestalledSteps, List.cons_append, History.notes_append, History.notes_noted,
    History.notes_map_noted, protocol_append, protocol_map_telemetry, protocol_attempting,
    protocol_of_decide hdecided, hmade, htried, protocol_resultNotes, protocol_telemetry,
    protocol_nil]
  rfl

end

/-- **Invocations that are cancelled before they begin.**  The first step finds out whether the
experiment is off.
If it is on, the next step finds that the caller has been cancelled, and there is no other: the
result is a cancellation without a trial.
If it is off, nothing is looked up, selected or kept; but the invocation reports its start with the
default trial in place of a decision, makes its decorators, begins an attempt of the default trial,
and reports its failure.  The failure is a cancellation of that attempt, or that the resolver, which
is asked first, has no implementation.  No trial is called: the invocation goes the same way
whatever a call would do. -/
theorem cancelled_invocation {result : Except DispatchError String}
    (hd : disp.registry.get? ctx.contract = some d)
    (hu : (disp.invoke type call ctx).Unfolds h result) (hf : h.Forsaken) :
    ∃ s rest, h = .acted id s :: rest ∧
      (disp.board.experimentDisabled s d.contract = false →
        rest = [.asked true] ∧ result = .error (.cancelled none)) ∧
      (disp.board.experimentDisabled s d.contract = true →
        (∀ step ∈ h, step.Apart) ∧ (∀ n ∈ h.notes, n.selection? = none) ∧
        attempts h.notes = [(d.trials.defaultKey, 1)] ∧
        reports h.notes = openingReports d ctx (.substituted d.trials.defaultKey
          d.strategy.candidates .experimentDisabled) ++ [closingReport result, .dispose] ∧
        (result = .error (.cancelled (some d.trials.defaultKey)) ∨
          ∃ e, result = .error (.implementationUnavailable d.contract d.trials.defaultKey e)) ∧
        ∀ call', (disp.invoke type call' ctx).Unfolds h result) := by
  cases serves_of_unfolds hu with
  | unknown hnone =>
      rw [hnone] at hd
      cases hd
  | undecided hd' hdecided =>
      obtain rfl := Option.some.inj (hd.symm.trans hd')
      obtain ⟨s, ⟨hon, rfl, -⟩ | ⟨-, -, hvalue⟩⟩ := decides_of_forsaken hdecided hf
      · exact ⟨s, _, rfl, fun _ => ⟨rfl, rfl⟩, fun hoff => by simp [hon] at hoff⟩
      · cases hvalue
  | @served d' decision decorators later decided made tried _ hd' hdecided hmade hturns =>
      obtain rfl := Option.some.inj (hd.symm.trans hd')
      obtain ⟨s, ⟨-, -, hvalue⟩ | ⟨hoff, rfl, hvalue⟩⟩ := decides_of_forsaken hdecided hf.left
      · cases hvalue
      obtain rfl := Option.some.inj hvalue
      obtain ⟨rfl, tried, outcome, error, rfl, happroach, hends, rfl⟩ :=
        turns_of_forsaken hturns hf.right.right.right.left
      have hserved := unfolds_invokeDecided_of_settled hmade happroach hends
      have hprotocol := protocol_of_settled error hdecided hmade happroach
      refine ⟨s, _, rfl, fun hon => by simp [hoff] at hon, fun _ => ⟨?_, ?_, ?_, ?_, ?_, ?_⟩⟩
      · intro step hstep
        obtain hstep | hstep := List.mem_append.mp hstep
        · obtain rfl | rfl : step = _ ∨ step = _ := by simpa using hstep
          · trivial
          · trivial
        · exact Program.apart_of_plain (plain_invokeDecided disp type call d ctx _)
            (hserved call) step hstep
      · intro n hn
        rw [History.notes_append] at hn
        obtain hn | hn := List.mem_append.mp hn
        · obtain rfl := List.mem_singleton.mp hn
          rfl
        · exact Program.forall_mem_notes (plain_invokeDecided disp type call d ctx _).notesOnly
            (hserved call) n hn
      · rw [← attempts_protocol]
        exact (congrArg attempts hprotocol).trans (attempts_wholeProtocol d ctx _ [] _)
      · rw [← reports_protocol]
        exact (congrArg reports hprotocol).trans (reports_wholeProtocol d ctx _ [] _)
      · cases hends with
        | cancelled => exact .inl rfl
        | unresolvable e => exact .inr ⟨e, rfl⟩
      · intro call'
        rw [invoke_of_get? hd]
        exact hdecided.bind (hserved call')

/-! ### The checkout while it is off -/

/-- The steps of an invocation of the checkout that is cancelled before it begins. -/
def forsakenCheckout : History KillSwitch :=
  (checkoutDispatcher.invoke .word checkoutCall checkoutContext).history ⟨true, none⟩ checkoutOff

theorem unfolds_forsakenCheckout :
    (checkoutDispatcher.invoke .word checkoutCall checkoutContext).Unfolds forsakenCheckout
      (.error (.cancelled (some ⟨"legacy"⟩))) := by
  have hvalue : ((checkoutDispatcher.invoke .word checkoutCall checkoutContext).run ⟨true, none⟩
      checkoutOff).value = .error (.cancelled (some ⟨"legacy"⟩)) := by
    decide +kernel
  rw [← hvalue]
  exact Program.unfolds_history _ _ _

/-- A cancelled invocation of an experiment that is switched off reports its start, and is cancelled
only in its attempt. -/
theorem cancelled_checkout_reports_start :
    let r := (checkoutDispatcher.invoke .word checkoutCall checkoutContext).run ⟨true, none⟩
      checkoutOff
    checkoutOff.state.experimentDisabled ⟨"checkout"⟩ = true ∧
      r.value = .error (.cancelled (some ⟨"legacy"⟩)) ∧
      attempts r.notes = [(⟨"legacy"⟩, 1)] ∧
      reports r.notes =
        [.start ⟨⟨"checkout"⟩, "pay", ⟨"req-1"⟩, .custom, ⟨"legacy"⟩, [⟨"legacy"⟩, ⟨"streamlined"⟩]⟩,
          .variant "fixed" "custom", .fallback ⟨"legacy"⟩,
          .failure (.dispatch (.cancelled (some ⟨"legacy"⟩))), .dispose] := by
  decide +kernel

theorem cancelled_invocation_checkout :
    forsakenCheckout.Forsaken ∧ attempts forsakenCheckout.notes = [(⟨"legacy"⟩, 1)] ∧
      ∀ call, (checkoutDispatcher.invoke .word call checkoutContext).Unfolds forsakenCheckout
        (.error (.cancelled (some ⟨"legacy"⟩))) := by
  have hf : forsakenCheckout.Forsaken := by
    unfold forsakenCheckout
    exact Program.forsaken_history _ rfl _
  obtain ⟨s, rest, hsteps, -, hoff⟩ :=
    cancelled_invocation (d := checkout) rfl unfolds_forsakenCheckout hf
  obtain rfl : checkoutOff.state = s := by
    cases hsteps
    rfl
  obtain ⟨-, -, hattempts, -, -, hcalls⟩ := hoff (by decide)
  exact ⟨hf, hattempts, hcalls⟩

end Dispatcher

end TrialRouting
