import TrialRouting.Proofs.Invocation.Unfolding
import TrialRouting.Proofs.Replay.Bound
import TrialRouting.Proofs.Replay.Closing

/-!
# TrialRouting.Proofs.Invocation.Switches

The switches of single trials, while others operate them.  An invocation comes
to a trial other than the default in one of two ways: the decision names it, or
the error policy replays on it after a failure.  Either way ends with a look at
the switch of that trial which found it on (`Definition.FoundOn`), and
`Dispatcher.ChosenOn` says what stands between that look and the attempt.  So a
trial whose switch is off at every look is never attempted.

The switch of the default trial is never asked: boards that differ in nothing
but the default trial are served by the same programs (`Switchboard.SameBut`).
-/

namespace TrialRouting

variable {σ : Type}

/-! ## Looks that find a trial on -/

namespace Definition

variable {d : Definition σ} {board : Switchboard σ} {key : TrialKey} {h : History σ}

/-- The history ends with a look at the switches that finds the trial on. -/
def FoundOn (d : Definition σ) (board : Switchboard σ) (key : TrialKey) (h : History σ) : Prop :=
  ∃ earlier s, h = earlier ++ [.acted id s] ∧ board.trialDisabled s d.contract key = false

theorem FoundOn.prepend (hon : d.FoundOn board key h) (h' : History σ) :
    d.FoundOn board key (h' ++ h) := by
  obtain ⟨earlier, s, rfl, hs⟩ := hon
  exact ⟨h' ++ earlier, s, (List.append_assoc ..).symm, hs⟩

theorem FoundOn.exists_found (hon : d.FoundOn board key h) :
    ∃ s ∈ h.found, board.trialDisabled s d.contract key = false := by
  obtain ⟨earlier, s, rfl, hs⟩ := hon
  exact ⟨s, History.mem_found (u := id) (by simp), hs⟩

/-- What a search finds but the default trial it has found on with its last look. -/
theorem Seeks.foundOn {keys : List TrialKey} (hs : d.Seeks board keys h (some key))
    (hother : key ≠ d.trials.defaultKey) : d.FoundOn board key h := by
  generalize hfound : some key = found at hs
  induction hs with
  | nothing => cases hfound
  | default keys hdefault =>
      cases hfound
      exact absurd hdefault hother
  | on keys s _ hon =>
      cases hfound
      exact ⟨[], s, rfl, hon⟩
  | off s _ _ _ ih => exact (ih hfound).prepend [.acted id s]

/-- The error policy has chosen the trial for an attempt, found it on, and the invocation has gone
on to it. -/
inductive ReplayedOn (d : Definition σ) (board : Switchboard σ) (key : TrialKey) :
    Nat → History σ → Prop where
  | intro {attempted : List TrialKey} {current : TrialKey} (earlier : History σ)
    {chosen : History σ} {next : { key // key ∈ d.untried current attempted }} :
    (d.firstEnabled board (d.untried current attempted)).Unfolds chosen (some next) →
    next.1 = key → d.FoundOn board key chosen →
    ReplayedOn d board key (attempted.length + 1)
      (earlier ++ (chosen ++ d.onwardSteps attempted current key))

theorem ReplayedOn.prepend {number : Nat} (hon : d.ReplayedOn board key number h)
    (h' : History σ) : d.ReplayedOn board key number (h' ++ h) := by
  cases hon with
  | intro earlier hchosen hnext hfound =>
      rw [← List.append_assoc]
      exact .intro (h' ++ earlier) hchosen hnext hfound

theorem ReplayedOn.exists_found {number : Nat} (hon : d.ReplayedOn board key number h) :
    ∃ s ∈ h.found, board.trialDisabled s d.contract key = false := by
  cases hon with
  | intro earlier hchosen hnext hfound =>
      obtain ⟨s, hs, hsOn⟩ := hfound.exists_found
      refine ⟨s, ?_, hsOn⟩
      simp only [History.found, List.filterMap_append, List.mem_append] at hs ⊢
      exact .inr (.inl hs)

/-- A trial other than the default is chosen after a failure only, and found on. -/
theorem exists_firstEnabled_of_choose {attempted : List TrialKey} {current : TrialKey}
    {outcome : AttemptOutcome} (hu : (d.choose board attempted current outcome).Unfolds h (.inr key))
    (hother : key ≠ d.trials.defaultKey) :
    ∃ next : { key // key ∈ d.untried current attempted },
      (d.firstEnabled board (d.untried current attempted)).Unfolds h (some next) ∧ next.1 = key := by
  cases outcome with
  | failed error =>
      obtain ⟨found, _, _, rfl, hfirst, hu⟩ := Program.unfolds_bind hu
      cases found with
      | none => cases hu
      | some next =>
          cases hu
          rw [List.append_nil]
          exact ⟨next, hfirst, rfl⟩
  | timedOut after =>
      dsimp only [choose] at hu
      split at hu
      · cases hu
      · next next hnext =>
          cases hu
          exact absurd (eq_defaultKey_of_timeoutCandidate hnext).1 hother
  | success value => cases hu
  | cancelled => cases hu
  | unresolvable source => cases hu
  | pipeline error => cases hu

/-- **In a row of turns**, what precedes the attempt of a trial other than the first one and the
default found it on. -/
theorem Turns.replayedOn {attempt : TrialKey → Nat → Program σ AttemptOutcome}
    {before later : List TrialKey} {current : TrialKey} {result : Except DispatchError String}
    (hsilent : ∀ key number h outcome, (attempt key number).Unfolds h outcome →
      TrialRouting.attempts h.notes = [])
    (ht : d.Turns board attempt before current later h result) {earlier after : History σ}
    {number : Nat} (hsplit : h = earlier ++ .noted (.attempting key number) :: after)
    (hother : key ≠ d.trials.defaultKey) :
    (earlier = [] ∧ key = current ∧ number = before.length + 1) ∨
      d.ReplayedOn board key number earlier := by
  obtain ⟨attempted, _, rfl, -, ⟨hearlier, hkey, rfl⟩ | ⟨front, chosen, failed, outcome, rfl,
    hchoose⟩⟩ := ht.chosen hsilent hsplit
  · exact .inl ⟨hearlier, hkey, rfl⟩
  · obtain ⟨next, hfirst, rfl⟩ := exists_firstEnabled_of_choose hchoose hother
    exact .inr (.intro front hfirst rfl ((seeks_of_unfolds hfirst).foundOn hother))

end Definition

/-! ## The trials of an invocation -/

namespace Dispatcher

/-- A decision for a trial other than the default found it on. -/
theorem foundOn_of_decide {disp : Dispatcher σ} {d : Definition σ} {ctx : Context}
    {decision : Decision} {h : History σ} (hu : (disp.decide d ctx).Unfolds h (some decision))
    (hother : decision.trial ≠ d.trials.defaultKey) : d.FoundOn disp.board decision.trial h := by
  cases decides_of_unfolds hu with
  | disabled s _ => exact absurd rfl hother
  | @decided s looked _ _ _ _ _ hreplaces =>
      cases hreplaces with
      | default hdefault => exact absurd hdefault hother
      | on s' _ hon => exact ⟨.acted id s :: looked, s', rfl, hon⟩
      | off _ _ _ => exact absurd rfl hother

/-- What precedes an attempt of a trial that is not the default: a decision for the trial that
found it on and no attempt since, or a replay that found it on. -/
inductive ChosenOn (disp : Dispatcher σ) (d : Definition σ) (ctx : Context) (key : TrialKey) :
    Nat → History σ → Prop where
  | decided {decided opened : History σ} {decision : Decision} :
    (disp.decide d ctx).Unfolds decided (some decision) → decision.trial = key →
    d.FoundOn disp.board key decided → attempts opened.notes = [] →
    ChosenOn disp d ctx key 1 (decided ++ opened)
  | replayed {number : Nat} {h : History σ} : d.ReplayedOn disp.board key number h →
    ChosenOn disp d ctx key number h

theorem ChosenOn.exists_found {disp : Dispatcher σ} {d : Definition σ} {ctx : Context}
    {key : TrialKey} {number : Nat} {h : History σ} (hon : disp.ChosenOn d ctx key number h) :
    ∃ s ∈ h.found, disp.board.trialDisabled s d.contract key = false := by
  cases hon with
  | replayed hreplayed => exact hreplayed.exists_found
  | decided _ _ hfound _ =>
      obtain ⟨s, hs, hsOn⟩ := hfound.exists_found
      refine ⟨s, ?_, hsOn⟩
      simp only [History.found, List.filterMap_append, List.mem_append] at hs ⊢
      exact .inl hs

/-- A trial other than the default is attempted only after it has been found on. -/
theorem chosenOn_of_unfolds_invoke {disp : Dispatcher σ} {type : ImplementationType}
    {call : Implementation → Work σ Yield} {ctx : Context} {d : Definition σ} {h : History σ}
    {result : Except DispatchError String} (hd : disp.registry.get? ctx.contract = some d)
    (hu : (disp.invoke type call ctx).Unfolds h result) {before after : History σ} {key : TrialKey}
    {number : Nat} (hsplit : h = before ++ .noted (.attempting key number) :: after)
    (hother : key ≠ d.trials.defaultKey) : disp.ChosenOn d ctx key number before := by
  obtain ⟨decision, decorators, later, decided, opened, earlier, rest, rfl, -, hdecided, -,
    hopened, hturns⟩ := exists_turns_of_attempting hd hu hsplit
  obtain ⟨rfl, rfl, rfl⟩ | hreplayed := hturns.replayedOn attempts_of_attempt rfl hother
  · rw [List.append_nil]
    exact .decided hdecided rfl (foundOn_of_decide hdecided hother) hopened
  · exact .replayed ((hreplayed.prepend _).prepend _)

end Dispatcher

/-! ## The default trial -/

/-- The boards say the same of an experiment and of its trials, but for the given trial. -/
structure Switchboard.SameBut (contract : ContractId) (key : TrialKey)
    (board board' : Switchboard σ) : Prop where
  experiment : ∀ s, board.experimentDisabled s contract = board'.experimentDisabled s contract
  trial : ∀ s other, other ≠ key →
    board.trialDisabled s contract other = board'.trialDisabled s contract other

namespace Definition

variable {d : Definition σ} {board board' : Switchboard σ}
  (hsame : Switchboard.SameBut d.contract d.trials.defaultKey board board')

include hsame

theorem firstEnabled_congr (keys : List TrialKey) :
    d.firstEnabled board keys = d.firstEnabled board' keys := by
  induction keys with
  | nil => rfl
  | cons key keys ih =>
      rw [firstEnabled, firstEnabled, ih]
      by_cases hdefault : key = d.trials.defaultKey
      · rw [if_pos hdefault, if_pos hdefault]
      · rw [if_neg hdefault, if_neg hdefault, funext fun s => hsame.trial s key hdefault]

theorem choose_congr (attempted : List TrialKey) (current : TrialKey) (outcome : AttemptOutcome) :
    d.choose board attempted current outcome = d.choose board' attempted current outcome := by
  cases outcome with
  | failed error => rw [choose, choose, firstEnabled_congr hsame]
  | success value => rfl
  | timedOut after => rfl
  | cancelled => rfl
  | unresolvable source => rfl
  | pipeline error => rfl

theorem rounds_congr (attempt : TrialKey → Nat → Program σ AttemptOutcome)
    (stop : Program σ (Except DispatchError String)) (n : Nat) (before : List TrialKey)
    (current : TrialKey) :
    d.rounds board attempt stop n before current = d.rounds board' attempt stop n before current := by
  induction n generalizing before current with
  | zero => rfl
  | succ n ih => simp only [rounds, choose_congr hsame, ih]

theorem replay_congr (attempt : TrialKey → Nat → Program σ AttemptOutcome)
    (before : List TrialKey) (current : TrialKey) :
    d.replay board attempt before current = d.replay board' attempt before current := by
  let stop : Program σ (Except DispatchError String) := .done (.error (.cancelled none))
  have hn := Nat.lt_succ_self (d.unattempted (before ++ [current]))
  rw [← d.rounds_eq_replay board attempt stop hn, ← d.rounds_eq_replay board' attempt stop hn,
    rounds_congr hsame]

end Definition

namespace Dispatcher

variable {disp : Dispatcher σ} {d : Definition σ} {board : Switchboard σ}

theorem replaceDisabled_congr
    (hsame : Switchboard.SameBut d.contract d.trials.defaultKey board disp.board)
    (decision : Decision) :
    { disp with board := board }.replaceDisabled d decision = disp.replaceDisabled d decision := by
  rw [replaceDisabled, replaceDisabled]
  by_cases hdefault : decision.trial = d.trials.defaultKey
  · rw [if_pos hdefault, if_pos hdefault]
  · rw [if_neg hdefault, if_neg hdefault, funext fun s => hsame.trial s decision.trial hdefault]

theorem decide_congr
    (hsame : Switchboard.SameBut d.contract d.trials.defaultKey board disp.board) (ctx : Context) :
    { disp with board := board }.decide d ctx = disp.decide d ctx := by
  simp only [decide, funext hsame.experiment, replaceDisabled_congr hsame]

theorem invokeDecided_congr
    (hsame : Switchboard.SameBut d.contract d.trials.defaultKey board disp.board)
    (type : ImplementationType) (call : Implementation → Work σ Yield) (ctx : Context)
    (decision : Decision) :
    { disp with board := board }.invokeDecided type call d ctx decision =
      disp.invokeDecided type call d ctx decision := by
  simp only [invokeDecided, Definition.replay_congr hsame]
  rfl

/-- What the switches say of the default trial makes no difference to an invocation. -/
theorem invoke_congr {ctx : Context} (hd : disp.registry.get? ctx.contract = some d)
    (hsame : Switchboard.SameBut d.contract d.trials.defaultKey board disp.board)
    (type : ImplementationType) (call : Implementation → Work σ Yield) :
    { disp with board := board }.invoke type call ctx = disp.invoke type call ctx := by
  have hinvoke := @invoke_of_get? σ { disp with board := board } ctx d hd type call
  rw [hinvoke, invoke_of_get? hd, decide_congr hsame]
  refine congrArg (Program.bind _) (funext fun value => ?_)
  cases value with
  | none => rfl
  | some decision => exact invokeDecided_congr hsame type call ctx decision

/-! ## Trials that are off -/

/-- **No trial is attempted that is off.**  A trial other than the default is attempted only after
the look at its switch that went with its choice has found it on, so it is not attempted at all if
it is off whenever the invocation looks at the state.  The default trial is served alike whatever
its switch says. -/
theorem attempts_only_found_on (disp : Dispatcher σ) (type : ImplementationType)
    (call : Implementation → Work σ Yield) (ctx : Context) (d : Definition σ)
    (hd : disp.registry.get? ctx.contract = some d) :
    (∀ h result, (disp.invoke type call ctx).Unfolds h result →
      ∀ key, key ≠ d.trials.defaultKey →
        (∀ before after number, h = before ++ .noted (.attempting key number) :: after →
          disp.ChosenOn d ctx key number before) ∧
        ((∀ s ∈ h.found, disp.board.trialDisabled s d.contract key = true) →
          ∀ number, (key, number) ∉ attempts h.notes)) ∧
    ∀ board, Switchboard.SameBut d.contract d.trials.defaultKey board disp.board →
      { disp with board := board }.invoke type call ctx = disp.invoke type call ctx := by
  constructor
  · intro h result hu key hother
    constructor
    · intro before after number hsplit
      exact chosenOn_of_unfolds_invoke hd hu hsplit hother
    · intro hoff number hattempt
      obtain ⟨before, after, rfl⟩ :=
        List.append_of_mem (History.mem_notes_iff.mp (mem_attempts_iff.mp hattempt))
      obtain ⟨s, hs, hon⟩ := (chosenOn_of_unfolds_invoke hd hu rfl hother).exists_found
      have hfound : s ∈ History.found (before ++ .noted (.attempting key number) :: after) := by
        rw [History.found, List.filterMap_append]
        exact List.mem_append_left _ hs
      rw [hoff s hfound] at hon
      cases hon
  · intro board hsame
    exact invoke_congr hd hsame type call

/-! ### A delivery with one trial off -/

def deliveryTrials : TrialSet where
  trials := [⟨⟨"express"⟩, false, ⟨"Express"⟩⟩, ⟨⟨"pickup"⟩, false, ⟨"Pickup"⟩⟩,
    ⟨⟨"standard"⟩, true, ⟨"Standard"⟩⟩]
  default := ⟨⟨"standard"⟩, true, ⟨"Standard"⟩⟩
  nodup := by decide
  filter_isDefault := by decide

/-- Selects `express`, and replays on whatever is left. -/
def delivery : Definition KillSwitch where
  contract := ⟨"delivery"⟩
  trials := deliveryTrials
  strategy := .custom "fixed" (fun _ _ => .done (.ok ⟨"express"⟩)) deliveryTrials.keys
  policy := .replayAny
  timeout := none
  decorators := []
  policy_registered := by decide

def deliveryDispatcher : Dispatcher KillSwitch where
  registry := ⟨[delivery], by decide⟩
  resolver := fun _ trial _ => .ok (.text trial.key.text)
  board := .ofState id
  config := {}

/-- Only `express` fails. -/
def deliveryCall : Implementation → Work KillSwitch Yield
  | .text "express" => .done (.failure "no courier")
  | _ => .done (.output "delivered")

def deliveryContext : Context :=
  ⟨⟨"delivery"⟩, "send", ⟨"req-1"⟩, none⟩

/-- The steps of a delivery while `pickup` is off. -/
def deliveryHistory : History KillSwitch :=
  (deliveryDispatcher.invoke .text deliveryCall deliveryContext).history .live
    ⟨0, .empty 8, KillSwitch.allOn.apply (.disableTrial ⟨"delivery"⟩ ⟨"pickup"⟩)⟩

/-- The replay passes `pickup` over. -/
theorem delivery_skips_pickup :
    deliveryDispatcher.registry.get? deliveryContext.contract = some delivery ∧
    (∀ s ∈ deliveryHistory.found,
      deliveryDispatcher.board.trialDisabled s ⟨"delivery"⟩ ⟨"pickup"⟩ = true) ∧
    (∀ number, (⟨"pickup"⟩, number) ∉ attempts deliveryHistory.notes) ∧
    attempts deliveryHistory.notes = [(⟨"express"⟩, 1), (⟨"standard"⟩, 2)] := by
  have hall : deliveryHistory.found.all (fun s =>
      deliveryDispatcher.board.trialDisabled s ⟨"delivery"⟩ ⟨"pickup"⟩) = true := by
    cbv
  have hattempts : attempts deliveryHistory.notes = [(⟨"express"⟩, 1), (⟨"standard"⟩, 2)] := by
    cbv
  have hoff := List.all_eq_true.mp hall
  obtain ⟨honly, _⟩ := attempts_only_found_on deliveryDispatcher .text deliveryCall deliveryContext
    delivery rfl
  obtain ⟨_, hnone⟩ := honly deliveryHistory _ (Program.unfolds_history _ _ _) ⟨"pickup"⟩
    (by decide)
  exact ⟨rfl, hoff, hnone hoff, hattempts⟩

end Dispatcher

end TrialRouting
