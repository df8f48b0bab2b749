import TrialRouting.Proofs.Invocation
import TrialRouting.Proofs.Replay.Queue

/-!
# TrialRouting.Proofs.Invocation.Disabled

Invocations of an experiment that is switched off.  Deciding puts the default
trial in the place of any other, so the first attempt is on the default trial.
The switch of the experiment is not asked again after that: a replay looks at
the switches of single trials only.  So the promise of the switch, that the
default trial alone is used, is kept exactly as long as no replay can follow
the default trial (`attempts_of_disabled_experiment_iff`), and an experiment
whose default trial fails under `replayAny` breaks it
(`disabled_experiment_attempts_other_trial`).
-/

namespace TrialRouting

variable {σ : Type}

namespace Definition

/-- After the default trial alone there is a next candidate if and only if the
policy's list has another trial that is on. -/
theorem exists_nextCandidate_default_iff (d : Definition σ) (disabled : TrialKey → Bool) :
    (∃ next, d.nextCandidate disabled d.trials.defaultKey [d.trials.defaultKey] = some next) ↔
      ∃ key ∈ d.targets, key ≠ d.trials.defaultKey ∧ disabled key = false := by
  rw [← Option.isSome_iff_exists, nextCandidate_eq_find? d disabled List.mem_cons_self,
    List.find?_isSome]
  constructor
  · rintro ⟨key, hkey, hon⟩
    simp only [List.contains_eq_mem, List.mem_singleton, isEnabled, Bool.and_eq_true,
      Bool.not_eq_true', decide_eq_false_iff_not, Bool.or_eq_true, beq_iff_eq] at hon
    exact ⟨key, hkey, hon.1, hon.2.resolve_left hon.1⟩
  · rintro ⟨key, hkey, hne, hon⟩
    refine ⟨key, hkey, ?_⟩
    simp [isEnabled, hne, hon]

/-- What follows an attempt of the default trial alone: only a failure leads to
another trial. -/
theorem follow_default_eq_inr_iff (d : Definition σ) (disabled : TrialKey → Bool)
    (outcome : AttemptOutcome) :
    (∃ next, d.follow disabled [d.trials.defaultKey] d.trials.defaultKey outcome = .inr next) ↔
      (∃ error, outcome = .failed error) ∧
        ∃ key ∈ d.targets, key ≠ d.trials.defaultKey ∧ disabled key = false := by
  rw [← exists_nextCandidate_default_iff]
  cases outcome with
  | failed error =>
      cases hn : d.nextCandidate disabled d.trials.defaultKey [d.trials.defaultKey] with
      | none => simp [follow, hn]
      | some next => simp [follow, hn]
  | timedOut after =>
      have hnone : d.timeoutCandidate d.trials.defaultKey [d.trials.defaultKey] = none := by
        rw [timeoutCandidate_eq d List.mem_cons_self, if_neg]
        simp
      simp [follow, hnone]
  | success value => simp [follow]
  | cancelled => simp [follow]
  | unresolvable source => simp [follow]
  | pipeline error => simp [follow]

/-- A run of attempts that starts on the default trial stays on it if and only
if no other trial follows, or the invocation has been cancelled by then. -/
theorem attempts_run_replay_default_iff (d : Definition σ) (board : Switchboard σ)
    {attempt : TrialKey → Nat → Program σ AttemptOutcome}
    (ha : ∀ key number, (attempt key number).Plain Note.Inward) (t : Token) (s : Session σ) :
    let tried := (attempt d.trials.defaultKey 1).run t s
    (∀ a ∈ attempts ((d.replay board attempt [] d.trials.defaultKey).run t s).notes,
        a.1 = d.trials.defaultKey) ↔
      ¬ ((∃ next, d.follow (board.trialDisabled tried.session.state d.contract)
          [d.trials.defaultKey] d.trials.defaultKey tried.value = .inr next) ∧
        tried.token.cancelled = false) := by
  intro tried
  cases hf : d.follow (board.trialDisabled tried.session.state d.contract) [d.trials.defaultKey]
      d.trials.defaultKey tried.value with
  | inl result =>
      rw [attempts_run_replay_of_inl ha hf]
      simp
  | inr next =>
      cases hc : tried.token.cancelled with
      | true =>
          rw [attempts_run_replay_of_cancelled ha hc]
          simp
      | false =>
          have hnew : next ∉ [d.trials.defaultKey] := (mem_of_follow_eq_inr hf).2
          have hne : next ≠ d.trials.defaultKey := fun h => hnew (h ▸ List.mem_cons_self)
          obtain ⟨rest, hrest⟩ := d.exists_attempts_run_replay board ha [d.trials.defaultKey] next
            tried.token tried.session
          rw [attempts_run_replay_of_inr ha hf hc]
          constructor
          · intro h
            have hmem : (next, 2) ∈ attempts ((d.replay board attempt [d.trials.defaultKey]
                next).run tried.token tried.session).notes := hrest ▸ List.mem_cons_self
            exact absurd (h _ (List.mem_cons_of_mem _ hmem)) hne
          · intro h
            exact absurd ⟨⟨next, rfl⟩, rfl⟩ h

end Definition

namespace Dispatcher

/-- **When the switch of an experiment keeps its promise**: an invocation of an
experiment that is switched off attempts the default trial first, and attempts
no other trial if and only if it is not the case that the default trial fails,
nobody has cancelled by then, and the list of the error policy has another
trial that is not switched off itself. -/
theorem attempts_of_disabled_experiment_iff (disp : Dispatcher σ) (type : ImplementationType)
    (call : Implementation → Work σ Yield) (ctx : Context) (d : Definition σ)
    (hd : disp.registry.get? ctx.contract = some d) (t : Token) (s : Session σ)
    (hoff : disp.board.experimentDisabled s.state ctx.contract = true) :
    let made := (createDecorators ctx d.decorators).run t s
    let tried := (disp.attempt type call d ctx made.value d.trials.defaultKey 1).run made.token
      made.session
    let r := (disp.invoke type call ctx).run t s
    (attempts r.notes).head? = some (d.trials.defaultKey, 1) ∧
      ((∀ a ∈ attempts r.notes, a.1 = d.trials.defaultKey) ↔
        ¬ ∃ error, tried.value = .failed error ∧ tried.token.cancelled = false ∧
          ∃ key ∈ d.targets, key ≠ d.trials.defaultKey ∧
            disp.board.trialDisabled tried.session.state d.contract key = false) := by
  intro made tried r
  have hplain := fun key number => plain_attempt disp type call d ctx made.value key number
  have hattempts : attempts r.notes = attempts ((d.replay disp.board
      (disp.attempt type call d ctx made.value) [] d.trials.defaultKey).run made.token
        made.session).notes :=
    attempts_run_invoke_of_disabled disp type call ctx hd t s hoff
  rw [hattempts]
  constructor
  · obtain ⟨rest, hrest⟩ := d.exists_attempts_run_replay disp.board hplain [] d.trials.defaultKey
      made.token made.session
    rw [hrest]
    rfl
  · refine (d.attempts_run_replay_default_iff disp.board hplain made.token made.session).trans ?_
    rw [Definition.follow_default_eq_inr_iff]
    apply not_congr
    constructor
    · rintro ⟨⟨⟨error, herror⟩, hkey⟩, hlive⟩
      exact ⟨error, herror, hlive, hkey⟩
    · rintro ⟨error, herror, hlive, hkey⟩
      exact ⟨⟨⟨error, herror⟩, hkey⟩, hlive⟩

/-! ### A broken promise -/

def checkoutTrials : TrialSet where
  trials := [⟨⟨"legacy"⟩, true, ⟨"Legacy"⟩⟩, ⟨⟨"streamlined"⟩, false, ⟨"Streamlined"⟩⟩]
  default := ⟨⟨"legacy"⟩, true, ⟨"Legacy"⟩⟩
  nodup := by decide
  filter_isDefault := by decide

def checkout : Definition KillSwitch where
  contract := ⟨"checkout"⟩
  trials := checkoutTrials
  strategy := .custom "fixed" (fun _ _ => .done (.ok ⟨"streamlined"⟩)) checkoutTrials.keys
  policy := .replayAny
  timeout := none
  decorators := []
  policy_registered := by decide

/-- Serves the checkout, with the word `0` behind its default trial. -/
def checkoutDispatcher : Dispatcher KillSwitch where
  registry := ⟨[checkout], by decide⟩
  resolver := fun _ trial _ => .ok (.word (if trial.isDefault then 0 else 1))
  board := .ofState id
  config := {}

/-- The default trial fails; the other one would not. -/
def checkoutCall : Implementation → Work KillSwitch Yield
  | .word 0 => .done (.failure "legacy down")
  | _ => .done (.output "streamlined")

def checkoutContext : Context :=
  ⟨⟨"checkout"⟩, "pay", ⟨"req-1"⟩, none⟩

/-- The checkout is switched off, and nobody touches the switches again. -/
def checkoutOff : Session KillSwitch :=
  ⟨0, .empty 8, KillSwitch.allOn.apply (.disableExperiment ⟨"checkout"⟩)⟩

/-- The checkout is on, and nothing is kept. -/
def checkoutOn : Session KillSwitch :=
  ⟨0, .empty 8, .allOn⟩

/-- The promise is broken for the checkout: its default trial fails, and its
policy has another trial that is on. -/
theorem attempts_of_disabled_checkout :
    let r := (checkoutDispatcher.invoke .word checkoutCall checkoutContext).run .live checkoutOff
    checkoutDispatcher.registry.get? checkoutContext.contract = some checkout ∧
      checkoutDispatcher.board.experimentDisabled checkoutOff.state checkoutContext.contract = true ∧
      (attempts r.notes).head? = some (⟨"legacy"⟩, 1) ∧
      ¬ ∀ a ∈ attempts r.notes, a.1 = ⟨"legacy"⟩ := by
  obtain ⟨hfirst, hiff⟩ := attempts_of_disabled_experiment_iff checkoutDispatcher .word checkoutCall
    checkoutContext checkout rfl .live checkoutOff (by decide)
  refine ⟨rfl, by decide, hfirst, fun hall => ?_⟩
  exact hiff.mp hall ⟨"legacy down", by decide, by decide, ⟨"streamlined"⟩, by decide, by decide, by decide⟩

/-- An experiment is switched off before, during and after an invocation, and
yet the invocation attempts a trial that is not the default. -/
theorem disabled_experiment_attempts_other_trial :
    let r := (checkoutDispatcher.invoke .word checkoutCall checkoutContext).run .live checkoutOff
    checkoutOff.state.experimentDisabled ⟨"checkout"⟩ = true ∧ r.session.state = checkoutOff.state ∧
      checkout.trials.defaultKey = ⟨"legacy"⟩ ∧
      attempts r.notes = [(⟨"legacy"⟩, 1), (⟨"streamlined"⟩, 2)] ∧
      r.value = .ok "streamlined" := by
  cbv

end Dispatcher

end TrialRouting
