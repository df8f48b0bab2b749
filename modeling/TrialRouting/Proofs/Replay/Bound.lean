import Mathlib.Data.List.Perm.Subperm
import TrialRouting.Proofs.Replay.Queue
import TrialRouting.Proofs.Replay.Turns

/-!
# TrialRouting.Proofs.Replay.Bound

How many attempts an invocation makes.  `Definition.replay` ends by its
definition, which carries a measure from one attempt to the next; here nothing
is carried.  `Definition.rounds` goes round as often as it is told and then
does whatever it is told instead, and `rounds_eq_replay` says when it never
gets that far.  `replay_bounded` puts together what holds of the attempts while
the switches answer as they like: they end in time, no trial is attempted
twice, and all but the first are registered trials.
-/

namespace TrialRouting

namespace Definition

variable {σ : Type}

/-! ## Rounds that are counted -/

/-- Goes round from attempt to attempt, at most the given number of times, and then does `stop`. -/
def rounds (d : Definition σ) (board : Switchboard σ)
    (attempt : TrialKey → Nat → Program σ AttemptOutcome)
    (stop : Program σ (Except DispatchError String)) :
    Nat → List TrialKey → TrialKey → Program σ (Except DispatchError String)
  | 0, _, _ => stop
  | n + 1, before, current =>
    let attempted := before ++ [current]
    .note (.attempting current attempted.length) <|
    (attempt current attempted.length).bind fun outcome =>
    (d.choose board attempted current outcome).bind fun
      | .inl result => .done result
      | .inr next =>
        d.onward attempted current next (d.rounds board attempt stop n attempted next)

/-- As each round attempts one more of the registered trials, more rounds than there are trials
left are never needed. -/
theorem rounds_eq_replay (d : Definition σ) (board : Switchboard σ)
    (attempt : TrialKey → Nat → Program σ AttemptOutcome)
    (stop : Program σ (Except DispatchError String)) {n : Nat} {before : List TrialKey}
    {current : TrialKey} (hn : d.unattempted (before ++ [current]) < n) :
    d.rounds board attempt stop n before current = d.replay board attempt before current := by
  induction n generalizing before current with
  | zero => exact absurd hn (Nat.not_lt_zero _)
  | succ n ih =>
      rw [rounds, replay_eq]
      refine congrArg (fun f => Program.note _ (Program.bind _ f)) (funext fun outcome => ?_)
      refine Program.bind_congr fun h chosen hchosen => ?_
      cases chosen with
      | inl result => rfl
      | inr next =>
          obtain ⟨hkey, hnew⟩ := mem_of_choose hchosen
          have hless := unattempted_append_lt hkey hnew
          exact congrArg (d.onward _ current next) (ih (by omega))

/-! ## The bound -/

/-- The number of attempts that an invocation may make whose first trial is given. -/
def mostAttempts (d : Definition σ) (first : TrialKey) : Nat :=
  if first ∈ d.trials.keys then d.trials.size else d.trials.size + 1

theorem unattempted_nil (d : Definition σ) : d.unattempted [] = d.trials.size := by
  simp [unattempted, TrialSet.keys, TrialSet.size]

theorem unattempted_first_lt (d : Definition σ) (first : TrialKey) :
    d.unattempted [first] < d.mostAttempts first := by
  rw [mostAttempts]
  split
  · next hfirst =>
      rw [← unattempted_nil d]
      exact unattempted_append_lt hfirst List.not_mem_nil
  · have hle : d.unattempted [first] ≤ d.trials.keys.length := List.length_filter_le _ _
    rw [TrialSet.keys, List.length_map] at hle
    exact Nat.lt_succ_of_le hle

theorem length_le_size {d : Definition σ} {keys : List TrialKey} (hnodup : keys.Nodup)
    (hkeys : ∀ key ∈ keys, key ∈ d.trials.keys) : keys.length ≤ d.trials.size := by
  have hle := (List.subperm_of_subset hnodup hkeys).length_le
  rwa [TrialSet.keys, List.length_map] at hle

theorem length_le_mostAttempts {d : Definition σ} {first : TrialKey} {later : List TrialKey}
    (hnodup : (first :: later).Nodup) (hlater : ∀ key ∈ later, key ∈ d.trials.keys) :
    (first :: later).length ≤ d.mostAttempts first := by
  rw [mostAttempts]
  split
  · next hfirst => exact length_le_size hnodup (List.forall_mem_cons.mpr ⟨hfirst, hlater⟩)
  · exact Nat.succ_le_succ (length_le_size hnodup.of_cons hlater)

/-- **Attempts come to an end**, whatever their outcomes are and however the switches answer at
each single look.  After `mostAttempts` rounds at most the invocation has its result.  It attempts
the given trial and then other registered ones, none of them twice, and numbers its attempts from
one on. -/
theorem replay_bounded (d : Definition σ) (board : Switchboard σ)
    (attempt : TrialKey → Nat → Program σ AttemptOutcome)
    (hsilent : ∀ key number h outcome, (attempt key number).Unfolds h outcome →
      attempts h.notes = []) (first : TrialKey) :
    (∀ stop, d.rounds board attempt stop (d.mostAttempts first) [] first =
      d.replay board attempt [] first) ∧
    ∀ h result, (d.replay board attempt [] first).Unfolds h result →
      ∃ later, attempts h.notes = (first :: later).zipIdx 1 ∧ (first :: later).Nodup ∧
        (∀ key ∈ later, key ∈ d.trials.keys) ∧
        (first :: later).length ≤ d.mostAttempts first := by
  constructor
  · intro stop
    exact d.rounds_eq_replay board attempt stop (d.unattempted_first_lt first)
  · intro h result hu
    obtain ⟨later, hturns⟩ := turns_of_unfolds hu
    have hnodup : (first :: later).Nodup := hturns.nodup (List.nodup_singleton first)
    exact ⟨later, hturns.attempts hsilent, hnodup, hturns.registered,
      length_le_mostAttempts hnodup hturns.registered⟩

/-! ### Switches that flicker -/

/-- Replays on `b` alone, but names it twice. -/
def insistent : Definition Bool where
  contract := ⟨"pricing"⟩
  trials := pricingTrials
  strategy := .custom "fixed" (fun _ _ => .done (.ok ⟨"a"⟩)) pricingTrials.keys
  policy := .replayOrdered [⟨"b"⟩, ⟨"b"⟩]
  timeout := none
  decorators := []
  policy_registered := by decide

/-- Says of every trial that it is off, or of none, as the state is at that moment. -/
def flickering : Switchboard Bool :=
  ⟨fun _ _ => false, fun off _ _ => off⟩

def insistentAttempt (key : TrialKey) (_ : Nat) : Program Bool AttemptOutcome :=
  .done (.failed key.text)

/-- The trial `b` is found off at the first look and on at the second. -/
def flickeringHistory : History Bool :=
  [.noted (.attempting ⟨"a"⟩ 1), .acted id true, .acted id false, .asked false,
    .noted (.event (.replaying ⟨"pricing"⟩ "redirect_and_replay_ordered" ⟨"a"⟩ 2 ⟨"b"⟩)),
    .noted (.telemetry (.fallback ⟨"b"⟩)), .noted (.attempting ⟨"b"⟩ 2)]

theorem unfolds_flickeringHistory :
    (insistent.replay flickering insistentAttempt [] ⟨"a"⟩).Unfolds flickeringHistory
      (.error (.fallbackExhausted [⟨"a"⟩, ⟨"b"⟩] "b")) := by
  rw [replay_eq]
  refine .note _ (.act id true (.act id false (.cancelled false (.note _ (.note _ ?_)))))
  rw [replay_eq]
  exact .note _ (.done _)

theorem replay_bounded_insistent :
    (∀ key number h outcome, (insistentAttempt key number).Unfolds h outcome →
      attempts h.notes = []) ∧
    (insistent.replay flickering insistentAttempt [] ⟨"a"⟩).Unfolds flickeringHistory
      (.error (.fallbackExhausted [⟨"a"⟩, ⟨"b"⟩] "b")) ∧
    ∃ later, attempts flickeringHistory.notes = (⟨"a"⟩ :: later).zipIdx 1 ∧
      (⟨"a"⟩ :: later).length ≤ 5 := by
  have hsilent : ∀ key number h outcome, (insistentAttempt key number).Unfolds h outcome →
      attempts h.notes = [] := by
    intro key number h outcome hu
    obtain ⟨rfl, _⟩ := Program.unfolds_done_iff.mp hu
    rfl
  obtain ⟨_, hbounded⟩ := replay_bounded insistent flickering insistentAttempt hsilent ⟨"a"⟩
  obtain ⟨later, hattempts, _, _, hlength⟩ := hbounded _ _ unfolds_flickeringHistory
  exact ⟨hsilent, unfolds_flickeringHistory, later, hattempts, hlength.trans (by decide)⟩

end Definition

end TrialRouting
