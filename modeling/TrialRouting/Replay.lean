import TrialRouting.Attempt.Outcome
import TrialRouting.Definition
import TrialRouting.KillSwitch

/-!
# TrialRouting.Replay

What follows a failed attempt. After a failure of the trial itself the error policy names the
trials to replay on, and the first of them that was not attempted yet and is not switched off is
the next one; after a timeout it is the default trial, if the settings say so and it was not
attempted yet. Every other failure is final.

`replay` runs an invocation through its attempts. No trial is attempted twice, and only registered
trials are replayed, so the attempts come to an end: the trials that are left become fewer with
each one.
-/

namespace TrialRouting

/-! ## Switches -/

/-- What can be asked about switches in a state. -/
structure Switchboard (σ : Type) where
  experimentDisabled : σ → ContractId → Bool
  trialDisabled : σ → ContractId → TrialKey → Bool

namespace Switchboard

variable {σ : Type}

/-- Nothing is ever switched off. -/
def allOn : Switchboard σ :=
  ⟨fun _ _ => false, fun _ _ _ => false⟩

/-- The switches are a part of the state. -/
def ofState (part : σ → KillSwitch) : Switchboard σ :=
  ⟨fun s => (part s).experimentDisabled, fun s => (part s).trialDisabled⟩

end Switchboard

/-! ## Candidates -/

namespace Definition

variable {σ : Type}

/-- The trials on which the error policy replays after a failure, in this order. -/
def replayOrder (d : Definition σ) (failed : TrialKey) : List TrialKey :=
  match d.policy with
  | .throw => []
  | .replayDefault => if failed = d.trials.defaultKey then [] else [d.trials.defaultKey]
  | .replayAny => d.trials.keys
  | .replay key => [key]
  | .replayOrdered keys => keys

theorem mem_keys_of_mem_replayOrder {d : Definition σ} {failed key : TrialKey}
    (h : key ∈ d.replayOrder failed) : key ∈ d.trials.keys := by
  unfold replayOrder at h
  split at h
  · simp at h
  · split at h
    · simp at h
    · simp only [List.mem_cons, List.not_mem_nil, or_false] at h
      exact h ▸ d.trials.defaultKey_mem_keys
  · exact h
  · rename_i heq
    exact d.policy_registered _ (by simpa [heq, ErrorPolicy.referencedKeys] using h)
  · rename_i heq
    exact d.policy_registered _ (by simpa [heq, ErrorPolicy.referencedKeys] using h)

/-- The default trial is always on. -/
def isEnabled (d : Definition σ) (disabled : TrialKey → Bool) (key : TrialKey) : Bool :=
  key == d.trials.defaultKey || !disabled key

/-- The trial to replay on after a failure, with switches that stand still. -/
def nextCandidate (d : Definition σ) (disabled : TrialKey → Bool) (failed : TrialKey)
    (attempted : List TrialKey) : Option TrialKey :=
  (d.replayOrder failed).find? fun key => !attempted.contains key && d.isEnabled disabled key

/-- The trial to fall back to after a timeout. -/
def timeoutCandidate (d : Definition σ) (timedOut : TrialKey) (attempted : List TrialKey) :
    Option TrialKey :=
  let default := d.trials.defaultKey
  match d.timeout with
  | some ⟨_, .fallbackToDefault⟩ =>
    if timedOut ≠ default ∧ default ∉ attempted then some default else none
  | _ => none

theorem eq_defaultKey_of_timeoutCandidate {d : Definition σ} {timedOut next : TrialKey}
    {attempted : List TrialKey} (h : d.timeoutCandidate timedOut attempted = some next) :
    next = d.trials.defaultKey ∧ next ∉ attempted := by
  simp only [timeoutCandidate] at h
  split at h
  · split at h
    · rename_i hc
      cases h
      exact ⟨rfl, hc.2⟩
    · cases h
  · cases h

/-- The error of an invocation that no trial is left for. -/
def exhausted (d : Definition σ) (trial : TrialKey) (attempted : List TrialKey) (error : String) :
    DispatchError :=
  if d.policy.reportsExhaustion ∧ 1 < attempted.length then .fallbackExhausted attempted error
  else .failed trial error

/-! ## Choosing -/

/-- Asks the switches about one trial after the other until one is on. -/
def firstEnabled (d : Definition σ) (board : Switchboard σ) :
    (keys : List TrialKey) → Program σ (Option { key // key ∈ keys })
  | [] => .done none
  | key :: keys =>
    let rest : Program σ (Option { k // k ∈ key :: keys }) :=
      (firstEnabled d board keys).bind fun found =>
        .done (found.map fun k => ⟨k.1, List.mem_cons_of_mem _ k.2⟩)
    if key = d.trials.defaultKey then .done (some ⟨key, List.mem_cons_self⟩)
    else
      (Program.view fun s => board.trialDisabled s d.contract key).bind fun
        | true => rest
        | false => .done (some ⟨key, List.mem_cons_self⟩)

/-- The trials of the policy that have not been attempted. -/
def untried (d : Definition σ) (failed : TrialKey) (attempted : List TrialKey) : List TrialKey :=
  (d.replayOrder failed).filter fun key => !attempted.contains key

/-- How many registered trials have not been attempted. -/
def unattempted (d : Definition σ) (attempted : List TrialKey) : Nat :=
  (d.trials.keys.filter fun key => !attempted.contains key).length

theorem unattempted_append_lt {d : Definition σ} {attempted : List TrialKey} {key : TrialKey}
    (hk : key ∈ d.trials.keys) (hn : key ∉ attempted) :
    d.unattempted (attempted ++ [key]) < d.unattempted attempted := by
  have sub : (d.trials.keys.filter fun k => !(attempted ++ [key]).contains k)
      = (d.trials.keys.filter fun k => !attempted.contains k).filter fun k => k != key := by
    rw [List.filter_filter]
    refine List.filter_congr fun k _ => ?_
    rw [Bool.eq_iff_iff]
    simp [and_comm]
  unfold unattempted
  rw [sub]
  have hmem : key ∈ d.trials.keys.filter fun k => !attempted.contains k := by
    simp [hk, hn]
  exact List.length_filter_lt_length_iff_exists.2 ⟨key, hmem, by simp⟩

theorem nextCandidate_mem {d : Definition σ} {disabled : TrialKey → Bool} {failed next : TrialKey}
    {attempted : List TrialKey} (h : d.nextCandidate disabled failed attempted = some next) :
    next ∈ d.trials.keys ∧ next ∉ attempted := by
  have hp := List.find?_some h
  simp only [Bool.and_eq_true, Bool.not_eq_true', List.contains_eq_mem, decide_eq_false_iff_not]
    at hp
  exact ⟨mem_keys_of_mem_replayOrder (List.mem_of_find?_eq_some h), hp.1⟩

/-- The trials that are attempted one after the other when every one of them fails, with switches
that stand still; the first argument are those before. -/
def failurePath (d : Definition σ) (disabled : TrialKey → Bool) (before : List TrialKey)
    (current : TrialKey) : List TrialKey :=
  let attempted := before ++ [current]
  match _h : d.nextCandidate disabled current attempted with
  | none => attempted
  | some next => failurePath d disabled attempted next
termination_by d.unattempted (before ++ [current])
decreasing_by
  exact unattempted_append_lt (nextCandidate_mem _h).1 (nextCandidate_mem _h).2

/-! ## Attempts in a row -/

/-- Goes on to another trial, unless the invocation has been cancelled meanwhile. -/
def onward (d : Definition σ) (attempted : List TrialKey) (current next : TrialKey)
    (rest : Program σ (Except DispatchError String)) : Program σ (Except DispatchError String) :=
  .cancelled fun
    | true => .done (.error (.cancelled (some current)))
    | false =>
      .note (.event (.replaying d.contract d.policy.name current (attempted.length + 1) next)) <|
      .note (.telemetry (.fallback next)) rest

/-- Attempts a trial after those that were attempted before, and replays as long as the error
policy and the timeout settings offer a trial. -/
def replay (d : Definition σ) (board : Switchboard σ)
    (attempt : TrialKey → Nat → Program σ AttemptOutcome)
    (before : List TrialKey) (current : TrialKey) : Program σ (Except DispatchError String) :=
  let attempted := before ++ [current]
  .note (.attempting current attempted.length) <|
  (attempt current attempted.length).bind fun
    | .success value => .done (.ok value)
    | .failed error =>
      (d.firstEnabled board (d.untried current attempted)).bind fun
        | none => .done (.error (d.exhausted current attempted error))
        | some next => d.onward attempted current next.1 (replay d board attempt attempted next.1)
    | .timedOut after =>
      match _h : d.timeoutCandidate current attempted with
      | none => .done (.error (.timedOut current after))
      | some next => d.onward attempted current next (replay d board attempt attempted next)
    | .cancelled => .done (.error (.cancelled (some current)))
    | .unresolvable source => .done (.error (.implementationUnavailable d.contract current source))
    | .pipeline error => .done (.error (.pipeline current error))
termination_by d.unattempted (before ++ [current])
decreasing_by
  · obtain ⟨next, hnext⟩ := next
    rw [untried, List.mem_filter] at hnext
    have hn : next ∉ attempted := by simpa using hnext.2
    exact unattempted_append_lt (mem_keys_of_mem_replayOrder hnext.1) hn
  · obtain ⟨rfl, hn⟩ := eq_defaultKey_of_timeoutCandidate _h
    exact unattempted_append_lt d.trials.defaultKey_mem_keys hn

end Definition

end TrialRouting
