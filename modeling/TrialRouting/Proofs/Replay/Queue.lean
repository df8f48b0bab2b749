import Mathlib.Data.List.Permutation
import TrialRouting.Proofs.Replay

/-!
# TrialRouting.Proofs.Replay.Queue

Replays as a queue.  `Definition.replay` looks for its next trial from the
start of the policy's list each time, among the trials not attempted yet.  As
long as nobody operates the switches or cancels, this is a queue that is made
once, before the first attempt (`Definition.queue`), and only ever loses trials:

* after a failure the head of the queue is attempted next;
* after a timeout the default trial is, and leaves the queue, if the experiment
  falls back to it and it was not attempted yet;
* everything else ends the invocation.

`Definition.runQueue` is this machine.  It ends because each attempt takes a
trial from the queue or is the one fallback to the default (`advance_smaller`).
`replay_eq_runQueue` states that both make the same attempts, with the same
result and the same effects.
-/

namespace TrialRouting

/-! ## Lists without duplicates -/

theorem find?_eraseDups {α : Type} [BEq α] [LawfulBEq α] (p : α → Bool) (l : List α) :
    l.eraseDups.find? p = l.find? p := by
  match l with
  | [] => rfl
  | a :: l =>
      rw [List.eraseDups_cons]
      cases hp : p a with
      | true => simp [hp]
      | false =>
          have hrest : (fun b => decide ((!b == a) = true ∧ p b = true)) = p := by
            funext b
            by_cases hb : b = a
            · simp [hb, hp]
            · simp [hb]
          rw [List.find?_cons, List.find?_cons, hp, find?_eraseDups p, List.find?_filter, hrest]
termination_by l.length
decreasing_by exact Nat.lt_succ_of_le (List.length_filter_le _ _)

theorem nodup_eraseDups {α : Type} [BEq α] [LawfulBEq α] (l : List α) : l.eraseDups.Nodup := by
  match l with
  | [] => exact List.nodup_nil
  | a :: l =>
      rw [List.eraseDups_cons, List.nodup_cons]
      refine ⟨fun h => ?_, nodup_eraseDups _⟩
      rw [List.mem_eraseDups, List.mem_filter] at h
      simp at h
termination_by l.length
decreasing_by exact Nat.lt_succ_of_le (List.length_filter_le _ _)

namespace Definition

variable {σ S : Type}

/-! ## The machine -/

/-- The list of trials that the error policy stands for. -/
def targets (d : Definition σ) : List TrialKey :=
  match d.policy with
  | .throw => []
  | .replayDefault => [d.trials.defaultKey]
  | .replayAny => d.trials.keys
  | .replay key => [key]
  | .replayOrdered keys => keys

/-- The queue with which an invocation starts: the list of the policy without
duplicates, the first trial, and the trials that are switched off.  The default
trial is never off. -/
def queue (d : Definition σ) (disabled : TrialKey → Bool) (first : TrialKey) : List TrialKey :=
  d.targets.eraseDups.filter fun key =>
    key != first && (key == d.trials.defaultKey || !disabled key)

/-- Whether a timeout falls back to the default trial. -/
def fallsBack (d : Definition σ) : Bool :=
  match d.timeout with
  | some settings => settings.onTimeout == .fallbackToDefault
  | none => false

/-- The error of a failure after which the queue is empty: policies with a list
name all attempted trials, once there are several. -/
def lastFailure (d : Definition σ) (attempted : List TrialKey) (current : TrialKey)
    (error : String) : DispatchError :=
  match d.policy, attempted with
  | .replayAny, _ :: _ :: _ => .fallbackExhausted attempted error
  | .replayOrdered _, _ :: _ :: _ => .fallbackExhausted attempted error
  | _, _ => .failed current error

/-- What the machine does after an attempt: it stops with a result, or goes on
to a trial with what is left of its queue. -/
def advance (d : Definition σ) (queue attempted : List TrialKey) (current : TrialKey) :
    AttemptOutcome → Except DispatchError String ⊕ (TrialKey × List TrialKey)
  | .success value => .inl (.ok value)
  | .failed error =>
    match queue with
    | [] => .inl (.error (d.lastFailure attempted current error))
    | next :: queue => .inr (next, queue)
  | .timedOut after =>
    if d.fallsBack ∧ d.trials.defaultKey ∉ attempted then
      .inr (d.trials.defaultKey, queue.erase d.trials.defaultKey)
    else .inl (.error (.timedOut current after))
  | .cancelled => .inl (.error (.cancelled (some current)))
  | .unresolvable source => .inl (.error (.implementationUnavailable d.contract current source))
  | .pipeline error => .inl (.error (.pipeline current error))

/-- What bounds the attempts to come: the trials in the queue, and the default
trial as long as a timeout may fall back to it. -/
def toCome (d : Definition σ) (queue attempted : List TrialKey) : Nat :=
  queue.length + if d.trials.defaultKey ∈ attempted then 0 else 1

theorem advance_smaller {d : Definition σ} {queue queue' attempted : List TrialKey}
    {current next : TrialKey} {outcome : AttemptOutcome}
    (h : d.advance queue attempted current outcome = .inr (next, queue')) :
    d.toCome queue' (attempted ++ [next]) < d.toCome queue attempted := by
  have hgrow : (if d.trials.defaultKey ∈ attempted ++ [next] then 0 else 1) ≤
      if d.trials.defaultKey ∈ attempted then 0 else 1 := by
    by_cases hd : d.trials.defaultKey ∈ attempted
    · simp [hd]
    · rw [if_neg hd]
      split <;> omega
  cases outcome with
  | failed error =>
      cases queue with
      | nil => cases h
      | cons key queue =>
          cases h
          simp only [toCome, List.length_cons]
          omega
  | timedOut after =>
      simp only [advance] at h
      split at h
      · next hd =>
          cases h
          have hlen := List.length_erase_le (a := d.trials.defaultKey) (l := queue)
          simp only [toCome, hd.2, List.mem_append, List.mem_cons, true_or, or_true, if_true,
            if_false]
          omega
      · cases h
  | success value => cases h
  | cancelled => cases h
  | unresolvable source => cases h
  | pipeline error => cases h

/-- What an invocation has done: its attempts with their numbers, its result,
and the state it leaves. -/
structure Served (S : Type) where
  attempts : List (TrialKey × Nat)
  result : Except DispatchError String
  state : S

/-- Attempts the current trial after those attempted before, and goes on as
`advance` says.  `trial` is what an attempt of a given number does to the state. -/
def runQueue (d : Definition σ) (trial : TrialKey → Nat → S → AttemptOutcome × S)
    (queue before : List TrialKey) (current : TrialKey) (s : S) : Served S :=
  let attempted := before ++ [current]
  let ended := trial current attempted.length s
  match _h : d.advance queue attempted current ended.1 with
  | .inl result => ⟨[(current, attempted.length)], result, ended.2⟩
  | .inr (next, queue') =>
    let served := runQueue d trial queue' attempted next ended.2
    { served with attempts := (current, attempted.length) :: served.attempts }
termination_by d.toCome queue (before ++ [current])
decreasing_by exact advance_smaller _h

theorem runQueue_of_inl {d : Definition σ} {trial : TrialKey → Nat → S → AttemptOutcome × S}
    {queue before : List TrialKey} {current : TrialKey} {s : S}
    {result : Except DispatchError String}
    (h : d.advance queue (before ++ [current]) current
      (trial current (before ++ [current]).length s).1 = .inl result) :
    d.runQueue trial queue before current s =
      ⟨[(current, (before ++ [current]).length)], result,
        (trial current (before ++ [current]).length s).2⟩ := by
  rw [runQueue]
  split
  · next h' =>
      rw [h] at h'
      cases h'
      rfl
  · next h' =>
      rw [h] at h'
      cases h'

theorem runQueue_of_inr {d : Definition σ} {trial : TrialKey → Nat → S → AttemptOutcome × S}
    {queue queue' before : List TrialKey} {current next : TrialKey} {s : S}
    (h : d.advance queue (before ++ [current]) current
      (trial current (before ++ [current]).length s).1 = .inr (next, queue')) :
    d.runQueue trial queue before current s =
      let served := d.runQueue trial queue' (before ++ [current]) next
        (trial current (before ++ [current]).length s).2
      { served with
        attempts := (current, (before ++ [current]).length) :: served.attempts } := by
  rw [runQueue]
  split
  · next h' =>
      rw [h] at h'
      cases h'
  · next h' =>
      rw [h] at h'
      cases h'
      rfl

/-! ## The queue and the rescanned list -/

/-- What a queue holds once some trials were attempted. -/
def queued (d : Definition σ) (disabled : TrialKey → Bool) (attempted : List TrialKey) :
    List TrialKey :=
  d.targets.eraseDups.filter fun key => !attempted.contains key && d.isEnabled disabled key

theorem queue_eq_queued (d : Definition σ) (disabled : TrialKey → Bool) (first : TrialKey) :
    d.queue disabled first = d.queued disabled [first] := by
  unfold queue queued
  congr 1
  funext key
  have hone : [first].contains key = (key == first) := by
    rw [Bool.eq_iff_iff]
    simp
  rw [hone]
  rfl

theorem nodup_queued (d : Definition σ) (disabled : TrialKey → Bool)
    (attempted : List TrialKey) : (d.queued disabled attempted).Nodup :=
  (nodup_eraseDups d.targets).filter _

/-- An attempted trial leaves the queue. -/
theorem queued_append (d : Definition σ) (disabled : TrialKey → Bool)
    (attempted : List TrialKey) (key : TrialKey) :
    d.queued disabled (attempted ++ [key]) = (d.queued disabled attempted).erase key := by
  rw [(nodup_queued d disabled attempted).erase_eq_filter, queued, queued, List.filter_filter]
  congr 1
  funext k
  rw [Bool.eq_iff_iff]
  simp only [List.contains_eq_mem, List.mem_append, List.mem_singleton, Bool.and_eq_true,
    Bool.not_eq_true', decide_eq_false_iff_not, not_or, bne_iff_ne, ne_eq]
  constructor
  · rintro ⟨⟨hk, hkey⟩, hon⟩
    exact ⟨hkey, hk, hon⟩
  · rintro ⟨hkey, hk, hon⟩
    exact ⟨⟨hk, hkey⟩, hon⟩

/-- The trials that are left are those of the policy's list that were not attempted. -/
theorem untried_eq (d : Definition σ) {failed : TrialKey} {attempted : List TrialKey}
    (hf : failed ∈ attempted) :
    d.untried failed attempted = d.targets.filter fun key => !attempted.contains key := by
  unfold untried replayOrder targets
  cases d.policy with
  | replayDefault =>
      dsimp only
      split
      · next hd => simp [← hd, hf]
      · rfl
  | throw => rfl
  | replayAny => rfl
  | replay key => rfl
  | replayOrdered keys => rfl

/-- The next candidate is the first trial of the policy's list that is new and on. -/
theorem nextCandidate_eq_find? (d : Definition σ) (disabled : TrialKey → Bool)
    {failed : TrialKey} {attempted : List TrialKey} (hf : failed ∈ attempted) :
    d.nextCandidate disabled failed attempted =
      d.targets.find? fun key => !attempted.contains key && d.isEnabled disabled key := by
  rw [← find?_untried, untried_eq d hf, List.find?_filter]
  simp

/-- The next candidate is the head of the queue. -/
theorem nextCandidate_eq_head? (d : Definition σ) (disabled : TrialKey → Bool)
    {failed : TrialKey} {attempted : List TrialKey} (hf : failed ∈ attempted) :
    d.nextCandidate disabled failed attempted = (d.queued disabled attempted).head? := by
  rw [queued, List.head?_filter, find?_eraseDups, nextCandidate_eq_find? d disabled hf]

/-- The fallback after a timeout is what the machine makes of it. -/
theorem timeoutCandidate_eq (d : Definition σ) {timedOut : TrialKey} {attempted : List TrialKey}
    (ht : timedOut ∈ attempted) :
    d.timeoutCandidate timedOut attempted =
      if d.fallsBack ∧ d.trials.defaultKey ∉ attempted then some d.trials.defaultKey else none := by
  have hne : d.trials.defaultKey ∉ attempted → timedOut ≠ d.trials.defaultKey := by
    rintro hd rfl
    exact hd ht
  unfold timeoutCandidate fallsBack
  cases htime : d.timeout with
  | none => simp
  | some settings =>
      obtain ⟨after, onTimeout⟩ := settings
      cases onTimeout with
      | fail => simp
      | fallbackToDefault =>
          by_cases hd : d.trials.defaultKey ∈ attempted
          · simp [hd]
          · simp [hd, hne hd]

theorem exhausted_eq_lastFailure (d : Definition σ) (current : TrialKey)
    (attempted : List TrialKey) (error : String) :
    d.exhausted current attempted error = d.lastFailure attempted current error := by
  unfold exhausted lastFailure
  cases hp : d.policy <;> cases attempted with
  | nil => simp [ErrorPolicy.reportsExhaustion]
  | cons a as => cases as <;> simp [ErrorPolicy.reportsExhaustion]

/-- With the queue in step, the machine goes on as the rescan does. -/
theorem follow_eq_advance (d : Definition σ) (disabled : TrialKey → Bool)
    {attempted : List TrialKey} {current : TrialKey} (hc : current ∈ attempted)
    (outcome : AttemptOutcome) :
    d.follow disabled attempted current outcome =
      (d.advance (d.queued disabled attempted) attempted current outcome).map id Prod.fst := by
  cases outcome with
  | failed error =>
      rw [follow, nextCandidate_eq_head? d disabled hc, exhausted_eq_lastFailure]
      cases d.queued disabled attempted <;> rfl
  | timedOut after =>
      simp only [follow, timeoutCandidate_eq d hc, advance]
      by_cases hd : d.fallsBack ∧ d.trials.defaultKey ∉ attempted
      · rw [if_pos hd, if_pos hd]
        rfl
      · rw [if_neg hd, if_neg hd]
        rfl
  | success value => rfl
  | cancelled => rfl
  | unresolvable source => rfl
  | pipeline error => rfl

/-- The queue stays in step. -/
theorem queued_of_advance {d : Definition σ} {disabled : TrialKey → Bool}
    {attempted queue' : List TrialKey} {current next : TrialKey} {outcome : AttemptOutcome}
    (h : d.advance (d.queued disabled attempted) attempted current outcome = .inr (next, queue')) :
    queue' = d.queued disabled (attempted ++ [next]) := by
  rw [queued_append]
  cases outcome with
  | failed error =>
      generalize d.queued disabled attempted = queue at h ⊢
      cases queue with
      | nil => cases h
      | cons key queue =>
          cases h
          rw [List.erase_cons_head]
  | timedOut after =>
      simp only [advance] at h
      split at h
      · cases h
        rfl
      · cases h
  | success value => cases h
  | cancelled => cases h
  | unresolvable source => cases h
  | pipeline error => cases h

/-! ## Undisturbed invocations -/

/-- Attempts that are not disturbed: `I` holds of token and session between
any two of them, and where it holds nobody has cancelled and the switches of
the contract stand as `disabled` says.  Attempts do not announce attempts. -/
structure Undisturbed (d : Definition σ) (board : Switchboard σ)
    (attempt : TrialKey → Nat → Program σ AttemptOutcome) (disabled : TrialKey → Bool)
    (I : Token → Session σ → Prop) : Prop where
  live : ∀ t s, I t s → t.cancelled = false
  switches : ∀ t s, I t s → ∀ key, board.trialDisabled s.state d.contract key = disabled key
  kept : ∀ key number t s, I t s →
    I ((attempt key number).run t s).token ((attempt key number).run t s).session
  silent : ∀ key number t s, attempts ((attempt key number).run t s).notes = []

/-- What an attempt does to token and session. -/
def running (attempt : TrialKey → Nat → Program σ AttemptOutcome) (key : TrialKey)
    (number : Nat) (s : Token × Session σ) : AttemptOutcome × (Token × Session σ) :=
  let r := (attempt key number).run s.1 s.2
  (r.value, (r.token, r.session))

/-- The run of replays from any point on, with the queue as it is at that point. -/
theorem run_replay_eq_runQueue {d : Definition σ} {board : Switchboard σ}
    {attempt : TrialKey → Nat → Program σ AttemptOutcome} {disabled : TrialKey → Bool}
    {I : Token → Session σ → Prop} (hu : d.Undisturbed board attempt disabled I)
    (before : List TrialKey) (current : TrialKey) (t : Token) (s : Session σ) (h : I t s) :
    let r := (d.replay board attempt before current).run t s
    let q := d.runQueue (running attempt) (d.queued disabled (before ++ [current])) before current
      (t, s)
    attempts r.notes = q.attempts ∧ r.value = q.result ∧ (r.token, r.session) = q.state := by
  have hmem : current ∈ before ++ [current] := by simp
  have hI := hu.kept current (before ++ [current]).length t s h
  have hlive := hu.live _ _ hI
  have hswitches := funext (hu.switches _ _ hI)
  have hsilent := hu.silent current (before ++ [current]).length t s
  have hfollow := d.follow_eq_advance disabled hmem
    ((attempt current (before ++ [current]).length).run t s).value
  cases hadv : d.advance (d.queued disabled (before ++ [current])) (before ++ [current]) current
      ((attempt current (before ++ [current]).length).run t s).value with
  | inl result =>
      -- the machine stops, and so does the rescan
      rw [hadv, Sum.map_inl] at hfollow
      rw [run_replay, runQueue_of_inl hadv]
      simp only [hswitches, hfollow]
      exact ⟨by rw [attempts_attempting, hsilent], rfl, rfl⟩
  | inr found =>
      obtain ⟨next, queue'⟩ := found
      have hqueue := queued_of_advance hadv
      subst hqueue
      obtain ⟨hattempts, hvalue, hstate⟩ :=
        run_replay_eq_runQueue hu (before ++ [current]) next _ _ hI
      rw [hadv, Sum.map_inr] at hfollow
      rw [run_replay, runQueue_of_inr hadv]
      simp only [hswitches, hfollow, hlive, Bool.false_eq_true, if_false]
      refine ⟨?_, hvalue, hstate⟩
      rw [attempts_append, attempts_append, attempts_attempting, hsilent, attempts_onwardNotes,
        hattempts]
      rfl
termination_by d.toCome (d.queued disabled (before ++ [current])) (before ++ [current])
decreasing_by
  rw [← queued_of_advance hadv]
  exact advance_smaller hadv

/-- **The queue machine**: an undisturbed invocation makes the attempts of the
machine, ends with its result, and leaves what it leaves. -/
theorem replay_eq_runQueue (d : Definition σ) (board : Switchboard σ)
    (attempt : TrialKey → Nat → Program σ AttemptOutcome) (disabled : TrialKey → Bool)
    (I : Token → Session σ → Prop) (hu : d.Undisturbed board attempt disabled I)
    (first : TrialKey) (t : Token) (s : Session σ) (h : I t s) :
    let r := (d.replay board attempt [] first).run t s
    let q := d.runQueue (running attempt) (d.queue disabled first) [] first (t, s)
    attempts r.notes = q.attempts ∧ r.value = q.result ∧ (r.token, r.session) = q.state := by
  rw [queue_eq_queued]
  exact run_replay_eq_runQueue hu [] first t s h

/-! ### An invocation with all kinds of turns -/

/-- Five trials, of which `control` is the default. -/
def pricingTrials : TrialSet where
  trials := [⟨⟨"a"⟩, false, ⟨"A"⟩⟩, ⟨⟨"control"⟩, true, ⟨"Control"⟩⟩, ⟨⟨"b"⟩, false, ⟨"B"⟩⟩,
    ⟨⟨"c"⟩, false, ⟨"C"⟩⟩, ⟨⟨"d"⟩, false, ⟨"D"⟩⟩]
  default := ⟨⟨"control"⟩, true, ⟨"Control"⟩⟩
  nodup := by decide
  filter_isDefault := by decide

/-- Replays in an order that names `b` twice, and falls back after timeouts. -/
def pricing : Definition Unit where
  contract := ⟨"pricing"⟩
  trials := pricingTrials
  strategy := .custom "fixed" (fun _ _ => .done (.ok ⟨"a"⟩)) pricingTrials.keys
  policy := .replayOrdered [⟨"b"⟩, ⟨"a"⟩, ⟨"b"⟩, ⟨"c"⟩, ⟨"d"⟩]
  timeout := some ⟨.zero, .fallbackToDefault⟩
  decorators := []
  policy_registered := by decide

/-- Every trial fails, except that `b` uses up its budget. -/
def pricingAttempt (key : TrialKey) (_ : Nat) : Program Unit AttemptOutcome :=
  .done (if key = ⟨"b"⟩ then .timedOut .zero else .failed key.text)

/-- The trial `c` is switched off, all the time. -/
def pricingBoard : Switchboard Unit :=
  ⟨fun _ _ => false, fun _ _ key => key == ⟨"c"⟩⟩

theorem undisturbed_pricing :
    pricing.Undisturbed pricingBoard pricingAttempt (· == ⟨"c"⟩) fun t _ => t.cancelled = false where
  live _ _ h := h
  switches _ _ _ _ := rfl
  kept _ _ _ _ h := h
  silent _ _ _ _ := rfl

/-- The failure of `a` leads to `b`, the timeout of `b` to the default trial,
which the list does not name, and its failure back to the list, past `c`. -/
theorem replay_eq_runQueue_pricing :
    let r := (pricing.replay pricingBoard pricingAttempt [] ⟨"a"⟩).run .live ⟨0, .empty 8, ()⟩
    pricing.Undisturbed pricingBoard pricingAttempt (· == ⟨"c"⟩) (fun t _ => t.cancelled = false) ∧
      Token.live.cancelled = false ∧
      attempts r.notes = [(⟨"a"⟩, 1), (⟨"b"⟩, 2), (⟨"control"⟩, 3), (⟨"d"⟩, 4)] ∧
      r.value = .error (.fallbackExhausted [⟨"a"⟩, ⟨"b"⟩, ⟨"control"⟩, ⟨"d"⟩] "d") := by
  obtain ⟨hattempts, hvalue, -⟩ := replay_eq_runQueue pricing pricingBoard pricingAttempt _ _
    undisturbed_pricing ⟨"a"⟩ .live ⟨0, .empty 8, ()⟩ rfl
  refine ⟨undisturbed_pricing, rfl, hattempts.trans ?_, hvalue.trans ?_⟩
  · cbv
  · cbv

end Definition

end TrialRouting
