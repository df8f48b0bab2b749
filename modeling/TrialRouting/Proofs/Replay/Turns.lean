import Mathlib.Data.List.Nodup
import TrialRouting.Proofs.Replay
import TrialRouting.Proofs.Unfolding

/-!
# TrialRouting.Proofs.Replay.Turns

The attempts of an invocation, whatever others do meanwhile.  The switches may
be operated between any two looks at them, so what follows an attempt is no
function of its outcome: `Definition.choose` is the choice as a program, which
looks at the switches of one trial after the other.

A turn is an attempt and the choice after it.  `Definition.Turns` lists the
ways in which turns follow each other, and every unfolding of `replay` is one
of them (`turns_of_unfolds`).  Later proofs are inductions on `Turns` and never
open the recursion of `replay`:

* `Turns.nodup`, `Turns.registered` — no trial is attempted twice, and only
  registered trials are replayed;
* `Turns.attempts` — the attempts are numbered one after the other;
* `Turns.chosen` — each but the first follows the choice of its trial, and each
  is followed by turns.
-/

namespace TrialRouting

namespace Definition

variable {σ : Type}

/-! ## The choice after an attempt -/

/-- What follows an attempt: the result of the invocation, or another trial. -/
def choose (d : Definition σ) (board : Switchboard σ) (attempted : List TrialKey)
    (current : TrialKey) : AttemptOutcome → Program σ (Except DispatchError String ⊕ TrialKey)
  | .success value => .done (.inl (.ok value))
  | .failed error =>
    (d.firstEnabled board (d.untried current attempted)).bind fun
      | none => .done (.inl (.error (d.exhausted current attempted error)))
      | some next => .done (.inr next.1)
  | .timedOut after =>
    match d.timeoutCandidate current attempted with
    | none => .done (.inl (.error (.timedOut current after)))
    | some next => .done (.inr next)
  | .cancelled => .done (.inl (.error (.cancelled (some current))))
  | .unresolvable source =>
    .done (.inl (.error (.implementationUnavailable d.contract current source)))
  | .pipeline error => .done (.inl (.error (.pipeline current error)))

/-- **Attempts in a row** are turns: an attempt, and a choice that ends the invocation or leads to
another trial. -/
theorem replay_eq (d : Definition σ) (board : Switchboard σ)
    (attempt : TrialKey → Nat → Program σ AttemptOutcome) (before : List TrialKey)
    (current : TrialKey) :
    d.replay board attempt before current =
      let attempted := before ++ [current]
      .note (.attempting current attempted.length) <|
      (attempt current attempted.length).bind fun outcome =>
      (d.choose board attempted current outcome).bind fun
        | .inl result => .done result
        | .inr next => d.onward attempted current next (d.replay board attempt attempted next) := by
  rw [replay]
  refine congrArg (fun f => Program.note _ (Program.bind _ f)) (funext fun outcome => ?_)
  cases outcome with
  | failed error =>
      rw [choose, Program.bind_assoc]
      refine congrArg (Program.bind _) (funext fun found => ?_)
      cases found <;> rfl
  | timedOut after =>
      dsimp only [choose]
      split
      · next h => simp only [h, Program.done_bind]
      · next next h => simp only [h, Program.done_bind]
  | success value => rfl
  | cancelled => rfl
  | unresolvable source => rfl
  | pipeline error => rfl

/-- The choice looks at the switches and does nothing else. -/
theorem plain_choose (d : Definition σ) (board : Switchboard σ) (attempted : List TrialKey)
    (current : TrialKey) (outcome : AttemptOutcome) {P : Note → Prop} :
    (d.choose board attempted current outcome).Plain P := by
  cases outcome with
  | failed error =>
      refine Program.plain_bind (d.plain_firstEnabled board _) fun found => ?_
      cases found <;> trivial
  | timedOut after =>
      dsimp only [choose]
      split <;> trivial
  | success value => trivial
  | cancelled => trivial
  | unresolvable source => trivial
  | pipeline error => trivial

theorem notes_of_choose {d : Definition σ} {board : Switchboard σ} {attempted : List TrialKey}
    {current : TrialKey} {outcome : AttemptOutcome} {h : History σ}
    {chosen : Except DispatchError String ⊕ TrialKey}
    (hu : (d.choose board attempted current outcome).Unfolds h chosen) : h.notes = [] := by
  have hnone := Program.forall_mem_notes
    (d.plain_choose (P := fun _ => False) board attempted current outcome).notesOnly hu
  exact List.eq_nil_iff_forall_not_mem.mpr hnone

/-- A trial that is chosen is registered and was not attempted before. -/
theorem mem_of_choose {d : Definition σ} {board : Switchboard σ} {attempted : List TrialKey}
    {current next : TrialKey} {outcome : AttemptOutcome} {h : History σ}
    (hu : (d.choose board attempted current outcome).Unfolds h (.inr next)) :
    next ∈ d.trials.keys ∧ next ∉ attempted := by
  cases outcome with
  | failed error =>
      obtain ⟨found, _, _, _, _, hu⟩ := Program.unfolds_bind hu
      cases found with
      | none => cases hu
      | some next =>
          cases hu
          obtain ⟨horder, hnew⟩ := List.mem_filter.mp next.2
          exact ⟨mem_keys_of_mem_replayOrder horder, by simpa using hnew⟩
  | timedOut after =>
      dsimp only [choose] at hu
      split at hu
      · cases hu
      · next next hnext =>
          cases hu
          obtain ⟨hdefault, hnew⟩ := eq_defaultKey_of_timeoutCandidate hnext
          exact ⟨hdefault ▸ d.trials.defaultKey_mem_keys, hnew⟩
  | success value => cases hu
  | cancelled => cases hu
  | unresolvable source => cases hu
  | pipeline error => cases hu

/-! ## One turn after the other -/

/-- The steps from one attempt to the next: nobody has cancelled, and the replay is reported. -/
def onwardSteps (d : Definition σ) (attempted : List TrialKey) (current next : TrialKey) :
    History σ :=
  .asked false :: (d.onwardNotes attempted current next).map .noted

variable (d : Definition σ) (board : Switchboard σ)
  (attempt : TrialKey → Nat → Program σ AttemptOutcome)

/-- `d.Turns board attempt before current later h result`: after the trials of `before` the trial
`current` and then those of `later` are attempted, by the steps of `h`, and the invocation ends
with `result`. -/
inductive Turns : List TrialKey → TrialKey → List TrialKey → History σ →
    Except DispatchError String → Prop where
  | last {before : List TrialKey} {current : TrialKey} {tried chosen : History σ}
    {outcome : AttemptOutcome} {result : Except DispatchError String} :
    (attempt current (before ++ [current]).length).Unfolds tried outcome →
    (d.choose board (before ++ [current]) current outcome).Unfolds chosen (.inl result) →
    Turns before current []
      (.noted (.attempting current (before ++ [current]).length) :: (tried ++ chosen)) result
  | cancelled {before : List TrialKey} {current next : TrialKey} {tried chosen : History σ}
    {outcome : AttemptOutcome} :
    (attempt current (before ++ [current]).length).Unfolds tried outcome →
    (d.choose board (before ++ [current]) current outcome).Unfolds chosen (.inr next) →
    Turns before current []
      (.noted (.attempting current (before ++ [current]).length) ::
        (tried ++ (chosen ++ [.asked true])))
      (.error (.cancelled (some current)))
  | onward {before later : List TrialKey} {current next : TrialKey}
    {tried chosen rest : History σ} {outcome : AttemptOutcome}
    {result : Except DispatchError String} :
    (attempt current (before ++ [current]).length).Unfolds tried outcome →
    (d.choose board (before ++ [current]) current outcome).Unfolds chosen (.inr next) →
    Turns (before ++ [current]) next later rest result →
    Turns before current (next :: later)
      (.noted (.attempting current (before ++ [current]).length) ::
        (tried ++ (chosen ++ (d.onwardSteps (before ++ [current]) current next ++ rest)))) result

variable {d board attempt} {before later : List TrialKey} {current next : TrialKey}
  {h : History σ} {result : Except DispatchError String}

theorem unfolds_onward {attempted : List TrialKey}
    {rest : Program σ (Except DispatchError String)}
    (hu : (d.onward attempted current next rest).Unfolds h result) :
    (h = [.asked true] ∧ result = .error (.cancelled (some current))) ∨
      ∃ h', h = d.onwardSteps attempted current next ++ h' ∧ rest.Unfolds h' result := by
  cases hu with
  | cancelled c hu =>
      cases c with
      | true =>
          cases hu
          exact .inl ⟨rfl, rfl⟩
      | false =>
          cases hu with
          | note _ hu =>
              cases hu with
              | note _ hu => exact .inr ⟨_, rfl, hu⟩

/-- **Every unfolding is a row of turns.** -/
theorem turns_of_unfolds (hu : (d.replay board attempt before current).Unfolds h result) :
    ∃ later, d.Turns board attempt before current later h result := by
  -- what follows the first turn is an unfolding of fewer steps
  induction hlength : h.length using Nat.strongRecOn generalizing before current h with
  | ind n ih =>
      rw [replay_eq] at hu
      cases hu with
      | note _ hu =>
          obtain ⟨outcome, tried, _, rfl, htried, hu⟩ := Program.unfolds_bind hu
          obtain ⟨chosen, _, _, rfl, hchoose, hu⟩ := Program.unfolds_bind hu
          cases chosen with
          | inl result' =>
              cases hu
              rw [List.append_nil]
              exact ⟨[], .last htried hchoose⟩
          | inr next =>
              obtain ⟨rfl, rfl⟩ | ⟨rest, rfl, hrest⟩ := unfolds_onward hu
              · exact ⟨[], .cancelled htried hchoose⟩
              · have hfewer : rest.length < n := by
                  simp only [List.length_cons, List.length_append] at hlength
                  omega
                obtain ⟨later, hturns⟩ := ih _ hfewer hrest rfl
                exact ⟨next :: later, .onward htried hchoose hturns⟩

/-! ## What turns keep -/

/-- A trial that is replayed is registered. -/
theorem Turns.registered (ht : d.Turns board attempt before current later h result) :
    ∀ key ∈ later, key ∈ d.trials.keys := by
  induction ht with
  | last _ _ => simp
  | cancelled _ _ => simp
  | onward _ hchoose _ ih => exact List.forall_mem_cons.mpr ⟨(mem_of_choose hchoose).1, ih⟩

/-- No trial is attempted twice. -/
theorem Turns.nodup (ht : d.Turns board attempt before current later h result)
    (hbefore : (before ++ [current]).Nodup) : (before ++ current :: later).Nodup := by
  induction ht with
  | last _ _ => exact hbefore
  | cancelled _ _ => exact hbefore
  | onward _ hchoose _ ih =>
      have hnew := (mem_of_choose hchoose).2
      have hnext := List.Nodup.append hbefore (List.nodup_singleton _)
        (List.disjoint_singleton.mpr hnew)
      simpa using ih hnext

/-- Attempts are numbered one after the other. -/
theorem Turns.attempts
    (hsilent : ∀ key number h outcome, (attempt key number).Unfolds h outcome →
      TrialRouting.attempts h.notes = [])
    (ht : d.Turns board attempt before current later h result) :
    TrialRouting.attempts h.notes = (current :: later).zipIdx (before.length + 1) := by
  induction ht with
  | last htried hchoose =>
      simp [hsilent _ _ _ _ htried, notes_of_choose hchoose]
  | cancelled htried hchoose =>
      simp [hsilent _ _ _ _ htried, notes_of_choose hchoose]
  | onward htried hchoose _ ih =>
      simp [hsilent _ _ _ _ htried, notes_of_choose hchoose, ih, onwardSteps, attempts_onwardNotes]

/-- **Before and after an attempt**: the turns from it on are turns again, and an attempt that is not
the first of its row follows the choice of its trial, and the steps that go on to it. -/
theorem Turns.chosen
    (hsilent : ∀ key number h outcome, (attempt key number).Unfolds h outcome →
      TrialRouting.attempts h.notes = [])
    (ht : d.Turns board attempt before current later h result) {earlier after : History σ}
    {key : TrialKey} {number : Nat}
    (hsplit : h = earlier ++ .noted (.attempting key number) :: after) :
    ∃ attempted left, number = attempted.length + 1 ∧
      d.Turns board attempt attempted key left (.noted (.attempting key number) :: after) result ∧
      ((earlier = [] ∧ key = current ∧ attempted = before) ∨
        ∃ front chosen failed outcome,
          earlier = front ++ (chosen ++ d.onwardSteps attempted failed key) ∧
          (d.choose board attempted failed outcome).Unfolds chosen (.inr key)) := by
  -- within a turn no other attempt begins, so the split is at its start or in the rest
  induction ht generalizing earlier with
  | last htried hchoose =>
      cases earlier with
      | nil =>
          cases hsplit
          exact ⟨_, _, by simp, .last htried hchoose, .inl ⟨rfl, rfl, rfl⟩⟩
      | cons first earlier =>
          obtain ⟨_, hsplit⟩ := List.cons.inj hsplit
          refine absurd hsplit (History.ne_of_attempts_eq_nil ?_ earlier after key number)
          simp [hsilent _ _ _ _ htried, notes_of_choose hchoose]
  | cancelled htried hchoose =>
      cases earlier with
      | nil =>
          cases hsplit
          exact ⟨_, _, by simp, .cancelled htried hchoose, .inl ⟨rfl, rfl, rfl⟩⟩
      | cons first earlier =>
          obtain ⟨_, hsplit⟩ := List.cons.inj hsplit
          refine absurd hsplit (History.ne_of_attempts_eq_nil ?_ earlier after key number)
          simp [hsilent _ _ _ _ htried, notes_of_choose hchoose]
  | @onward before later current next tried chosen rest outcome result htried hchoose hrest ih =>
      cases earlier with
      | nil =>
          cases hsplit
          exact ⟨_, _, by simp, .onward htried hchoose hrest, .inl ⟨rfl, rfl, rfl⟩⟩
      | cons first earlier =>
          obtain ⟨_, hsplit⟩ := List.cons.inj hsplit
          have hturn : TrialRouting.attempts (History.notes
              (tried ++ (chosen ++ d.onwardSteps (before ++ [current]) current next))) = [] := by
            simp [hsilent _ _ _ _ htried, notes_of_choose hchoose, onwardSteps,
              attempts_onwardNotes]
          simp only [← List.append_assoc] at hsplit hturn
          obtain ⟨earlier, rfl, hlater⟩ := History.exists_split hturn hsplit
          obtain ⟨attempted, left, hnumber, hturns, hbefore⟩ := ih hlater
          refine ⟨attempted, left, hnumber, hturns, .inr ?_⟩
          obtain ⟨rfl, rfl, rfl⟩ | ⟨front, chosen', failed, outcome', rfl, hchoose'⟩ := hbefore
          · exact ⟨first :: tried, chosen, current, outcome, by simp, hchoose⟩
          · refine ⟨first :: (tried ++ chosen ++ d.onwardSteps (before ++ [current]) current next ++
              front), chosen', failed, outcome', ?_, hchoose'⟩
            simp only [List.cons_append, List.append_assoc]

end Definition

end TrialRouting
