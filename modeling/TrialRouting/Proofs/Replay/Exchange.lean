import TrialRouting.Proofs.Replay.Turns

/-!
# TrialRouting.Proofs.Replay.Exchange

Only the outcome of an attempt counts for what follows it.  `afterwards` is the
program that follows an attempt; of the attempt it takes the outcome and nothing
else.  So in a row of turns an attempt may be exchanged for any other program
that ends with the same outcome: the rest of the row is the same, step by step
(`exists_exchange`).
-/

namespace TrialRouting.Definition

variable {σ : Type} {d : Definition σ} {board : Switchboard σ}
  {attempt attempt' : TrialKey → Nat → Program σ AttemptOutcome} {before later : List TrialKey}
  {current key : TrialKey} {number : Nat} {h : History σ} {result : Except DispatchError String}

/-! ## What follows an attempt -/

/-- The invocation from the end of an attempt on. -/
def afterwards (d : Definition σ) (board : Switchboard σ)
    (attempt : TrialKey → Nat → Program σ AttemptOutcome) (attempted : List TrialKey)
    (current : TrialKey) (outcome : AttemptOutcome) : Program σ (Except DispatchError String) :=
  (d.choose board attempted current outcome).bind fun
    | .inl result => .done result
    | .inr next => d.onward attempted current next (d.replay board attempt attempted next)

section

variable {attempted : List TrialKey} {next : TrialKey} {chosen rest : History σ}
  {outcome : AttemptOutcome}

theorem unfolds_afterwards_of_inl
    (hchoose : (d.choose board attempted current outcome).Unfolds chosen (.inl result)) :
    (d.afterwards board attempt attempted current outcome).Unfolds chosen result := by
  rw [← List.append_nil chosen]
  exact hchoose.bind (.done result)

theorem unfolds_afterwards_of_cancelled
    (hchoose : (d.choose board attempted current outcome).Unfolds chosen (.inr next)) :
    (d.afterwards board attempt attempted current outcome).Unfolds (chosen ++ [.asked true])
      (.error (.cancelled (some current))) :=
  hchoose.bind (.cancelled true (.done _))

theorem unfolds_afterwards_of_onward
    (hchoose : (d.choose board attempted current outcome).Unfolds chosen (.inr next))
    (hrest : (d.replay board attempt attempted next).Unfolds rest result) :
    (d.afterwards board attempt attempted current outcome).Unfolds
      (chosen ++ (d.onwardSteps attempted current next ++ rest)) result :=
  hchoose.bind (.cancelled false (.note _ (.note _ hrest)))

/-- An attempt and what follows it. -/
theorem unfolds_replay_of_afterwards {tried : History σ}
    (htried : (attempt current (before ++ [current]).length).Unfolds tried outcome)
    (hrest : (d.afterwards board attempt (before ++ [current]) current outcome).Unfolds rest result) :
    (d.replay board attempt before current).Unfolds
      (.noted (.attempting current (before ++ [current]).length) :: (tried ++ rest)) result := by
  rw [replay_eq]
  exact .note _ (htried.bind hrest)

end

/-- What `turns_of_unfolds` takes apart is put together again. -/
theorem Turns.unfolds (ht : d.Turns board attempt before current later h result) :
    (d.replay board attempt before current).Unfolds h result := by
  induction ht with
  | last htried hchoose =>
      exact unfolds_replay_of_afterwards htried (unfolds_afterwards_of_inl hchoose)
  | cancelled htried hchoose =>
      exact unfolds_replay_of_afterwards htried (unfolds_afterwards_of_cancelled hchoose)
  | onward htried hchoose _ ih =>
      exact unfolds_replay_of_afterwards htried (unfolds_afterwards_of_onward hchoose ih)

/-- An output ends the invocation. -/
theorem unfolds_afterwards_success {attempted : List TrialKey} {value : String}
    (hu : (d.afterwards board attempt attempted current (.success value)).Unfolds h result) :
    h = [] ∧ result = .ok value := by
  cases hu
  exact ⟨rfl, rfl⟩

/-- A broken pipeline ends the invocation. -/
theorem unfolds_afterwards_pipeline {attempted : List TrialKey} {error : String}
    (hu : (d.afterwards board attempt attempted current (.pipeline error)).Unfolds h result) :
    h = [] ∧ result = .error (.pipeline current error) := by
  cases hu
  exact ⟨rfl, rfl⟩

/-! ## An attempt in the place of another -/

/-- The attempts with another one in the place of that of a trial. -/
def exchange (attempt : TrialKey → Nat → Program σ AttemptOutcome) (key : TrialKey)
    (p : Program σ AttemptOutcome) : TrialKey → Nat → Program σ AttemptOutcome :=
  fun other number => if other = key then p else attempt other number

theorem exchange_self (attempt : TrialKey → Nat → Program σ AttemptOutcome) (key : TrialKey)
    (p : Program σ AttemptOutcome) (number : Nat) : exchange attempt key p key number = p :=
  if_pos rfl

theorem exchange_of_ne (attempt : TrialKey → Nat → Program σ AttemptOutcome) {key other : TrialKey}
    (p : Program σ AttemptOutcome) (number : Nat) (hne : other ≠ key) :
    exchange attempt key p other number = attempt other number :=
  if_neg hne

/-- Turns know the attempts of their own trials only. -/
theorem Turns.congr (ht : d.Turns board attempt before current later h result)
    (heq : ∀ key ∈ current :: later, ∀ number, attempt' key number = attempt key number) :
    d.Turns board attempt' before current later h result := by
  induction ht with
  | last htried hchoose => exact .last (heq _ List.mem_cons_self _ ▸ htried) hchoose
  | cancelled htried hchoose => exact .cancelled (heq _ List.mem_cons_self _ ▸ htried) hchoose
  | onward htried hchoose _ ih =>
      exact .onward (heq _ List.mem_cons_self _ ▸ htried) hchoose
        (ih fun key hkey => heq key (List.mem_cons_of_mem _ hkey))

/-- **Only the outcome counts.**  An attempt in a row of turns is followed by what follows its
outcome.  Any other program that may end with this outcome can take its place, and the rest of the
row stays what it is. -/
theorem Turns.exists_exchange
    (hsilent : ∀ key number h outcome, (attempt key number).Unfolds h outcome →
      TrialRouting.attempts h.notes = [])
    (ht : d.Turns board attempt before current later h result)
    (hnodup : (current :: later).Nodup) {earlier after : History σ}
    (hsplit : h = earlier ++ .noted (.attempting key number) :: after) :
    ∃ attempted tried outcome rest, number = attempted.length ∧ after = tried ++ rest ∧
      (attempt key number).Unfolds tried outcome ∧
      (d.afterwards board attempt attempted key outcome).Unfolds rest result ∧
      ∀ p tried', p.Unfolds tried' outcome →
        d.Turns board (exchange attempt key p) before current later
          (earlier ++ .noted (.attempting key number) :: (tried' ++ rest)) result := by
  -- the attempt is that of the first turn, or that of another trial in the turns that follow
  induction ht generalizing earlier with
  | @last before current tried chosen outcome result htried hchoose =>
      cases earlier with
      | nil =>
          cases hsplit
          refine ⟨_, tried, outcome, chosen, rfl, rfl, htried, unfolds_afterwards_of_inl hchoose,
            fun p tried' hp => .last ?_ hchoose⟩
          rwa [exchange_self]
      | cons first earlier =>
          obtain ⟨_, hsplit⟩ := List.cons.inj hsplit
          refine absurd hsplit (History.ne_of_attempts_eq_nil ?_ earlier after key number)
          simp [hsilent _ _ _ _ htried, notes_of_choose hchoose]
  | @cancelled before current next tried chosen outcome htried hchoose =>
      cases earlier with
      | nil =>
          cases hsplit
          refine ⟨_, tried, outcome, chosen ++ [.asked true], rfl, rfl, htried,
            unfolds_afterwards_of_cancelled hchoose, fun p tried' hp => .cancelled ?_ hchoose⟩
          rwa [exchange_self]
      | cons first earlier =>
          obtain ⟨_, hsplit⟩ := List.cons.inj hsplit
          refine absurd hsplit (History.ne_of_attempts_eq_nil ?_ earlier after key number)
          simp [hsilent _ _ _ _ htried, notes_of_choose hchoose]
  | @onward before later current next tried chosen rest outcome result htried hchoose hrest ih =>
      obtain ⟨hcurrent, hnodup⟩ := List.nodup_cons.mp hnodup
      cases earlier with
      | nil =>
          cases hsplit
          refine ⟨_, tried, outcome, _, rfl, rfl, htried,
            unfolds_afterwards_of_onward hchoose hrest.unfolds, fun p tried' hp => ?_⟩
          refine .onward ?_ hchoose (hrest.congr fun other hother number => ?_)
          · rwa [exchange_self]
          · exact exchange_of_ne attempt p number fun heq => hcurrent (heq ▸ hother)
      | cons first earlier =>
          obtain ⟨rfl, hinside⟩ := List.cons.inj hsplit
          have hturn : TrialRouting.attempts (History.notes
              (tried ++ (chosen ++ d.onwardSteps (before ++ [current]) current next))) = [] := by
            simp [hsilent _ _ _ _ htried, notes_of_choose hchoose, onwardSteps,
              attempts_onwardNotes]
          simp only [← List.append_assoc] at hinside hturn
          obtain ⟨earlier, rfl, hlater⟩ := History.exists_split hturn hinside
          obtain ⟨attempted, tried', outcome', rest', hnumber, hafter, htried', hrest', hexchange⟩ :=
            ih hnodup hlater
          have hkey : key ∈ next :: later := by
            have hattempt : (key, number) ∈ TrialRouting.attempts rest.notes := by
              simp [hlater]
            rw [hrest.attempts hsilent] at hattempt
            exact List.fst_mem_of_mem_zipIdx hattempt
          refine ⟨attempted, tried', outcome', rest', hnumber, hafter, htried', hrest',
            fun p steps hp => ?_⟩
          have hother : current ≠ key := fun heq => hcurrent (heq ▸ hkey)
          have htried : (exchange attempt key p current (before ++ [current]).length).Unfolds tried
              outcome := by
            rwa [exchange_of_ne attempt p _ hother]
          simpa only [List.cons_append, List.append_assoc] using
            Turns.onward htried hchoose (hexchange p steps hp)

end TrialRouting.Definition
