import TrialRouting.Proofs.Plain

/-!
# TrialRouting.Proofs.Replay

What a run of `Definition.replay` does.  The recursion of the definition mixes
three things: the attempt, the choice of the next trial, and the check for a
cancellation in between.  `Definition.follow` is the choice alone, as a
function of the outcome and of the switches at that moment, and `run_replay`
takes a run apart at its first attempt with it.  Later proofs cite `run_replay`
and never open the recursion again.
-/

namespace TrialRouting

theorem ErrorPolicy.reportsExhaustion_iff {policy : ErrorPolicy} :
    policy.reportsExhaustion = true ↔
      policy = .replayAny ∨ ∃ keys, policy = .replayOrdered keys := by
  cases policy <;> simp [reportsExhaustion]

namespace Definition

variable {σ : Type}

/-! ## Choosing while the switches stand still -/

/-- One look at the switches after the other finds the first trial that is on;
looking neither changes the state nor leaves notes. -/
theorem run_firstEnabled (d : Definition σ) (board : Switchboard σ) (keys : List TrialKey)
    (t : Token) (s : Session σ) :
    ∃ found, (d.firstEnabled board keys).run t s = ⟨found, t, s, []⟩ ∧
      found.map Subtype.val =
        keys.find? (d.isEnabled (board.trialDisabled s.state d.contract)) := by
  induction keys with
  | nil => exact ⟨none, rfl, rfl⟩
  | cons key keys ih =>
      obtain ⟨found, hrun, hfound⟩ := ih
      by_cases hkey : key = d.trials.defaultKey
      · refine ⟨some ⟨key, List.mem_cons_self⟩, ?_, ?_⟩
        · rw [firstEnabled, if_pos hkey]
          rfl
        · simp [isEnabled, hkey]
      · cases hoff : board.trialDisabled s.state d.contract key with
        | true =>
            refine ⟨found.map fun k => ⟨k.1, List.mem_cons_of_mem _ k.2⟩, ?_, ?_⟩
            · rw [firstEnabled, if_neg hkey, Program.run_bind]
              simp only [Program.run_view, hoff]
              rw [Program.run_bind, hrun]
              rfl
            · have hskip : d.isEnabled (board.trialDisabled s.state d.contract) key = false := by
                simp [isEnabled, hkey, hoff]
              rw [List.find?_cons, hskip, ← hfound, Option.map_map]
              rfl
        | false =>
            refine ⟨some ⟨key, List.mem_cons_self⟩, ?_, ?_⟩
            · rw [firstEnabled, if_neg hkey, Program.run_bind]
              simp only [Program.run_view, hoff]
              rfl
            · simp [isEnabled, hoff]

/-- The first enabled trial among the untried ones is the next candidate. -/
theorem find?_untried (d : Definition σ) (disabled : TrialKey → Bool) (failed : TrialKey)
    (attempted : List TrialKey) :
    (d.untried failed attempted).find? (d.isEnabled disabled) =
      d.nextCandidate disabled failed attempted := by
  rw [untried, List.find?_filter, nextCandidate]
  congr 1
  funext key
  simp

/-! ## What follows an attempt -/

/-- What follows an attempt: the result of the invocation, or another trial. -/
def follow (d : Definition σ) (disabled : TrialKey → Bool) (attempted : List TrialKey)
    (current : TrialKey) : AttemptOutcome → Except DispatchError String ⊕ TrialKey
  | .success value => .inl (.ok value)
  | .failed error =>
    match d.nextCandidate disabled current attempted with
    | none => .inl (.error (d.exhausted current attempted error))
    | some next => .inr next
  | .timedOut after =>
    match d.timeoutCandidate current attempted with
    | none => .inl (.error (.timedOut current after))
    | some next => .inr next
  | .cancelled => .inl (.error (.cancelled (some current)))
  | .unresolvable source => .inl (.error (.implementationUnavailable d.contract current source))
  | .pipeline error => .inl (.error (.pipeline current error))

/-- A trial that follows is registered and was not attempted before. -/
theorem mem_of_follow_eq_inr {d : Definition σ} {disabled : TrialKey → Bool}
    {attempted : List TrialKey} {current next : TrialKey} {outcome : AttemptOutcome}
    (h : d.follow disabled attempted current outcome = .inr next) :
    next ∈ d.trials.keys ∧ next ∉ attempted := by
  cases outcome with
  | failed error =>
      cases hn : d.nextCandidate disabled current attempted with
      | none => simp [follow, hn] at h
      | some key =>
          simp only [follow, hn, Sum.inr.injEq] at h
          exact h ▸ nextCandidate_mem hn
  | timedOut after =>
      cases hn : d.timeoutCandidate current attempted with
      | none => simp [follow, hn] at h
      | some key =>
          simp only [follow, hn, Sum.inr.injEq] at h
          obtain ⟨hkey, hnew⟩ := eq_defaultKey_of_timeoutCandidate hn
          subst h
          exact ⟨hkey ▸ d.trials.defaultKey_mem_keys, hnew⟩
  | success value => cases h
  | cancelled => cases h
  | unresolvable source => cases h
  | pipeline error => cases h

/-! ## A run, taken apart at its first attempt -/

/-- The notes between two attempts. -/
def onwardNotes (d : Definition σ) (attempted : List TrialKey) (current next : TrialKey) :
    List Note :=
  [.event (.replaying d.contract d.policy.name current (attempted.length + 1) next),
    .telemetry (.fallback next)]

theorem attempts_onwardNotes (d : Definition σ) (attempted : List TrialKey)
    (current next : TrialKey) : attempts (d.onwardNotes attempted current next) = [] := rfl

theorem run_onward (d : Definition σ) (attempted : List TrialKey) (current next : TrialKey)
    (rest : Program σ (Except DispatchError String)) (t : Token) (s : Session σ) :
    (d.onward attempted current next rest).run t s =
      if t.cancelled then ⟨.error (.cancelled (some current)), t, s, []⟩
      else
        let r := rest.run t s
        { r with notes := d.onwardNotes attempted current next ++ r.notes } := by
  cases hc : t.cancelled <;> simp [onward, Program.run, hc, onwardNotes]

/-- **A run of attempts**: the first attempt runs, and what follows depends on
its outcome, on the switches after it and on whether the invocation has been
cancelled by then. -/
theorem run_replay (d : Definition σ) (board : Switchboard σ)
    (attempt : TrialKey → Nat → Program σ AttemptOutcome) (before : List TrialKey)
    (current : TrialKey) (t : Token) (s : Session σ) :
    (d.replay board attempt before current).run t s =
      let attempted := before ++ [current]
      let r := (attempt current attempted.length).run t s
      let notes := .attempting current attempted.length :: r.notes
      match d.follow (board.trialDisabled r.session.state d.contract) attempted current r.value with
      | .inl result => ⟨result, r.token, r.session, notes⟩
      | .inr next =>
        if r.token.cancelled then ⟨.error (.cancelled (some current)), r.token, r.session, notes⟩
        else
          let r' := (d.replay board attempt attempted next).run r.token r.session
          { r' with notes := notes ++ d.onwardNotes attempted current next ++ r'.notes } := by
  rw [replay]
  simp only [Program.run, Program.run_bind]
  generalize (attempt current (before ++ [current]).length).run t s = r
  obtain ⟨outcome, t', s', ns⟩ := r
  cases outcome with
  | failed error =>
      obtain ⟨found, hrun, hfound⟩ :=
        d.run_firstEnabled board (d.untried current (before ++ [current])) t' s'
      rw [find?_untried] at hfound
      simp only [follow, ← hfound, Program.run_bind, hrun]
      cases found with
      | none => simp [Program.run]
      | some next => cases hc : t'.cancelled <;> simp [run_onward, hc]
  | timedOut after =>
      simp only [follow]
      split
      · next h => simp [h, Program.run]
      · next next h => cases hc : t'.cancelled <;> simp [h, run_onward, hc]
  | success value => simp [follow, Program.run]
  | cancelled => simp [follow, Program.run]
  | unresolvable source => simp [follow, Program.run]
  | pipeline error => simp [follow, Program.run]

end Definition

end TrialRouting
