import TrialRouting.Proofs.Replay.Queue
import TrialRouting.Proofs.Replay.Turns

/-!
# TrialRouting.Proofs.Replay.Closing

How a row of attempts ends, whatever others do meanwhile.

`Definition.Seeks` is the search for a trial to replay on: the switches of one
trial after the other are looked at until one is found on.  A search that finds
nothing has looked at all of them (`Seeks.exists_states`).  `Definition.Closes`
lists how the invocation ends after its last attempt, and with which candidate,
if it has been cancelled before it could go on to one.  Every row of turns ends
in this way (`Turns.exists_closes`), so a result tells of the last attempt:

* `Closes.trial?_eq`, `Closes.of_fallbackExhausted`, `Closes.of_trialError?` —
  what each error says is so;
* `terminal_errors` — the main theorem.
-/

namespace TrialRouting

namespace Definition

variable {σ : Type} {d : Definition σ} {board : Switchboard σ}

/-! ## The search for a trial -/

/-- A search among the trials of a list, one after the other: its looks at the switches, and the trial
that it finds.  The default trial is found without a look. -/
inductive Seeks (d : Definition σ) (board : Switchboard σ) :
    List TrialKey → History σ → Option TrialKey → Prop where
  | nothing : Seeks d board [] [] none
  | default {key : TrialKey} (keys : List TrialKey) : key = d.trials.defaultKey →
    Seeks d board (key :: keys) [] (some key)
  | on {key : TrialKey} (keys : List TrialKey) (s : σ) : key ≠ d.trials.defaultKey →
    board.trialDisabled s d.contract key = false →
    Seeks d board (key :: keys) [.acted id s] (some key)
  | off {key : TrialKey} {keys : List TrialKey} (s : σ) {h : History σ} {found : Option TrialKey} :
    key ≠ d.trials.defaultKey → board.trialDisabled s d.contract key = true →
    Seeks d board keys h found →
    Seeks d board (key :: keys) (.acted id s :: h) found

theorem seeks_of_unfolds {keys : List TrialKey} {h : History σ}
    {found : Option { key // key ∈ keys }} (hu : (d.firstEnabled board keys).Unfolds h found) :
    d.Seeks board keys h (found.map Subtype.val) := by
  induction keys generalizing h with
  | nil =>
      cases hu
      exact .nothing
  | cons key keys ih =>
      rw [firstEnabled] at hu
      split at hu
      · next hdefault =>
          cases hu
          exact .default keys hdefault
      · next hother =>
          obtain ⟨off, _, _, rfl, hview, hu⟩ := Program.unfolds_bind hu
          obtain ⟨s, rfl, hoff⟩ := Program.unfolds_view hview
          cases off with
          | false =>
              cases hu
              exact .on keys s hother hoff.symm
          | true =>
              obtain ⟨found, _, _, rfl, hrest, hu⟩ := Program.unfolds_bind hu
              cases hu
              have hseeks := Seeks.off s hother hoff.symm (ih hrest)
              rw [List.append_nil, Option.map_map]
              exact hseeks

/-- The trials that a search finds are of its list. -/
theorem Seeks.mem {keys : List TrialKey} {h : History σ} {key : TrialKey}
    (hs : d.Seeks board keys h (some key)) : key ∈ keys := by
  generalize hfound : some key = found at hs
  induction hs with
  | nothing => cases hfound
  | default keys _ =>
      cases hfound
      exact List.mem_cons_self
  | on keys s _ _ =>
      cases hfound
      exact List.mem_cons_self
  | off s _ _ _ ih => exact List.mem_cons_of_mem _ (ih hfound)

/-- A look at the switches of a trial other than the default that finds it off. -/
def FoundOff (d : Definition σ) (board : Switchboard σ) (key : TrialKey) (s : σ) : Prop :=
  key ≠ d.trials.defaultKey ∧ board.trialDisabled s d.contract key = true

/-- A search that finds nothing has looked at each trial of its list, and found it off. -/
theorem Seeks.exists_states {keys : List TrialKey} {h : History σ}
    (hs : d.Seeks board keys h none) :
    ∃ states, h = states.map (Step.acted id) ∧
      List.Forall₂ (d.FoundOff board) keys states := by
  generalize hfound : none = found at hs
  induction hs with
  | nothing => exact ⟨[], rfl, .nil⟩
  | default keys _ => cases hfound
  | on keys s _ _ => cases hfound
  | off s hother hoff _ ih =>
      obtain ⟨states, rfl, hstates⟩ := ih hfound
      exact ⟨s :: states, rfl, .cons ⟨hother, hoff⟩ hstates⟩

/-! ## The end after the last attempt -/

/-- `d.Closes board attempted current outcome h dropped result`: after its last attempt, of the trial
`current` and with the given outcome, the invocation ends with `result` by the steps of `h`.  If it
has been cancelled instead of going on to another trial, that is the trial `dropped`. -/
inductive Closes (d : Definition σ) (board : Switchboard σ) (attempted : List TrialKey)
    (current : TrialKey) :
    AttemptOutcome → History σ → Option TrialKey → Except DispatchError String → Prop where
  | success (value : String) : Closes d board attempted current (.success value) [] none (.ok value)
  | exhausted (error : String) {h : History σ} :
    d.Seeks board (d.untried current attempted) h none →
    Closes d board attempted current (.failed error) h none
      (.error (d.exhausted current attempted error))
  | droppedReplay (error : String) {h : History σ} {next : TrialKey} :
    d.Seeks board (d.untried current attempted) h (some next) →
    Closes d board attempted current (.failed error) (h ++ [.asked true]) (some next)
      (.error (.cancelled (some current)))
  | timedOut (after : Duration) : d.timeoutCandidate current attempted = none →
    Closes d board attempted current (.timedOut after) [] none (.error (.timedOut current after))
  | droppedFallback (after : Duration) {next : TrialKey} :
    d.timeoutCandidate current attempted = some next →
    Closes d board attempted current (.timedOut after) [.asked true] (some next)
      (.error (.cancelled (some current)))
  | cancelled : Closes d board attempted current .cancelled [] none
      (.error (.cancelled (some current)))
  | unresolvable (source : ResolveError) : Closes d board attempted current (.unresolvable source)
      [] none (.error (.implementationUnavailable d.contract current source))
  | pipeline (error : String) : Closes d board attempted current (.pipeline error) [] none
      (.error (.pipeline current error))

section

variable {attempted : List TrialKey} {current next : TrialKey} {outcome : AttemptOutcome}
  {h : History σ} {result : Except DispatchError String}

/-- A choice that ends the invocation closes it. -/
theorem closes_of_choose_inl
    (hu : (d.choose board attempted current outcome).Unfolds h (.inl result)) :
    d.Closes board attempted current outcome h none result := by
  cases outcome with
  | failed error =>
      obtain ⟨found, _, _, rfl, hfirst, hu⟩ := Program.unfolds_bind hu
      cases found with
      | none =>
          cases hu
          rw [List.append_nil]
          exact .exhausted error (seeks_of_unfolds hfirst)
      | some next => cases hu
  | timedOut after =>
      dsimp only [choose] at hu
      split at hu
      · next hnone =>
          cases hu
          exact .timedOut after hnone
      · cases hu
  | success value =>
      cases hu
      exact .success value
  | cancelled =>
      cases hu
      exact .cancelled
  | unresolvable source =>
      cases hu
      exact .unresolvable source
  | pipeline error =>
      cases hu
      exact .pipeline error

/-- An invocation that is found cancelled after the choice of another trial drops that trial. -/
theorem closes_of_choose_inr
    (hu : (d.choose board attempted current outcome).Unfolds h (.inr next)) :
    d.Closes board attempted current outcome (h ++ [.asked true]) (some next)
      (.error (.cancelled (some current))) := by
  cases outcome with
  | failed error =>
      obtain ⟨found, _, _, rfl, hfirst, hu⟩ := Program.unfolds_bind hu
      cases found with
      | none => cases hu
      | some found =>
          cases hu
          rw [List.append_nil]
          exact .droppedReplay error (seeks_of_unfolds hfirst)
  | timedOut after =>
      dsimp only [choose] at hu
      split at hu
      · cases hu
      · next next hnext =>
          cases hu
          exact .droppedFallback after hnext
  | success value => cases hu
  | cancelled => cases hu
  | unresolvable source => cases hu
  | pipeline error => cases hu

variable {dropped : Option TrialKey}

/-- A trial that is dropped has not been attempted. -/
theorem Closes.dropped_notMem (hc : d.Closes board attempted current outcome h (some next) result) :
    next ∉ attempted := by
  cases hc with
  | droppedReplay error hs =>
      have hnew := (List.mem_filter.mp hs.mem).2
      simpa using hnew
  | droppedFallback after hnext => exact (eq_defaultKey_of_timeoutCandidate hnext).2

/-! ## Errors -/

variable {e : DispatchError}

/-- The trial that an error names is the one attempted last. -/
theorem Closes.trial?_eq {earlier : List TrialKey}
    (hc : d.Closes board (earlier ++ [current]) current outcome h dropped (.error e)) :
    e.trial? = some current := by
  cases hc with
  | exhausted error _ =>
      unfold Definition.exhausted
      split
      · simp [DispatchError.trial?]
      · rfl
  | _ => rfl

/-- Exhaustion names all attempted trials, of which there are several, and the error of the last one;
it is told under the policies with a list only. -/
theorem Closes.of_fallbackExhausted {keys : List TrialKey} {error : String}
    (hc : d.Closes board attempted current outcome h dropped
      (.error (.fallbackExhausted keys error))) :
    keys = attempted ∧ 2 ≤ keys.length ∧ outcome = .failed error ∧
      (d.policy = .replayAny ∨ ∃ listed, d.policy = .replayOrdered listed) := by
  generalize hresult : Except.error (DispatchError.fallbackExhausted keys error) = result at hc
  cases hc with
  | exhausted error' _ =>
      unfold Definition.exhausted at hresult
      split at hresult
      · next hlist =>
          cases hresult
          exact ⟨rfl, hlist.2, rfl, ErrorPolicy.reportsExhaustion_iff.mp hlist.1⟩
      · cases hresult
  | _ => cases hresult

/-- Where the error is one of a trial itself, it is the error of the last attempt, and all trials of
the policy's list were attempted or are found off at the look for them after it. -/
theorem Closes.of_trialError? {error : String} (hcurrent : current ∈ attempted)
    (hc : d.Closes board attempted current outcome h dropped (.error e))
    (he : e.trialError? = some error) :
    outcome = .failed error ∧ ∃ states, h = states.map (Step.acted id) ∧
      List.Forall₂ (d.FoundOff board) (d.targets.filter fun key => !attempted.contains key)
        states := by
  cases hc with
  | exhausted error' hs =>
      rw [← untried_eq d hcurrent]
      refine ⟨?_, hs.exists_states⟩
      unfold Definition.exhausted at he
      split at he
      · cases he
        rfl
      · cases he
        rfl
  | _ => cases he

end

/-! ## Rows of turns -/

variable {attempt : TrialKey → Nat → Program σ AttemptOutcome} {before later : List TrialKey}
  {current : TrialKey} {h : History σ} {result : Except DispatchError String}

/-- **A row of turns ends after its last attempt** in one of the ways of `Closes`. -/
theorem Turns.exists_closes (ht : d.Turns board attempt before current later h result) :
    ∃ earlier last front tried closing outcome dropped,
      before ++ current :: later = earlier ++ [last] ∧
      h = front ++ .noted (.attempting last (earlier ++ [last]).length) :: (tried ++ closing) ∧
      (attempt last (earlier ++ [last]).length).Unfolds tried outcome ∧
      d.Closes board (earlier ++ [last]) last outcome closing dropped result := by
  induction ht with
  | last htried hchoose =>
      exact ⟨_, _, [], _, _, _, none, rfl, rfl, htried, closes_of_choose_inl hchoose⟩
  | cancelled htried hchoose =>
      exact ⟨_, _, [], _, _, _, some _, rfl, rfl, htried, closes_of_choose_inr hchoose⟩
  | @onward before later current next tried chosen rest outcome result _ _ _ ih =>
      obtain ⟨earlier, last, front, tried', closing, outcome', dropped, hkeys, rfl, htried, hc⟩ := ih
      refine ⟨earlier, last, .noted (.attempting current (before ++ [current]).length) ::
        (tried ++ (chosen ++ (d.onwardSteps (before ++ [current]) current next ++ front))), tried',
        closing, outcome', dropped, ?_, ?_, htried, hc⟩
      · rw [← hkeys]
        simp
      · simp

/-- **Errors tell the truth.**  However the attempts of an invocation end, and however the switches
are operated meanwhile, its error

* names the trial that was attempted last;
* names, where it tells that all fallbacks are exhausted, exactly the trials that were attempted, of
  which there are several and no two alike, and only a policy with several targets lets it tell so;
* carries, where it is the error of a trial itself, what the last attempt ended with.  The steps after
  that attempt are then looks at the switches only, one for each trial of the policy's list that was
  not attempted, and each of them finds a trial off that is not the default. -/
theorem terminal_errors {d : Definition σ} {board : Switchboard σ}
    {attempt : TrialKey → Nat → Program σ AttemptOutcome} {first : TrialKey} {h : History σ}
    {e : DispatchError}
    (hsilent : ∀ key number h outcome, (attempt key number).Unfolds h outcome →
      attempts h.notes = [])
    (hu : (d.replay board attempt [] first).Unfolds h (.error e)) :
    ∃ earlier last front tried closing outcome,
      (attempts h.notes).map Prod.fst = earlier ++ [last] ∧
      h = front ++ .noted (.attempting last (earlier ++ [last]).length) :: (tried ++ closing) ∧
      (attempt last (earlier ++ [last]).length).Unfolds tried outcome ∧
      e.trial? = some last ∧
      (∀ keys error, e = .fallbackExhausted keys error →
        keys = earlier ++ [last] ∧ 2 ≤ keys.length ∧ keys.Nodup ∧ outcome = .failed error ∧
          (d.policy = .replayAny ∨ ∃ listed, d.policy = .replayOrdered listed)) ∧
      ∀ error, e.trialError? = some error →
        outcome = .failed error ∧ ∃ states, closing = states.map (Step.acted id) ∧
          List.Forall₂ (d.FoundOff board)
            (d.targets.filter fun key => !(earlier ++ [last]).contains key) states := by
  obtain ⟨later, ht⟩ := turns_of_unfolds hu
  obtain ⟨earlier, last, front, tried, closing, outcome, dropped, hkeys, hh, htried, hc⟩ :=
    ht.exists_closes
  have hattempted : (attempts h.notes).map Prod.fst = earlier ++ [last] := by
    rw [ht.attempts hsilent, List.zipIdx_map_fst, ← hkeys]
    rfl
  have hnodup : (earlier ++ [last]).Nodup := hkeys ▸ ht.nodup (List.nodup_singleton first)
  refine ⟨earlier, last, front, tried, closing, outcome, hattempted, hh, htried, hc.trial?_eq, ?_,
    fun error he => hc.of_trialError? (by simp) he⟩
  rintro keys error rfl
  obtain ⟨rfl, hseveral, houtcome, hpolicy⟩ := hc.of_fallbackExhausted
  exact ⟨rfl, hseveral, hnodup, houtcome, hpolicy⟩

/-- An invocation of `pricing` that fails: its error tells of four attempts, the last one of `d`, and
after that a single look finds `c` off, the only trial of the list that is left. -/
theorem terminal_errors_pricing :
    let h := (pricing.replay pricingBoard pricingAttempt [] ⟨"a"⟩).history .live ⟨0, .empty 8, ()⟩
    let e := DispatchError.fallbackExhausted [⟨"a"⟩, ⟨"b"⟩, ⟨"control"⟩, ⟨"d"⟩] "d"
    (∀ key number h outcome, (pricingAttempt key number).Unfolds h outcome →
        attempts h.notes = []) ∧
      (pricing.replay pricingBoard pricingAttempt [] ⟨"a"⟩).Unfolds h (.error e) ∧
      (attempts h.notes).map Prod.fst = [⟨"a"⟩, ⟨"b"⟩, ⟨"control"⟩, ⟨"d"⟩] ∧
      e.trial? = some ⟨"d"⟩ ∧
      ∃ front tried, h = front ++ .noted (.attempting ⟨"d"⟩ 4) :: (tried ++ [.acted id ()]) ∧
        (pricingAttempt ⟨"d"⟩ 4).Unfolds tried (.failed "d") := by
  have hsilent (key : TrialKey) (number : Nat) (h : History Unit) (outcome : AttemptOutcome)
      (hu : (pricingAttempt key number).Unfolds h outcome) : attempts h.notes = [] := by
    cases hu
    rfl
  have hvalue : ((pricing.replay pricingBoard pricingAttempt [] ⟨"a"⟩).run .live
      ⟨0, .empty 8, ()⟩).value =
      .error (.fallbackExhausted [⟨"a"⟩, ⟨"b"⟩, ⟨"control"⟩, ⟨"d"⟩] "d") := by
    cbv
  have hu := Program.unfolds_history (pricing.replay pricingBoard pricingAttempt [] ⟨"a"⟩) .live
    ⟨0, .empty 8, ()⟩
  rw [hvalue] at hu
  obtain ⟨earlier, last, front, tried, closing, outcome, hattempts, hh, htried, htrial, hkeys,
    hlast⟩ := terminal_errors hsilent hu
  obtain ⟨rfl, states, rfl, hoff⟩ := hlast _ rfl
  have hattempted : [⟨"a"⟩, ⟨"b"⟩, ⟨"control"⟩] ++ [⟨"d"⟩] = earlier ++ [last] :=
    (hkeys _ _ rfl).1
  obtain ⟨hearlier, hd⟩ := List.append_inj' hattempted rfl
  cases hd
  subst hearlier
  have hleft : (pricing.targets.filter fun key =>
      !(([⟨"a"⟩, ⟨"b"⟩, ⟨"control"⟩, ⟨"d"⟩] : List TrialKey).contains key)) = [⟨"c"⟩] := by
    decide
  rw [List.cons_append, List.cons_append, List.cons_append, List.nil_append, hleft] at hoff
  cases hoff with
  | cons _ hnone =>
      cases hnone
      exact ⟨hsilent, hu, hattempts, htrial, front, tried, hh, htried⟩

end Definition

end TrialRouting
