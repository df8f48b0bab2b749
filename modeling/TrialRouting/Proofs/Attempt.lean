import TrialRouting.Attempt.Outcome
import TrialRouting.Proofs.Unfolding

/-!
# TrialRouting.Proofs.Attempt

How an attempt is decided.  The decorators and the trial that they surround are
one work, the chain, which runs in stretches: from one wake-up to the next it
goes on without a wait (`Work.Stretch`).  An attempt is woken up when it starts,
when a wait of its chain or its budget ends, and when it is cancelled.  At a
wake-up `Wakes` lists what can decide it, in this order:

1. the invocation has been cancelled before: the chain does not go on at all;
2. the chain comes to its end in this stretch: it decides the outcome;
3. the budget is used up.

If none of them holds the attempt waits for its next wake-up, so it is decided
at the first at which one holds.  Every course of an attempt is of this kind,
and every course of this kind is one of the attempt (`unfolds_runAttempt_iff`).
-/

namespace TrialRouting

variable {σ α : Type}

/-! ## Steps of work -/

namespace History

/-- The steps that work takes itself: the looks for a cancellation and the sleeps are the guard's. -/
def own (h : History σ) : History σ :=
  h.filter fun
    | .asked _ => false
    | .slept _ => false
    | _ => true

/-- How long the steps sleep, if nothing wakes them early. -/
def slept : History σ → Nat
  | [] => 0
  | .slept ms :: h => ms + slept h
  | _ :: h => slept h

@[simp] theorem own_append (h h' : History σ) : own (h ++ h') = own h ++ own h' :=
  List.filter_append h h'

@[simp] theorem own_asked (c : Bool) (h : History σ) : own (.asked c :: h) = own h := rfl

@[simp] theorem own_slept (ms : Nat) (h : History σ) : own (.slept ms :: h) = own h := rfl

@[simp] theorem slept_append (h h' : History σ) : slept (h ++ h') = slept h + slept h' := by
  induction h with
  | nil => exact (Nat.zero_add _).symm
  | cons step h ih => cases step <;> simp [slept, ih, Nat.add_assoc]

end History

namespace Work

/-- `w.RunsTo pass h w'`: the work `w` takes the steps of `h` and stands at `w'`; on the way it passes
only waits whose length satisfies `pass`. -/
inductive RunsTo (pass : Nat → Prop) : Work σ α → History σ → Work σ α → Prop where
  | here (w : Work σ α) : RunsTo pass w [] w
  | remark (r : Remark) {w w' : Work σ α} {h : History σ} :
    RunsTo pass w h w' → RunsTo pass (.remark r w) (.noted (.remark r) :: h) w'
  | act (u : σ → σ) {k : σ → Work σ α} (s : σ) {w' : Work σ α} {h : History σ} :
    RunsTo pass (k s) h w' → RunsTo pass (.act u k) (.acted u s :: h) w'
  | cancel {w w' : Work σ α} {h : History σ} :
    RunsTo pass w h w' → RunsTo pass (.cancel w) (.cancelled :: h) w'
  | wait {ms : Nat} {w w' : Work σ α} {h : History σ} :
    pass ms → RunsTo pass w h w' → RunsTo pass (.wait ms w) h w'

/-- A stretch of work: no time passes in it.  A wait of no length is no wait. -/
abbrev Stretch : Work σ α → History σ → Work σ α → Prop := RunsTo (· = 0)

/-- What work has done when it stands at some point, whatever it has waited for. -/
abbrev Performs : Work σ α → History σ → Work σ α → Prop := RunsTo fun _ => True

variable {pass : Nat → Prop} {w w' w'' : Work σ α} {h h' : History σ}

theorem RunsTo.trans (hw : w.RunsTo pass h w') (hw' : w'.RunsTo pass h' w'') :
    w.RunsTo pass (h ++ h') w'' := by
  induction hw with
  | here w => exact hw'
  | remark r _ ih => exact .remark r (ih hw')
  | act u s _ ih => exact .act u s (ih hw')
  | cancel _ ih => exact .cancel (ih hw')
  | wait hpass _ ih => exact .wait hpass (ih hw')

theorem RunsTo.performs (hw : w.RunsTo pass h w') : w.Performs h w' := by
  induction hw with
  | here w => exact .here w
  | remark r _ ih => exact .remark r ih
  | act u s _ ih => exact .act u s ih
  | cancel _ ih => exact .cancel ih
  | wait _ _ ih => exact .wait trivial ih

theorem RunsTo.own (hw : w.RunsTo pass h w') : h.own = h := by
  induction hw with
  | here w => rfl
  | remark r _ ih => exact congrArg (_ :: ·) ih
  | act u s _ ih => exact congrArg (_ :: ·) ih
  | cancel _ ih => exact congrArg (_ :: ·) ih
  | wait _ _ ih => exact ih

theorem RunsTo.slept (hw : w.RunsTo pass h w') : h.slept = 0 := by
  induction hw with
  | here w => rfl
  | remark r _ ih => exact ih
  | act u s _ ih => exact ih
  | cancel _ ih => exact ih
  | wait _ _ ih => exact ih

/-- Of a wait some may be over: what the work has done when it stands at a wait is the same. -/
theorem performs_wait {ms rest' ms' : Nat} (hms : 0 < ms)
    (hw : (Work.wait rest' w).Performs h (.wait ms' w')) (hms' : 0 < ms') :
    ∃ ms'', 0 < ms'' ∧ (Work.wait ms w).Performs h (.wait ms'' w') := by
  cases hw with
  | here => exact ⟨ms, hms, .here _⟩
  | wait _ hw => exact ⟨ms', hms', .wait trivial hw⟩

end Work

/-! ## Wake-ups -/

/-- The next wake-up of an attempt whose chain waits for so long: the end of the wait or of the
budget. -/
def untilWakeUp (budget : Option Duration) (elapsed ms : Nat) : Nat :=
  match budget with
  | none => ms
  | some after => min ms (after.clockMillis - elapsed)

/-- `Wakes budget elapsed w h o`: an attempt is woken up when `elapsed` milliseconds have passed and
the work `w` is left of its chain; from then on it takes the steps of `h`, and its outcome is `o`. -/
inductive Wakes (budget : Option Duration) :
    Nat → Work σ Yield → History σ → AttemptOutcome → Prop where
  | cancelled (elapsed : Nat) (w : Work σ Yield) : Wakes budget elapsed w [.asked true] .cancelled
  | completed {elapsed : Nat} {w : Work σ Yield} {h : History σ} {y : Yield} :
    w.Stretch h (.done y) → Wakes budget elapsed w (.asked false :: h) (.ofVerdict y.verdict)
  | timedOut {elapsed ms : Nat} {w rest : Work σ Yield} {h : History σ} {after : Duration} :
    w.Stretch h (.wait ms rest) → 0 < ms → budget = some after → after.clockMillis ≤ elapsed →
    Wakes budget elapsed w (.asked false :: h) (.timedOut after)
  | again {elapsed ms : Nat} {w rest : Work σ Yield} {h h' : History σ} {o : AttemptOutcome} :
    w.Stretch h (.wait ms rest) → 0 < ms →
    (∀ after, budget = some after → elapsed < after.clockMillis) →
    Wakes budget (elapsed + untilWakeUp budget elapsed ms)
      (.wait (ms - untilWakeUp budget elapsed ms) rest) h' o →
    Wakes budget elapsed w
      (.asked false :: (h ++ .slept (untilWakeUp budget elapsed ms) :: h')) o

variable {budget : Option Duration} {elapsed ms : Nat} {w : Work σ Yield} {h : History σ}
  {o : AttemptOutcome}

/-- Work that leads to other work in a stretch wakes as that does. -/
theorem Wakes.prepend {w' : Work σ Yield} {steps : History σ} (hw : w.Stretch steps w')
    (hwakes : Wakes budget elapsed w' (.asked false :: h) o) :
    Wakes budget elapsed w (.asked false :: (steps ++ h)) o := by
  cases hwakes with
  | completed hdone => exact .completed (hw.trans hdone)
  | timedOut hwait hms hbudget hover => exact .timedOut (hw.trans hwait) hms hbudget hover
  | again hwait hms hleft hnext =>
      rw [← List.append_assoc]
      exact .again (hw.trans hwait) hms hleft hnext

/-! ## The guard of an attempt -/

/-- What is left of a budget. -/
def leftOf (budget : Option Duration) (elapsed : Nat) : Option Nat :=
  budget.map fun after => after.clockMillis - elapsed

/-- A wait within the budget ends at the next wake-up, when some of it may be left. -/
theorem guarded_wait (hms : 0 < ms)
    (hleft : ∀ after, budget = some after → elapsed < after.clockMillis) (w : Work σ α) :
    Program.guarded (leftOf budget elapsed) (.wait ms w) =
      .sleepGuarded (untilWakeUp budget elapsed ms)
        (.guarded (leftOf budget (elapsed + untilWakeUp budget elapsed ms))
          (.wait (ms - untilWakeUp budget elapsed ms) w)) := by
  have hne : ms ≠ 0 := by omega
  cases budget with
  | none => simp [leftOf, untilWakeUp, Program.guarded, hne]
  | some after =>
      have hlt := hleft after rfl
      by_cases hle : ms ≤ after.clockMillis - elapsed
      · simp [leftOf, untilWakeUp, Program.guarded, hne, hle, Nat.sub_add_eq]
      · have hmin : min ms (after.clockMillis - elapsed) = after.clockMillis - elapsed := by omega
        have hover : after.clockMillis - (elapsed + (after.clockMillis - elapsed)) = 0 := by omega
        have hsome : after.clockMillis - elapsed ≠ 0 := by omega
        have hrest : ms - (after.clockMillis - elapsed) ≠ 0 := by omega
        simp [leftOf, untilWakeUp, Program.guarded, hne, hle, hmin, hover, hsome, hrest]

/-- A wait ends at once when the budget is used up. -/
theorem guarded_wait_expired {after : Duration} (hms : 0 < ms) (hover : after.clockMillis ≤ elapsed)
    (w : Work σ α) :
    Program.guarded (leftOf (some after) elapsed) (.wait ms w) = .done .expired := by
  have hne : ms ≠ 0 := by omega
  have hzero : after.clockMillis - elapsed = 0 := by omega
  simp [leftOf, Program.guarded, hzero, hne]

/-- At the next wake-up the wait is over, or the budget. -/
theorem over_untilWakeUp (budget : Option Duration) (elapsed ms : Nat) :
    ms - untilWakeUp budget elapsed ms = 0 ∨
      ∃ after, budget = some after ∧
        after.clockMillis ≤ elapsed + untilWakeUp budget elapsed ms := by
  cases budget with
  | none => simp [untilWakeUp]
  | some after =>
      simp only [untilWakeUp, Option.some.injEq, exists_eq_left']
      omega

/-- A wait that is over is passed, and the budget that is over ends all others. -/
theorem wakes_of_over {g : Program.Guarded Yield}
    (hover : ms = 0 ∨ ∃ after, budget = some after ∧ after.clockMillis ≤ elapsed)
    (hw : ∀ h, (Program.guarded (leftOf budget elapsed) w).Unfolds h g →
      Wakes budget elapsed w (.asked false :: h) (.ofGuarded budget g))
    (hu : (Program.guarded (leftOf budget elapsed) (.wait ms w)).Unfolds h g) :
    Wakes budget elapsed (.wait ms w) (.asked false :: h) (.ofGuarded budget g) := by
  obtain rfl | hms := Nat.eq_zero_or_pos ms
  · have hpassed : Program.guarded (leftOf budget elapsed) (.wait 0 w) =
        Program.guarded (leftOf budget elapsed) w := by
      cases budget <;> rfl
    rw [hpassed] at hu
    exact (hw h hu).prepend (.wait rfl (.here w))
  · obtain hzero | ⟨after, rfl, hover⟩ := hover
    · omega
    · rw [guarded_wait_expired hms hover] at hu
      cases hu
      exact .timedOut (.here _) hms rfl hover

/-- Work that goes on after a look wakes in one of the ways of `Wakes`. -/
theorem wakes_of_unfolds_guarded {g : Program.Guarded Yield}
    (hu : (Program.guarded (leftOf budget elapsed) w).Unfolds h g) :
    Wakes budget elapsed w (.asked false :: h) (.ofGuarded budget g) := by
  induction w generalizing elapsed h with
  | done y =>
      cases hu
      exact .completed (.here _)
  | remark r w ih =>
      cases hu with
      | note _ hu => exact (ih hu).prepend (.remark r (.here w))
  | act u k ih =>
      cases hu with
      | act _ s hu => exact (ih s hu).prepend (.act u s (.here (k s)))
  | cancel w ih =>
      cases hu with
      | cancel hu => exact (ih hu).prepend (.cancel (.here w))
  | wait ms w ih =>
      by_cases hover : ms = 0 ∨ ∃ after, budget = some after ∧ after.clockMillis ≤ elapsed
      · exact wakes_of_over hover (fun _ => ih) hu
      · obtain ⟨hne, hleft⟩ := not_or.mp hover
        have hms : 0 < ms := Nat.pos_of_ne_zero hne
        have hleft : ∀ after, budget = some after → elapsed < after.clockMillis :=
          fun after hbudget => Nat.lt_of_not_le fun hle => hleft ⟨after, hbudget, hle⟩
        rw [guarded_wait hms hleft] at hu
        cases hu with
        | sleep _ hu =>
            cases hu with
            | cancelled c hu =>
                refine .again (.here _) hms hleft ?_
                cases c with
                | true =>
                    cases hu
                    exact .cancelled _ _
                | false => exact wakes_of_over (over_untilWakeUp budget elapsed ms) (fun _ => ih) hu

/-- What a stretch of work leads to goes on under the same guard. -/
theorem unfolds_guarded_of_stretch (left : Option Nat) {w w' : Work σ α} {h h' : History σ}
    {g : Program.Guarded α} (hw : w.Stretch h w') (hu : (Program.guarded left w').Unfolds h' g) :
    (Program.guarded left w).Unfolds (h ++ h') g := by
  induction hw with
  | here w => exact hu
  | remark r _ ih => exact .note _ (ih hu)
  | act u s _ ih => exact .act u s (ih hu)
  | cancel _ ih => exact .cancel (ih hu)
  | @wait ms w w' h hzero _ ih =>
      obtain rfl : ms = 0 := hzero
      cases left <;> exact ih hu

/-- Each of the ways of `Wakes` is one of work under a guard. -/
theorem Wakes.exists_unfolds (hw : Wakes budget elapsed w h o) :
    ∃ g, (Program.unlessCancelled (Program.guarded (leftOf budget elapsed) w)).Unfolds h g ∧
      o = .ofGuarded budget g := by
  induction hw with
  | cancelled elapsed w => exact ⟨_, .cancelled true (.done _), rfl⟩
  | @completed elapsed w h y hdone =>
      have hu := unfolds_guarded_of_stretch (leftOf budget elapsed) hdone (.done _)
      rw [List.append_nil] at hu
      exact ⟨_, .cancelled false hu, rfl⟩
  | @timedOut elapsed ms w rest h after hwait hms hbudget hover =>
      subst hbudget
      have hu : (Program.guarded (leftOf (some after) elapsed) (.wait ms rest)).Unfolds
          ([] : History _) .expired := by
        rw [guarded_wait_expired hms hover]
        exact .done _
      have hu := unfolds_guarded_of_stretch _ hwait hu
      rw [List.append_nil] at hu
      exact ⟨_, .cancelled false hu, rfl⟩
  | again hwait hms hleft _ ih =>
      obtain ⟨g, hu, rfl⟩ := ih
      refine ⟨g, .cancelled false (unfolds_guarded_of_stretch _ hwait ?_), rfl⟩
      rw [guarded_wait hms hleft]
      exact .sleep _ hu

/-- **The course of an attempt**: it is what its wake-ups make it, from its start on. -/
theorem unfolds_runAttempt_iff {decorators : List (Decorator σ)} {a : Attempt}
    {call : Work σ Yield} :
    (runAttempt decorators a call budget).Unfolds h o ↔
      Wakes budget 0 (surround decorators a call) h o := by
  have hstart : leftOf budget 0 = budget.map Duration.clockMillis := by
    cases budget <;> rfl
  constructor
  · intro hu
    cases hu with
    | cancelled c hu =>
        cases c with
        | true =>
            cases hu
            exact .cancelled _ _
        | false =>
            obtain ⟨g, _, _, rfl, hguarded, hu⟩ := Program.unfolds_bind hu
            cases hu
            rw [← hstart] at hguarded
            rw [List.append_nil]
            exact wakes_of_unfolds_guarded hguarded
  · intro hw
    obtain ⟨g, hu, rfl⟩ := hw.exists_unfolds
    cases hu with
    | cancelled c hu =>
        cases c with
        | true =>
            cases hu
            exact .cancelled true (.done _)
        | false =>
            rw [hstart] at hu
            exact .cancelled false (hu.map (AttemptOutcome.ofGuarded budget))

/-! ## How long, and how far -/

/-- Only a budget times an attempt out, and it is the one that is told. -/
theorem Wakes.budget_of_timedOut {after : Duration}
    (hw : Wakes budget elapsed w h (.timedOut after)) : budget = some after := by
  generalize ho : AttemptOutcome.timedOut after = o at hw
  induction hw with
  | cancelled elapsed w => cases ho
  | @completed elapsed w h y _ => cases y <;> cases ho
  | timedOut _ _ hbudget _ =>
      cases ho
      exact hbudget
  | again _ _ _ _ ih => exact ih ho

/-- An attempt sleeps no longer than what is left of its budget. -/
theorem Wakes.slept_le {after : Duration} (hw : Wakes (some after) elapsed w h o) :
    h.slept ≤ after.clockMillis - elapsed := by
  induction hw with
  | cancelled elapsed w => simp [History.slept]
  | completed hdone => simp [History.slept, hdone.slept]
  | timedOut hwait _ _ _ => simp [History.slept, hwait.slept]
  | @again elapsed ms w rest h h' o hwait _ _ _ ih =>
      simp only [History.slept, History.slept_append, hwait.slept]
      simp only [untilWakeUp] at ih ⊢
      omega

/-- How far the chain has got: to its end, or to a wait that nothing came after; or nothing of it
has run, because the attempt was cancelled before it started. -/
theorem Wakes.performs (hw : Wakes budget elapsed w h o) :
    (h = [.asked true] ∧ o = .cancelled) ∨
      (∃ y, w.Performs h.own (.done y) ∧ o = .ofVerdict y.verdict) ∨
      ∃ ms rest, 0 < ms ∧ w.Performs h.own (.wait ms rest) ∧
        (o = .cancelled ∨ ∃ after, o = .timedOut after) := by
  induction hw with
  | cancelled elapsed w => exact .inl ⟨rfl, rfl⟩
  | completed hdone =>
      rw [History.own_asked, hdone.own]
      exact .inr (.inl ⟨_, hdone.performs, rfl⟩)
  | timedOut hwait hms _ _ =>
      rw [History.own_asked, hwait.own]
      exact .inr (.inr ⟨_, _, hms, hwait.performs, .inr ⟨_, rfl⟩⟩)
  | @again elapsed ms w rest h h' o hwait hms hleft _ ih =>
      simp only [History.own_asked, History.own_append, History.own_slept, hwait.own]
      obtain ⟨rfl, rfl⟩ | ⟨y, hdone, ho⟩ | ⟨ms', rest', hms', hcut, ho⟩ := ih
      · have hnone : History.own [(.asked true : Step σ)] = [] := rfl
        rw [hnone, List.append_nil]
        exact .inr (.inr ⟨ms, rest, hms, hwait.performs, .inl rfl⟩)
      · generalize History.own h' = steps at hdone ⊢
        cases hdone with
        | wait _ hdone => exact .inr (.inl ⟨y, hwait.performs.trans (.wait trivial hdone), ho⟩)
      · obtain ⟨ms'', hms'', hcut⟩ := Work.performs_wait hms hcut hms'
        exact .inr (.inr ⟨ms'', rest', hms'', hwait.performs.trans hcut, ho⟩)

/-! ## Attempts on the clock -/

theorem Token.sleep_bounds (t : Token) (clock ms : Nat) :
    clock ≤ (t.sleep clock ms).2 ∧ (t.sleep clock ms).2 ≤ clock + ms := by
  unfold sleep
  split
  · simp
  · split
    · simp
    · split
      · dsimp only
        omega
      · simp

/-- A sleep that nobody wakes early lasts. -/
theorem Token.sleep_of_live {t : Token} {clock ms : Nat}
    (hlive : (t.sleep clock ms).1.cancelled = false) : (t.sleep clock ms).2 = clock + ms := by
  revert hlive
  unfold sleep
  split
  · next hc => simp [hc]
  · split
    · simp
    · split <;> simp

namespace Program

theorem clock_le_clock_run (p : Program σ α) (t : Token) (s : Session σ) :
    s.clock ≤ (p.run t s).session.clock := by
  induction p generalizing t s with
  | done a => exact Nat.le_refl _
  | note n p ih => exact ih t s
  | act u k ih => exact ih s.state t { s with state := u s.state }
  | sleep ms p ih =>
      have hrest := ih (t.sleep s.clock ms).1 { s with clock := (t.sleep s.clock ms).2 }
      exact Nat.le_trans (t.sleep_bounds s.clock ms).1 hrest
  | cancelled k ih => exact ih t.cancelled t s
  | cancel p ih => exact ih _ s
  | claim key k ih =>
      unfold run
      split
      · exact ih _ t s
      · exact ih _ t s
  | settle key d p ih =>
      cases d with
      | none => exact ih t s
      | some d => exact ih t { s with cache := s.cache.insert key d }
  | track key p ih => exact ih t { s with cache := s.cache.track key }

/-- A run takes no longer than its sleeps. -/
theorem clock_run_le (p : Program σ α) (t : Token) (s : Session σ) :
    (p.run t s).session.clock ≤ s.clock + (p.history t s).slept := by
  induction p generalizing t s with
  | done a => exact Nat.le_refl _
  | note n p ih => exact ih t s
  | act u k ih => exact ih s.state t { s with state := u s.state }
  | sleep ms p ih =>
      have hsleep := (t.sleep_bounds s.clock ms).2
      have hrest := ih (t.sleep s.clock ms).1 { s with clock := (t.sleep s.clock ms).2 }
      simp only [run, history, History.slept] at hrest ⊢
      omega
  | cancelled k ih => exact ih t.cancelled t s
  | cancel p ih => exact ih _ s
  | claim key k ih =>
      simp only [run, history]
      cases s.cache.get? key with
      | none => exact ih .won t s
      | some d => exact ih (.hit d) t s
  | settle key d p ih =>
      cases d with
      | none => exact ih t s
      | some d => exact ih t { s with cache := s.cache.insert key d }
  | track key p ih => exact ih t { s with cache := s.cache.track key }

/-- Work that finishes by the end of a budget, the very end included, does the same within it. -/
theorem run_guarded_of_finished {w : Work σ α} {left : Nat} {t : Token} {s : Session σ} {a : α}
    (hvalue : ((guarded none w).run t s).value = .finished a)
    (hclock : ((guarded none w).run t s).session.clock ≤ s.clock + left) :
    (guarded (some left) w).run t s = (guarded none w).run t s := by
  induction w generalizing left t s with
  | done b => rfl
  | remark r w ih =>
      simp only [guarded, run] at hvalue hclock ⊢
      rw [ih hvalue hclock]
  | act u k ih =>
      simp only [guarded, run] at hvalue hclock ⊢
      exact ih s.state hvalue hclock
  | cancel w ih =>
      simp only [guarded, run] at hvalue hclock ⊢
      exact ih hvalue hclock
  | wait ms w ih =>
      by_cases hzero : ms = 0
      · simp only [guarded, hzero, if_true] at hvalue hclock ⊢
        exact ih hvalue hclock
      simp only [guarded, hzero, if_false, sleepGuarded, unlessCancelled, run] at hvalue hclock ⊢
      cases hc : (t.sleep s.clock ms).1.cancelled with
      | true =>
          rw [hc] at hvalue
          cases hvalue
      | false =>
          have hlasted := Token.sleep_of_live hc
          simp only [hc, Bool.false_eq_true, if_false] at hvalue hclock
          have hafter := clock_le_clock_run (guarded none w) (t.sleep s.clock ms).1
            { s with clock := (t.sleep s.clock ms).2 }
          have hle : ms ≤ left := by
            dsimp only at hafter
            omega
          have hrest : (t.sleep s.clock ms).2 + (left - ms) = s.clock + left := by omega
          rw [if_pos hle]
          simp only [run, hc, Bool.false_eq_true, if_false]
          exact ih hvalue (hrest ▸ hclock)

end Program

/-- An attempt that comes to its own end by the end of a budget does the same within the budget. -/
theorem run_runAttempt_of_verdict {decorators : List (Decorator σ)} {a : Attempt}
    {call : Work σ Yield} {after : Duration} {t : Token} {s : Session σ} {v : Verdict}
    (hvalue : ((runAttempt decorators a call none).run t s).value = .ofVerdict v)
    (hclock : ((runAttempt decorators a call none).run t s).session.clock ≤
      s.clock + after.clockMillis) :
    (runAttempt decorators a call (some after)).run t s =
      (runAttempt decorators a call none).run t s := by
  cases hc : t.cancelled with
  | true => simp [runAttempt, Program.run, hc]
  | false =>
      simp only [runAttempt, Program.run, hc, Program.run_bind, Option.map_none, Option.map_some]
        at hvalue hclock ⊢
      have hfinished : ∃ y, ((Program.guarded none (surround decorators a call)).run t s).value =
          .finished y := by
        generalize ((Program.guarded none (surround decorators a call)).run t s).value = g at hvalue
        cases g with
        | finished y => exact ⟨y, rfl⟩
        | expired => cases v <;> cases hvalue
        | cancelled => cases v <;> cases hvalue
      obtain ⟨y, hy⟩ := hfinished
      rw [Program.run_guarded_of_finished hy hclock]
      simp only [hy, AttemptOutcome.ofGuarded]

/-- **How an attempt is decided.**  It is decided at the first wake-up at which it has been
cancelled, its chain comes to its end, or its budget is used up, by the first of these that holds.

So an attempt that has been cancelled before its start does nothing; only a budget times an attempt
out, and an attempt sleeps no longer than its budget; and when an attempt is cancelled or timed out,
its chain stands at a wait and does not go on.

On the clock, an attempt takes no longer than its budget in whole milliseconds, rounded up, and a
chain that is done by then, at the very end of the budget too, does what it does without a budget. -/
theorem attempt_decided (decorators : List (Decorator σ)) (a : Attempt) (call : Work σ Yield)
    (budget : Option Duration) :
    let chain := surround decorators a call
    let attempt := runAttempt decorators a call budget
    (∀ h o, attempt.Unfolds h o ↔ Wakes budget 0 chain h o) ∧
    (∀ h o, attempt.Unfolds h o →
      (∀ h', h = .asked true :: h' → h' = [] ∧ o = .cancelled) ∧
      (∀ after, o = .timedOut after → budget = some after) ∧
      (∀ after, budget = some after → h.slept ≤ after.clockMillis) ∧
      (o = .cancelled ∨ (∃ after, o = .timedOut after) →
        h = [.asked true] ∨ ∃ ms rest, 0 < ms ∧ chain.Performs h.own (.wait ms rest))) ∧
    ∀ t s,
      Wakes budget 0 chain (attempt.history t s) (attempt.run t s).value ∧
      (t.cancelled = true → attempt.run t s = ⟨.cancelled, t, s, []⟩) ∧
      ∀ after, budget = some after →
        (attempt.run t s).session.clock ≤ s.clock + after.clockMillis ∧
        let unlimited := (runAttempt decorators a call none).run t s
        ∀ v, unlimited.value = .ofVerdict v →
          unlimited.session.clock ≤ s.clock + after.clockMillis → attempt.run t s = unlimited := by
  intro chain attempt
  have hslept : ∀ h o after, budget = some after → Wakes budget 0 chain h o →
      h.slept ≤ after.clockMillis := by
    rintro h o after rfl hw
    exact hw.slept_le
  refine ⟨fun h o => unfolds_runAttempt_iff, fun h o hu => ?_, fun t s => ?_⟩
  · have hw := unfolds_runAttempt_iff.mp hu
    refine ⟨?_, ?_, fun after hbudget => hslept h o after hbudget hw, ?_⟩
    · rintro h' rfl
      cases hw
      exact ⟨rfl, rfl⟩
    · rintro after rfl
      exact hw.budget_of_timedOut
    · intro hcut
      obtain ⟨hnone, -⟩ | ⟨y, -, rfl⟩ | ⟨ms, rest, hms, hcut, -⟩ := hw.performs
      · exact .inl hnone
      · cases y <;> simp [Yield.verdict, AttemptOutcome.ofVerdict] at hcut
      · exact .inr ⟨ms, rest, hms, hcut⟩
  · have hw := unfolds_runAttempt_iff.mp (attempt.unfolds_history t s)
    refine ⟨hw, fun hc => by simp [attempt, runAttempt, Program.run, hc], ?_⟩
    rintro after rfl
    refine ⟨?_, fun v hvalue hclock => run_runAttempt_of_verdict hvalue hclock⟩
    have hclock := attempt.clock_run_le t s
    have hle := hslept _ _ after rfl hw
    omega

/-- A trial that takes fifty milliseconds and may take fifty is in time. -/
example :
    let trial : Work Unit Yield := .wait 50 (.done (.output "quoted"))
    ((runAttempt [] default trial (some (.ofMillis 50))).run .live ⟨0, .empty 1, ()⟩).value =
      .success "quoted" := by
  cbv

end TrialRouting
