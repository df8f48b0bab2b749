import TrialRouting.Proofs.Invocation.Cancelled
import TrialRouting.Proofs.Invocation.Switches

/-!
# TrialRouting.Proofs.Invocation.Stopping

Invocations that are cancelled on their way.  A history falls into what was done
before that moment and what is done after it, and every look at the token after
it finds the invocation cancelled (`History.Forsaken`).

The token is looked at inside an attempt and between two attempts.  An attempt
that begins after the moment finds the invocation cancelled before its call, and
the invocation ends with it (`exists_forestalled_of_forsaken`).  Right before
each attempt but the first stands a look that found nobody cancelled, and what a
program does upon a look at its token it does at once; so if the moment is one
at which the program gives way to somebody else (`History.givesWay`), only the
first attempt can begin after it (`number_eq_one_of_givesWay`).  Runs are
cancelled at such moments only (`Program.parted_history`).

The attempt that was under way at the moment is the last one, and the invocation
ends after it as `Definition.Closes` says: with the candidate dropped, if there
is one, and with the end of the attempt itself otherwise.
-/

namespace TrialRouting

variable {σ : Type}

/-! ## The moment of a cancellation -/

/-- The program lets others act at such a step, so they may cancel the invocation, or it cancels the
invocation itself.  After a note or a look at the token it goes right on. -/
def Step.givesWay : Step σ → Bool
  | .noted _ => false
  | .asked _ => false
  | _ => true

/-- The step is no look at the token that finds nobody cancelled. -/
def Step.isForsaken : Step σ → Bool
  | .asked c => c
  | _ => true

theorem History.forsaken_iff {h : History σ} : h.Forsaken ↔ h.all Step.isForsaken = true := by
  rw [List.all_eq_true]
  constructor
  · intro hf step hstep
    cases step with
    | asked c => exact hf c hstep
    | _ => rfl
  · intro hall c hc
    exact hall _ hc

instance (h : History σ) : Decidable h.Forsaken :=
  decidable_of_iff _ History.forsaken_iff.symm

/-- The program has not begun, or has just given way. -/
def History.givesWay (h : History σ) : Bool :=
  h.getLast?.all Step.givesWay

/-- The steps are those of a caller that nobody cancels, or of one that is cancelled on the way. -/
def History.Parted (h : History σ) : Prop :=
  (∀ c, .asked c ∈ h → c = false) ∨
    ∃ before after, h = before ++ after ∧ before ≠ [] ∧
      (∀ c, .asked c ∈ before → c = false) ∧ before.givesWay = true ∧ after.Forsaken

theorem History.Parted.cons {h : History σ} (hp : h.Parted) {step : Step σ}
    (hstep : ∀ c, .asked c = step → c = false) : Parted (step :: h) := by
  have hlooks {looks : History σ} (hlooks : ∀ c, .asked c ∈ looks → c = false) (c : Bool)
      (hc : .asked c ∈ step :: looks) : c = false := by
    obtain hc | hc := List.mem_cons.mp hc
    · exact hstep c hc
    · exact hlooks c hc
  obtain hlive | ⟨before, after, rfl, hsome, hlive, hmoment, hf⟩ := hp
  · exact .inl (hlooks hlive)
  · obtain ⟨first, before, rfl⟩ := List.exists_cons_of_ne_nil hsome
    exact .inr ⟨step :: first :: before, after, rfl, List.cons_ne_nil _ _, hlooks hlive,
      hmoment, hf⟩

/-- **Where runs are cancelled**: the alarm goes off in a sleep, and otherwise a run cancels itself;
both are steps that give way. -/
theorem Program.parted_history {α : Type} (p : Program σ α) {t : Token} (ht : t.cancelled = false)
    (s : Session σ) : (p.history t s).Parted := by
  have hat {step : Step σ} {h : History σ} (hgives : step.givesWay = true) (hf : h.Forsaken) :
      History.Parted (step :: h) := by
    refine .inr ⟨[step], h, rfl, List.cons_ne_nil _ _, fun c hc => ?_, hgives, hf⟩
    obtain rfl := List.mem_singleton.mp hc
    cases hgives
  induction p generalizing t s with
  | done a => exact .inl fun c hc => nomatch hc
  | note n p ih => exact (ih ht s).cons fun c hc => nomatch hc
  | act u k ih => exact (ih s.state ht _).cons fun c hc => nomatch hc
  | sleep ms p ih =>
      cases hsleep : (t.sleep s.clock ms).1.cancelled with
      | false => exact (ih hsleep _).cons fun c hc => nomatch hc
      | true => exact hat rfl (forsaken_history p hsleep _)
  | cancelled k ih =>
      refine (ih t.cancelled ht s).cons fun c hc => ?_
      cases hc
      exact ht
  | cancel p ih => exact hat rfl (forsaken_history p rfl s)
  | claim key k ih =>
      unfold history
      split
      · exact (ih _ ht s).cons fun c hc => nomatch hc
      · exact (ih _ ht s).cons fun c hc => nomatch hc
  | settle key d p ih =>
      cases d with
      | none => exact (ih ht s).cons fun c hc => nomatch hc
      | some d => exact (ih ht _).cons fun c hc => nomatch hc
  | track key p ih => exact (ih ht _).cons fun c hc => nomatch hc

/-- The steps that go on to another attempt do not end after a moment at which the program gives
way. -/
theorem History.Forsaken.ne_onward {before after earlier : History σ} (hf : Forsaken after)
    (hmoment : before.givesWay = true) (d : Definition σ) (attempted : List TrialKey)
    (current next : TrialKey) :
    before ++ after ≠ earlier ++ d.onwardSteps attempted current next := by
  intro hsplit
  have hlate : .asked false ∉ after := fun hasked => Bool.false_ne_true (hf false hasked)
  have hfirst : (.asked false : Step σ) ∈ d.onwardSteps attempted current next :=
    List.mem_cons_self
  obtain ⟨_, _, rfl⟩ | ⟨early, rfl, honward⟩ := List.append_eq_append_iff.mp hsplit
  · exact hlate (List.mem_append_right _ hfirst)
  · cases hlast : early.getLast? with
    | none =>
        obtain rfl := List.getLast?_eq_none_iff.mp hlast
        rw [List.nil_append] at honward
        exact hlate (honward ▸ hfirst)
    | some step =>
        have hgives : step.givesWay = true := by
          simpa [givesWay, hlast] using hmoment
        have hmem : step ∈ d.onwardSteps attempted current next :=
          honward ▸ List.mem_append_left after (List.mem_of_getLast? hlast)
        obtain rfl | hmem := List.mem_cons.mp hmem
        · cases hgives
        · obtain ⟨n, -, rfl⟩ := List.mem_map.mp hmem
          cases hgives

namespace Dispatcher

variable {disp : Dispatcher σ} {d : Definition σ} {ctx : Context} {type : ImplementationType}
  {call : Implementation → Work σ Yield} {h before after : History σ}
  {result : Except DispatchError String}

/-! ## Attempts after the moment -/

/-- No attempt begins after a moment at which the program gives way, but possibly the first one. -/
theorem number_eq_one_of_givesWay (hd : disp.registry.get? ctx.contract = some d)
    (hu : (disp.invoke type call ctx).Unfolds (before ++ after) result)
    (hf : History.Forsaken after) (hmoment : before.givesWay = true) {key : TrialKey} {number : Nat}
    (hattempt : (key, number) ∈ attempts after.notes) : number = 1 := by
  obtain ⟨middle, rest, rfl⟩ :=
    List.append_of_mem (History.mem_notes_iff.mp (mem_attempts_iff.mp hattempt))
  obtain ⟨decision, decorators, later, decided, opened, earlier, _, hbefore, -, -, -, -, hturns⟩ :=
    exists_turns_of_attempting hd hu (List.append_assoc before middle _).symm
  obtain ⟨attempted, _, rfl, -, ⟨-, -, rfl⟩ | ⟨front, chosen, failed, outcome, rfl, -⟩⟩ :=
    hturns.chosen attempts_of_attempt rfl
  · rfl
  · simp only [← List.append_assoc] at hbefore
    exact (hf.left.ne_onward hmoment d attempted failed key hbefore).elim

/-- An attempt that begins after the moment ends before its call, and the invocation with it. -/
theorem exists_forestalled_of_forsaken (hd : disp.registry.get? ctx.contract = some d)
    (hu : (disp.invoke type call ctx).Unfolds (before ++ after) result)
    (hf : History.Forsaken after) {key : TrialKey} {number : Nat}
    (hattempt : (key, number) ∈ attempts after.notes) :
    ∃ decorators front tried outcome error,
      after = front ++ .noted (.attempting key number) :: (tried ++
        (resultNotes d ctx result ++ [Note.telemetry .dispose]).map .noted) ∧
      (disp.approach type d ctx decorators key number).Unfolds tried (.settled outcome) ∧
      Forestalls d key outcome error ∧ result = .error error := by
  obtain ⟨middle, rest, rfl⟩ :=
    List.append_of_mem (History.mem_notes_iff.mp (mem_attempts_iff.mp hattempt))
  obtain ⟨decision, decorators, later, decided, opened, earlier, tried, -, rfl, -, -, -, hturns⟩ :=
    exists_turns_of_attempting hd hu (List.append_assoc before middle _).symm
  obtain ⟨attempted, left, rfl, hfrom, -⟩ := hturns.chosen attempts_of_attempt rfl
  rw [← List.cons_append] at hf
  obtain ⟨-, tried', outcome, error, htried, happroach, hends, hresult⟩ :=
    turns_of_forsaken hfrom hf.right.left
  obtain ⟨-, rfl⟩ := List.cons.inj htried
  rw [List.length_append, List.length_singleton] at happroach
  exact ⟨decorators, middle, tried, outcome, error, rfl, happroach, hends, hresult⟩

/-! ## The end of an invocation -/

/-- An invocation that makes attempts ends after the last one in one of the ways of `Closes`, and
reports its result. -/
theorem exists_closes_of_unfolds_invoke (hd : disp.registry.get? ctx.contract = some d)
    (hu : (disp.invoke type call ctx).Unfolds h result) (hattempts : attempts h.notes ≠ []) :
    ∃ earlier last decorators front tried closing outcome dropped,
      attempts h.notes = (earlier ++ [last]).zipIdx 1 ∧
      h = front ++ .noted (.attempting last (earlier ++ [last]).length) :: (tried ++
        (closing ++ (resultNotes d ctx result ++ [Note.telemetry .dispose]).map .noted)) ∧
      (disp.attempt type call d ctx decorators last (earlier ++ [last]).length).Unfolds tried
        outcome ∧
      d.Closes disp.board (earlier ++ [last]) last outcome closing dropped result := by
  cases serves_of_unfolds hu with
  | unknown hnone =>
      rw [hd] at hnone
      cases hnone
  | undecided _ hdecided => exact absurd (attempts_of_decide hdecided) hattempts
  | @served d' decision decorators later decided made _ _ hd' hdecided hmade hturns =>
      obtain rfl : d = d' := Option.some.inj (hd.symm.trans hd')
      obtain ⟨earlier, last, front, tried, closing, outcome, dropped, hkeys, rfl, htried, hc⟩ :=
        hturns.exists_closes
      rw [List.nil_append] at hkeys
      refine ⟨earlier, last, decorators, decided ++ (((openingReports d ctx decision).map
        Note.telemetry).map .noted ++ (made ++ front)), tried, closing, outcome, dropped, ?_, ?_,
        htried, hc⟩
      · rw [attempts_of_served hdecided hmade hturns, hkeys]
      · simp only [List.append_assoc, List.cons_append]

theorem eq_of_fallback_mem_openingReports {decision : Decision} {key : TrialKey}
    (hreport : .fallback key ∈ openingReports d ctx decision) : key = decision.trial := by
  unfold openingReports at hreport
  split at hreport
  · simpa using hreport
  · simp at hreport

/-- A fallback is reported of attempted trials only. -/
theorem exists_attempt_of_fallback (hu : (disp.invoke type call ctx).Unfolds h result)
    {key : TrialKey} (hreport : .fallback key ∈ reports h.notes) :
    ∃ number, (key, number) ∈ attempts h.notes := by
  cases serves_of_unfolds hu with
  | unknown hnone => cases hreport
  | undecided _ hdecided =>
      rw [← reports_protocol, protocol_of_decide hdecided] at hreport
      cases hreport
  | @served d decision decorators later decided made tried _ hd hdecided hmade hturns =>
      have hwhole := protocol_of_served hdecided hmade hturns
      rw [← reports_protocol, hwhole, reports_wholeProtocol, List.mem_append, List.mem_append]
        at hreport
      rw [← attempts_protocol, hwhole, attempts_wholeProtocol]
      obtain hopening | hreplay | hclosing := hreport
      · rw [eq_of_fallback_mem_openingReports hopening]
        exact ⟨1, List.mem_cons_self⟩
      · obtain ⟨⟨next, number⟩, hmem, hnext⟩ := List.mem_map.mp hreplay
        cases hnext
        exact ⟨number, List.mem_cons_of_mem _ hmem⟩
      · cases result <;> simp [closingReport] at hclosing

/-! ## Cancelled on the way -/

/-- Of attempts that are numbered from one on, only the first has that number. -/
theorem eq_nil_of_append_eq_zipIdx {keys : List TrialKey} {begun later : List (TrialKey × Nat)}
    (hkeys : begun ++ later = keys.zipIdx 1) (hbegun : begun ≠ [])
    (hlater : ∀ attempt ∈ later, attempt.2 = 1) : later = [] := by
  obtain ⟨first, begun, rfl⟩ := List.exists_cons_of_ne_nil hbegun
  cases keys with
  | nil => cases hkeys
  | cons key keys =>
      rw [List.cons_append, List.zipIdx_cons] at hkeys
      obtain ⟨-, hrest⟩ := List.cons.inj hkeys
      refine List.eq_nil_iff_forall_not_mem.mpr fun ⟨other, number⟩ hmem => ?_
      have hsecond : 2 ≤ number :=
        List.le_snd_of_mem_zipIdx (hrest ▸ List.mem_append_right begun hmem)
      have hone : number = 1 := hlater _ hmem
      omega

/-- **Cancellation stops replays.**  However an invocation goes and whenever it is cancelled, an
attempt that begins after that ends before its call, and the invocation ends with it.  If the moment
is one at which the invocation gives way, this can be its first attempt only.

Once attempts have begun, and if none begins after the moment, the last one was under way at it, and
the invocation ends with what `Closes` makes of its outcome:

* with its output, if it has one;
* with a cancellation of that attempt, if it failed or timed out and a trial is found to replay on;
  that trial is dropped, and no fallback to it is reported;
* with the error of that attempt otherwise. -/
theorem cancellation_stops_replays (hd : disp.registry.get? ctx.contract = some d)
    (hu : (disp.invoke type call ctx).Unfolds (before ++ after) result)
    (hf : History.Forsaken after) :
    (∀ key number, (key, number) ∈ attempts after.notes →
      (before.givesWay = true → number = 1) ∧
      ∃ decorators front tried outcome error,
        after = front ++ .noted (.attempting key number) :: (tried ++
          (resultNotes d ctx result ++ [Note.telemetry .dispose]).map .noted) ∧
        (disp.approach type d ctx decorators key number).Unfolds tried (.settled outcome) ∧
        Forestalls d key outcome error ∧ result = .error error) ∧
    (attempts before.notes ≠ [] → (before.givesWay = true → attempts after.notes = []) ∧
      (attempts after.notes = [] →
        ∃ earlier last decorators front tried closing outcome dropped,
          attempts before.notes = (earlier ++ [last]).zipIdx 1 ∧
          before ++ after = front ++ .noted (.attempting last (earlier ++ [last]).length) ::
            (tried ++ (closing ++ (resultNotes d ctx result ++ [Note.telemetry .dispose]).map
              .noted)) ∧
          (disp.attempt type call d ctx decorators last (earlier ++ [last]).length).Unfolds tried
            outcome ∧
          d.Closes disp.board (earlier ++ [last]) last outcome closing dropped result ∧
          ∀ next, dropped = some next →
            .fallback next ∉ reports (History.notes (before ++ after)))) := by
  refine ⟨fun key number hattempt => ⟨fun hmoment => ?_, ?_⟩, fun hbegun => ⟨fun hmoment => ?_,
    fun hnone => ?_⟩⟩
  · exact number_eq_one_of_givesWay hd hu hf hmoment hattempt
  · exact exists_forestalled_of_forsaken hd hu hf hattempt
  · have hattempts : attempts (History.notes (before ++ after)) ≠ [] := by
      simp [hbegun]
    obtain ⟨earlier, last, -, -, -, -, -, -, hall, -⟩ :=
      exists_closes_of_unfolds_invoke hd hu hattempts
    rw [History.notes_append, attempts_append] at hall
    exact eq_nil_of_append_eq_zipIdx hall hbegun fun attempt hattempt =>
      number_eq_one_of_givesWay hd hu hf hmoment hattempt
  · have hall : attempts (History.notes (before ++ after)) = attempts before.notes := by
      simp [hnone]
    obtain ⟨earlier, last, decorators, front, tried, closing, outcome, dropped, hattempts, hsteps,
      htried, hcloses⟩ := exists_closes_of_unfolds_invoke hd hu (hall ▸ hbegun)
    refine ⟨earlier, last, decorators, front, tried, closing, outcome, dropped,
      hall ▸ hattempts, hsteps, htried, hcloses, ?_⟩
    rintro next rfl hreport
    obtain ⟨number, hnext⟩ := exists_attempt_of_fallback hu hreport
    exact hcloses.dropped_notMem (List.fst_mem_of_mem_zipIdx (hattempts ▸ hnext))

/-! ### A delivery that is recalled -/

/-- The express courier recalls the parcel: it cancels the delivery and fails. -/
def recallingCall : Implementation → Work KillSwitch Yield
  | .text "express" => .cancel (.done (.failure "no courier"))
  | _ => .done (.output "delivered")

/-- The steps of a delivery that is recalled. -/
def recalledDelivery : History KillSwitch :=
  (deliveryDispatcher.invoke .text recallingCall deliveryContext).history .live
    ⟨0, .empty 8, KillSwitch.allOn⟩

theorem unfolds_recalledDelivery :
    (deliveryDispatcher.invoke .text recallingCall deliveryContext).Unfolds
      (recalledDelivery.take 17 ++ recalledDelivery.drop 17)
      (.error (.cancelled (some ⟨"express"⟩))) := by
  have hvalue : ((deliveryDispatcher.invoke .text recallingCall deliveryContext).run .live
      ⟨0, .empty 8, KillSwitch.allOn⟩).value = .error (.cancelled (some ⟨"express"⟩)) := by
    decide +kernel
  rw [List.take_append_drop, ← hvalue]
  exact Program.unfolds_history _ _ _

/-- The delivery fails with `pickup` left to replay on, which is not done any more. -/
theorem recalledDelivery_stops :
    deliveryDispatcher.registry.get? deliveryContext.contract = some delivery ∧
    (deliveryDispatcher.invoke .text recallingCall deliveryContext).Unfolds
      (recalledDelivery.take 17 ++ recalledDelivery.drop 17)
      (.error (.cancelled (some ⟨"express"⟩))) ∧
    History.Forsaken (recalledDelivery.drop 17) ∧
    History.givesWay (recalledDelivery.take 17) = true ∧
    attempts (History.notes (recalledDelivery.take 17)) = [(⟨"express"⟩, 1)] ∧
    attempts (History.notes (recalledDelivery.drop 17)) = [] ∧
    ∃ decorators tried closing outcome dropped,
      (deliveryDispatcher.attempt .text recallingCall delivery deliveryContext decorators
        ⟨"express"⟩ 1).Unfolds tried outcome ∧
      delivery.Closes deliveryDispatcher.board [⟨"express"⟩] ⟨"express"⟩ outcome closing dropped
        (.error (.cancelled (some ⟨"express"⟩))) := by
  have hf : History.Forsaken (recalledDelivery.drop 17) := by
    decide +kernel
  have hmoment : History.givesWay (recalledDelivery.take 17) = true := by
    decide +kernel
  have hattempts : attempts (History.notes (recalledDelivery.take 17)) = [(⟨"express"⟩, 1)] := by
    decide +kernel
  obtain ⟨-, hstops⟩ := cancellation_stops_replays (d := delivery) rfl
    unfolds_recalledDelivery hf
  obtain ⟨hnone, hends⟩ := hstops (by simp [hattempts])
  obtain ⟨earlier, last, decorators, front, tried, closing, outcome, dropped, hlast, -, htried,
    hcloses, -⟩ := hends (hnone hmoment)
  have hkeys : [] ++ [⟨"express"⟩] = earlier ++ [last] := by
    have hkeys := congrArg (List.map Prod.fst) (hattempts.symm.trans hlast)
    rwa [List.zipIdx_map_fst] at hkeys
  obtain ⟨hearlier, hexpress⟩ := List.append_inj' hkeys rfl
  cases hexpress
  subst hearlier
  exact ⟨rfl, unfolds_recalledDelivery, hf, hmoment, hattempts, hnone hmoment, decorators, tried,
    closing, outcome, dropped, htried, hcloses⟩

end Dispatcher

end TrialRouting
