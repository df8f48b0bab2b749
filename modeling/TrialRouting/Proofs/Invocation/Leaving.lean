import TrialRouting.Proofs.Attempt.Leaving
import TrialRouting.Proofs.Invocation.Attempt
import TrialRouting.Proofs.Invocation.Switches
import TrialRouting.Proofs.Replay.Exchange

/-!
# TrialRouting.Proofs.Invocation.Leaving

What the decorators of an invocation can do to it.  `Dispatcher.Tries` lists how
an attempt of an invocation may go: it runs the chain of decorators around the
implementation that was found, unless none is found.  What leaves the outermost
decorator is then all that the rest of the invocation hears of the attempt
(`outermost_decides`).
-/

namespace TrialRouting

variable {σ : Type}

namespace Dispatcher

/-! ## One attempt -/

/-- How an attempt of an invocation may go: its steps and its outcome. -/
inductive Tries (disp : Dispatcher σ) (type : ImplementationType)
    (call : Implementation → Work σ Yield) (d : Definition σ) (ctx : Context)
    (decorators : List (Decorator σ)) (key : TrialKey) (number : Nat) :
    History σ → AttemptOutcome → Prop where
  | unregistered : d.trials.get? key = none →
    Tries disp type call d ctx decorators key number []
      (.unresolvable (.notRegistered d.contract key))
  | unresolved {trial : Trial} (s : σ) (e : ResolveError) : d.trials.get? key = some trial →
    Tries disp type call d ctx decorators key number
      [.noted (.resolving d.contract trial), .acted id s] (.unresolvable e)
  | ran {trial : Trial} {s : σ} {i : Implementation} {h : History σ} {o : AttemptOutcome} :
    d.trials.get? key = some trial → disp.resolver d.contract trial s = .ok i →
    (runAttempt decorators (.of ctx key number) (call i) (disp.attemptBudget d)).Unfolds h o →
    Tries disp type call d ctx decorators key number
      (.noted (.resolving d.contract trial) :: .acted id s ::
        .noted (.event (.attemptStarted key number d.contract)) :: h) o

variable {disp : Dispatcher σ} {type : ImplementationType}
  {call : Implementation → Work σ Yield} {d : Definition σ} {ctx : Context}
  {decorators : List (Decorator σ)} {key : TrialKey} {number : Nat} {h : History σ}

/-- **An attempt goes in no other way.** -/
theorem tries_of_unfolds {o : AttemptOutcome}
    (hu : (disp.attempt type call d ctx decorators key number).Unfolds h o) :
    disp.Tries type call d ctx decorators key number h o := by
  unfold attempt at hu
  cases htrial : d.trials.get? key with
  | none =>
      simp only [htrial] at hu
      cases hu
      exact .unregistered htrial
  | some trial =>
      simp only [htrial] at hu
      obtain ⟨found, _, _, rfl, hfound, hu⟩ := Program.unfolds_bind hu
      obtain ⟨s, rfl, hresolved⟩ := unfolds_implementation hfound
      cases found with
      | error e =>
          cases hu
          exact .unresolved s e htrial
      | ok i =>
          cases hu with
          | note _ hu => exact .ran htrial (hresolved i rfl) hu

/-- What decides an attempt: that there is no implementation, that it is cut, or else what leaves its
outermost decorator. -/
inductive Judged (disp : Dispatcher σ) (call : Implementation → Work σ Yield) (d : Definition σ)
    (ctx : Context) (decorators : List (Decorator σ)) (key : TrialKey) (number : Nat)
    (h : History σ) : AttemptOutcome → Prop where
  | unresolvable (e : ResolveError) :
    Judged disp call d ctx decorators key number h (.unresolvable e)
  | cancelled : Judged disp call d ctx decorators key number h .cancelled
  | timedOut {limit : Duration} : disp.attemptBudget d = some limit →
    Judged disp call d ctx decorators key number h (.timedOut limit)
  | left {trial : Trial} {s : σ} {i : Implementation} {steps : History σ} {y : Yield}
    {o : AttemptOutcome} :
    d.trials.get? key = some trial → disp.resolver d.contract trial s = .ok i →
    h.own = .noted (.resolving d.contract trial) :: .acted id s ::
      .noted (.event (.attemptStarted key number d.contract)) :: steps →
    Leaves (.of ctx key number) (call i) decorators steps y → CountsAs o y →
    Judged disp call d ctx decorators key number h o

theorem Tries.judged {o : AttemptOutcome}
    (ht : disp.Tries type call d ctx decorators key number h o) :
    disp.Judged call d ctx decorators key number h o := by
  cases ht with
  | unregistered _ => exact .unresolvable _
  | unresolved s e _ => exact .unresolvable e
  | ran htrial hresolved hu =>
      obtain rfl | ⟨limit, hlimit, rfl⟩ | ⟨y, hleaves, rfl⟩ := outcome_cases hu
      · exact .cancelled
      · exact .timedOut hlimit
      · exact .left htrial hresolved rfl hleaves (countsAs_verdict y)

/-! ## The whole invocation -/

/-- **What leaves the outermost decorator decides.**  An attempt that is not cut by its budget or a
cancellation counts as the value that leaves its chain of decorators, wherever that value comes from:
as a success with an output of the call's type, as the trial's failure with an error of that type, and
as a fault of the pipeline otherwise, with the foreign error or the fixed text for a foreign output.
Whatever may leave a chain may decide an attempt so.

In an invocation the rest hears of an attempt nothing but this.  After a success the invocation ends
with its output, also if the trial has failed, and after a fault of the pipeline with that fault, under
every policy and at every attempt; nothing comes between but the reports of the end.  What follows a
failure is what follows this failure of the trial, whoever made it: any other program that ends alike,
such as a trial without decorators that fails with that error itself, can take the place of the attempt,
and the invocation goes on by the same steps to the same result. -/
theorem outermost_decides (disp : Dispatcher σ) (type : ImplementationType)
    (call : Implementation → Work σ Yield) (ctx : Context) :
    (∀ (ds : List (Decorator σ)) (a : Attempt) (trial : Work σ Yield) (budget : Option Duration)
      (h : History σ) (o : AttemptOutcome), (runAttempt ds a trial budget).Unfolds h o →
      o = .cancelled ∨ (∃ after, budget = some after ∧ o = .timedOut after) ∨
        ∃ y, Leaves a trial ds h.own y ∧ CountsAs o y) ∧
    (∀ (ds : List (Decorator σ)) (a : Attempt) (trial : Work σ Yield) (steps : History σ) (y : Yield),
      Leaves a trial ds steps y →
      ∃ h o, (runAttempt ds a trial none).Unfolds h o ∧ h.own = steps ∧ CountsAs o y) ∧
    ∀ (d : Definition σ) (h : History σ) (result : Except DispatchError String),
      disp.registry.get? ctx.contract = some d → (disp.invoke type call ctx).Unfolds h result →
      ∀ earlier key number after, h = earlier ++ .noted (.attempting key number) :: after →
      ∃ (decision : Decision) (decorators : List (Decorator σ)) (made opened front tried : History σ)
        (outcome : AttemptOutcome) (rest : History σ),
        let attempt := disp.attempt type call d ctx decorators
        earlier = opened ++ front ∧
        after = tried ++ (rest ++ (resultNotes d ctx result ++ [Note.telemetry .dispose]).map .noted) ∧
        (createDecorators ctx d.decorators).Unfolds made decorators ∧
        (attempt key number).Unfolds tried outcome ∧
        disp.Judged call d ctx decorators key number tried outcome ∧
        (∀ value, outcome = .success value → rest = [] ∧ result = .ok value) ∧
        (∀ error, outcome = .pipeline error →
          rest = [] ∧ result = .error (.pipeline key error)) ∧
        (∃ attempted : List TrialKey, number = attempted.length ∧
          (d.afterwards disp.board attempt attempted key outcome).Unfolds rest result) ∧
        ∀ p tried', p.Unfolds tried' outcome →
          (d.replay disp.board (Definition.exchange attempt key p) [] decision.trial).Unfolds
            (front ++ .noted (.attempting key number) :: (tried' ++ rest)) result := by
  refine ⟨fun ds a trial budget h o hu => ?_, fun ds a trial steps y hleaves => ?_,
    fun d h result hd hu earlier key number after hsplit => ?_⟩
  · obtain hcut | hcut | ⟨y, hleaves, rfl⟩ := outcome_cases hu
    · exact .inl hcut
    · exact .inr (.inl hcut)
    · exact .inr (.inr ⟨y, hleaves, countsAs_verdict y⟩)
  · obtain ⟨h, hu, hown⟩ := exists_unfolds_of_leaves hleaves
    exact ⟨h, _, hu, hown, countsAs_verdict y⟩
  · obtain ⟨decision, decorators, later, decided, opened, front, inside, hearlier, rfl, -,
      ⟨made, hmade⟩, -, hturns⟩ := exists_turns_of_attempting hd hu hsplit
    obtain ⟨attempted, tried, outcome, rest, hnumber, rfl, htried, hrest, hexchange⟩ :=
      hturns.exists_exchange attempts_of_attempt (hturns.nodup (List.nodup_singleton _)) rfl
    refine ⟨decision, decorators, made, decided ++ opened, front, tried, outcome, rest, ?_, ?_, hmade,
      htried, (tries_of_unfolds htried).judged, ?_, ?_, ⟨attempted, hnumber, hrest⟩,
      fun p tried' hp => ?_⟩
    · rw [hearlier, List.append_assoc]
    · rw [List.append_assoc]
    · rintro value rfl
      exact Definition.unfolds_afterwards_success hrest
    · rintro error rfl
      exact Definition.unfolds_afterwards_pipeline hrest
    · exact (hexchange p tried' hp).unfolds

/-! ### Deliveries that are inspected -/

/-- Declares the parcel of a first attempt damaged, as a courier would, and loses the papers of every
other one. -/
def inspector : Decorator KillSwitch where
  name := "inspector"
  around a := .done <| .proceed fun _ =>
    .done (if a.isReplay then .foreignFailure "papers lost" else .failure "damaged")

def inspectedDelivery : Definition KillSwitch :=
  { delivery with decorators := [.constant "inspector" fun _ => inspector] }

def inspectedDispatcher : Dispatcher KillSwitch :=
  { deliveryDispatcher with registry := ⟨[inspectedDelivery], by decide⟩ }

/-- Every courier delivers. -/
def punctualCall : Implementation → Work KillSwitch Yield :=
  fun _ => .done (.output "delivered")

def inspectedHistory : History KillSwitch :=
  (inspectedDispatcher.invoke .text punctualCall deliveryContext).history .live
    ⟨0, .empty 8, KillSwitch.allOn⟩

/-- What leaves the inspector. -/
theorem leaves_inspector {a : Attempt} {i : Implementation} {steps : History KillSwitch} {y : Yield}
    (hl : Leaves a (punctualCall i) [inspector] steps y) :
    y = if a.isReplay then .foreignFailure "papers lost" else .failure "damaged" := by
  cases hl with
  | settled _ haround => cases haround
  | passed haround _ hafter =>
      cases haround
      cases hafter
      rfl

theorem unfolds_create_inspector {made : History KillSwitch} {decorators : List (Decorator KillSwitch)}
    (hmade : (createDecorators deliveryContext inspectedDelivery.decorators).Unfolds made decorators) :
    decorators = [inspector] := by
  cases hmade with
  | note _ hmade =>
      cases hmade with
      | act _ s hmade =>
          cases hmade
          rfl

/-- The first courier delivers and is declared to have failed: the parcel is sent again, just as it
would be if the courier had failed without any inspector.  The second one delivers too, and the
invocation ends with the inspector's fault. -/
theorem outermost_decides_inspected :
    inspectedDispatcher.registry.get? deliveryContext.contract = some inspectedDelivery ∧
    (inspectedDispatcher.invoke .text punctualCall deliveryContext).Unfolds inspectedHistory
      (.error (.pipeline ⟨"pickup"⟩ "papers lost")) ∧
    attempts inspectedHistory.notes = [(⟨"express"⟩, 1), (⟨"pickup"⟩, 2)] ∧
    ∃ (decision : Decision) (front tried rest : History KillSwitch),
      let attempt := inspectedDispatcher.attempt .text punctualCall inspectedDelivery deliveryContext
        [inspector]
      (attempt ⟨"express"⟩ 1).Unfolds tried (.failed "damaged") ∧
      (inspectedDelivery.replay inspectedDispatcher.board
        (Definition.exchange attempt ⟨"express"⟩ (.done (.failed "damaged"))) []
        decision.trial).Unfolds (front ++ .noted (.attempting ⟨"express"⟩ 1) :: rest)
        (.error (.pipeline ⟨"pickup"⟩ "papers lost")) := by
  have hvalue : ((inspectedDispatcher.invoke .text punctualCall deliveryContext).run .live
      ⟨0, .empty 8, KillSwitch.allOn⟩).value = .error (.pipeline ⟨"pickup"⟩ "papers lost") := by
    decide +kernel
  have hattempts : attempts inspectedHistory.notes = [(⟨"express"⟩, 1), (⟨"pickup"⟩, 2)] := by
    decide +kernel
  have hu := Program.unfolds_history
    (inspectedDispatcher.invoke .text punctualCall deliveryContext) .live
    ⟨0, .empty 8, KillSwitch.allOn⟩
  rw [hvalue] at hu
  have hfirst : (⟨"express"⟩, 1) ∈ attempts inspectedHistory.notes := by
    simp [hattempts]
  obtain ⟨earlier, after, hsplit⟩ :=
    List.append_of_mem (History.mem_notes_iff.mp (mem_attempts_iff.mp hfirst))
  obtain ⟨-, -, hinvoke⟩ := outermost_decides inspectedDispatcher .text punctualCall deliveryContext
  obtain ⟨decision, decorators, made, opened, front, tried, outcome, rest, -, -, hmade, htried,
    hjudged, -, -, ⟨_, -, hrest⟩, hexchange⟩ :=
    hinvoke inspectedDelivery inspectedHistory _ rfl hu earlier _ _ after hsplit
  obtain rfl := unfolds_create_inspector hmade
  have houtcome : outcome = .failed "damaged" := by
    cases hjudged with
    | unresolvable e => cases hrest
    | cancelled => cases hrest
    | timedOut hlimit => cases hlimit
    | left _ _ _ hleaves hcounts => exact (hcounts.failed _).mpr (leaves_inspector hleaves)
  subst houtcome
  exact ⟨rfl, hu, hattempts, decision, front, tried, rest, htried, hexchange _ [] (.done _)⟩

end Dispatcher

end TrialRouting
