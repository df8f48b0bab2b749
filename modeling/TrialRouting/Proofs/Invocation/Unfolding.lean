import TrialRouting.Proofs.Invocation
import TrialRouting.Proofs.Replay.Turns
import TrialRouting.Proofs.Unfolding.Guarded

/-!
# TrialRouting.Proofs.Invocation.Unfolding

An invocation, whatever others do meanwhile.  Each part of it has an inductive
that lists the ways in which the part may go, and a theorem that says that it
goes in no other way:

* `DecisionCache.Looks` — looking a decision up, and making it after a won
  claim;
* `Dispatcher.Replaces` — putting the default trial in the place of one that is
  found off;
* `Dispatcher.Decides` — the decision;
* `Dispatcher.Creates` — making the decorators, which has one way to go;
* `Dispatcher.Serves` — the whole invocation, with its attempts as a row of
  turns.

Later proofs take an invocation apart by `serves_of_unfolds` and never open
`Dispatcher.invoke` again.
-/

namespace TrialRouting

variable {σ : Type}

/-! ## Looking a decision up -/

namespace DecisionCache

/-- How a look-up may go: its steps, and the decision that it comes to. -/
inductive Looks (key : DecisionKey) (resolve : Work σ Decision) :
    History σ → Option Decision → Prop where
  | cancelled : Looks key resolve [.asked true] none
  | abandoned : Looks key resolve [.asked false, .claimed key .abandoned] none
  | found (kept : Decision) :
    Looks key resolve [.asked false, .claimed key (.hit kept), .tracked key] (some kept)
  | unmade {tried : History σ} {g : Program.Guarded Decision} :
    (Program.unlessCancelled (Program.guarded none resolve)).Unfolds tried g →
    Looks key resolve (.asked false :: .claimed key .won :: .noted (.selecting key) ::
      (tried ++ [.settled key none])) none
  | made {tried : History σ} {kept : Decision} :
    (Program.unlessCancelled (Program.guarded none resolve)).Unfolds tried (.finished kept) →
    Looks key resolve (.asked false :: .claimed key .won :: .noted (.selecting key) ::
      (tried ++ [.settled key (some kept), .tracked key])) (some kept)

variable {key : DecisionKey} {resolve : Work σ Decision} {h : History σ} {value : Option Decision}

theorem looks_of_unfolds (hu : (getOrResolve key resolve).Unfolds h value) :
    Looks key resolve h value := by
  cases hu with
  | cancelled c hu =>
      cases c with
      | true =>
          cases hu
          exact .cancelled
      | false =>
          cases hu with
          | claim _ answer hu =>
              cases answer with
              | hit kept =>
                  cases hu with
                  | track _ hu =>
                      cases hu
                      exact .found kept
              | abandoned =>
                  cases hu
                  exact .abandoned
              | won =>
                  cases hu with
                  | note _ hu =>
                      obtain ⟨g, tried, _, rfl, htried, hu⟩ := Program.unfolds_bind hu
                      cases g with
                      | finished kept =>
                          cases hu with
                          | settle _ _ hu =>
                              cases hu with
                              | track _ hu =>
                                  cases hu
                                  exact .made htried
                      | expired =>
                          cases hu with
                          | settle _ _ hu =>
                              cases hu
                              exact .unmade htried
                      | cancelled =>
                          cases hu with
                          | settle _ _ hu =>
                              cases hu
                              exact .unmade htried

/-- What is noted while a decision is looked up. -/
theorem notesOnly_getOrResolve {P : Note → Prop} (hselecting : P (.selecting key))
    (hresolve : (Program.guarded none resolve).Plain P) :
    (getOrResolve key resolve).NotesOnly P := by
  intro c
  cases c with
  | true => trivial
  | false =>
      intro answer
      cases answer with
      | hit kept => trivial
      | abandoned => trivial
      | won =>
          refine ⟨hselecting, Program.notesOnly_bind ?_ fun g => ?_⟩
          · intro c
            cases c with
            | true => trivial
            | false => exact hresolve.notesOnly
          · cases g <;> trivial

/-- Guarded work that finished was not cancelled before. -/
theorem yields_of_unfolds_unlessCancelled {tried : History σ} {kept : Decision}
    (hu : (Program.unlessCancelled (Program.guarded none resolve)).Unfolds tried
      (.finished kept)) : resolve.Yields kept := by
  cases hu with
  | cancelled c hu =>
      cases c with
      | true => cases hu
      | false => exact Program.yields_of_unfolds_guarded hu

end DecisionCache

namespace Dispatcher

variable (disp : Dispatcher σ) (d : Definition σ) (ctx : Context)

/-! ## The decision -/

/-- What the switches make of a decision: nothing, or the default trial in its place. -/
inductive Replaces (decision : Decision) : History σ → Decision → Prop where
  | default : decision.trial = d.trials.defaultKey → Replaces decision [] decision
  | on (s : σ) : decision.trial ≠ d.trials.defaultKey →
    disp.board.trialDisabled s d.contract decision.trial = false →
    Replaces decision [.acted id s] decision
  | off (s : σ) : decision.trial ≠ d.trials.defaultKey →
    disp.board.trialDisabled s d.contract decision.trial = true →
    Replaces decision
      [.acted id s,
        .noted (.event (.trialSkipped decision.trial d.contract d.trials.defaultKey))]
      (.substituted d.trials.defaultKey decision.candidates (.trialDisabled decision.trial))

/-- How deciding may go. -/
inductive Decides : History σ → Option Decision → Prop where
  | disabled (s : σ) : disp.board.experimentDisabled s d.contract = true →
    Decides
      [.acted id s, .noted (.event (.experimentSkipped d.contract d.trials.defaultKey))]
      (some (.substituted d.trials.defaultKey d.strategy.candidates .experimentDisabled))
  | undecided (s : σ) {looked : History σ} :
    disp.board.experimentDisabled s d.contract = false →
    DecisionCache.Looks ⟨d.contract, ctx.scope⟩ (d.select ctx) looked none →
    Decides (.acted id s :: looked) none
  | decided (s : σ) {looked replaced : History σ} {kept decision : Decision} :
    disp.board.experimentDisabled s d.contract = false →
    DecisionCache.Looks ⟨d.contract, ctx.scope⟩ (d.select ctx) looked (some kept) →
    disp.Replaces d kept replaced decision →
    Decides (.acted id s :: (looked ++ replaced)) (some decision)

variable {disp d ctx} {h : History σ}

/-- A selection remarks what its strategy remarks, and tells the log how it went. -/
theorem remarks_select {P : Remark → Prop} (hevent : ∀ e, P (.event e))
    (hresolve : (d.strategy.resolve ctx).Remarks P) : (d.select ctx).Remarks P := by
  have hdefault (error : SelectionError) : (d.substituteDefault ctx error).Remarks P :=
    ⟨hevent _, trivial⟩
  refine Work.remarks_bind hresolve fun answer _ => ?_
  cases answer with
  | error error => exact hdefault error
  | ok key =>
      dsimp only
      split
      · exact ⟨hevent _, trivial⟩
      · exact hdefault _

theorem replaces_of_unfolds {kept decision : Decision}
    (hu : (disp.replaceDisabled d kept).Unfolds h decision) : disp.Replaces d kept h decision := by
  rw [replaceDisabled] at hu
  split at hu
  · next hdefault =>
      cases hu
      exact .default hdefault
  · next hother =>
      obtain ⟨off, _, _, rfl, hview, hu⟩ := Program.unfolds_bind hu
      obtain ⟨s, rfl, hoff⟩ := Program.unfolds_view hview
      cases off with
      | false =>
          cases hu
          exact .on s hother hoff.symm
      | true =>
          cases hu with
          | note _ hu =>
              cases hu
              exact .off s hother hoff.symm

theorem decides_of_unfolds {value : Option Decision} (hu : (disp.decide d ctx).Unfolds h value) :
    disp.Decides d ctx h value := by
  obtain ⟨off, _, _, rfl, hview, hu⟩ := Program.unfolds_bind hu
  obtain ⟨s, rfl, hoff⟩ := Program.unfolds_view hview
  cases off with
  | true =>
      cases hu with
      | note _ hu =>
          cases hu
          exact .disabled s hoff.symm
  | false =>
      obtain ⟨kept, looked, _, rfl, hlooked, hu⟩ := Program.unfolds_bind hu
      cases kept with
      | none =>
          cases hu
          rw [List.append_nil]
          exact .undecided s hoff.symm (DecisionCache.looks_of_unfolds hlooked)
      | some kept =>
          obtain ⟨decision, replaced, _, rfl, hreplaced, hu⟩ := Program.unfolds_bind hu
          cases hu
          have hdecides := Decides.decided s hoff.symm (DecisionCache.looks_of_unfolds hlooked)
            (replaces_of_unfolds hreplaced)
          rw [List.append_nil]
          exact hdecides

/-- What is noted while an invocation decides. -/
theorem notesOnly_decide {P : Note → Prop} (hevent : ∀ e, P (.event e))
    (hselecting : P (.selecting ⟨d.contract, ctx.scope⟩))
    (hselect : (Program.guarded none (d.select ctx)).Plain P) :
    (disp.decide d ctx).NotesOnly P := by
  refine Program.notesOnly_bind (Program.plain_view _).notesOnly fun off => ?_
  cases off with
  | true => exact ⟨hevent _, trivial⟩
  | false =>
      refine Program.notesOnly_bind (DecisionCache.notesOnly_getOrResolve hselecting hselect)
        fun kept => ?_
      cases kept with
      | none => trivial
      | some kept =>
          refine Program.notesOnly_bind ?_ fun _ => trivial
          rw [replaceDisabled]
          split
          · trivial
          · refine Program.notesOnly_bind (Program.plain_view _).notesOnly fun off => ?_
            cases off with
            | false => trivial
            | true => exact ⟨hevent _, trivial⟩

theorem attempts_of_inward {α : Type} {p : Program σ α} (hp : p.Plain Note.Inward) {a : α}
    (hu : p.Unfolds h a) : attempts h.notes = [] :=
  attempts_eq_nil_of_forall fun n hn => (Program.forall_mem_notes hp.notesOnly hu n hn).attempt

theorem attempts_of_decide {value : Option Decision} (hu : (disp.decide d ctx).Unfolds h value) :
    attempts h.notes = [] := by
  refine attempts_eq_nil_of_forall (Program.forall_mem_notes (notesOnly_decide ?_ ?_ ?_) hu)
  · exact fun _ => rfl
  · rfl
  · exact Program.plain_guarded (fun _ => rfl) _ _

theorem attempts_of_attempt {type : ImplementationType} {call : Implementation → Work σ Yield}
    {decorators : List (Decorator σ)} (key : TrialKey) (number : Nat) (h : History σ)
    (outcome : AttemptOutcome)
    (hu : (disp.attempt type call d ctx decorators key number).Unfolds h outcome) :
    attempts h.notes = [] :=
  attempts_of_inward (plain_attempt disp type call d ctx decorators key number) hu

/-! ## The decorators -/

/-- How decorators are made: one after the other, each by its factory. -/
inductive Creates (ctx : Context) :
    List (DecoratorFactory σ) → History σ → List (Decorator σ) → Prop where
  | nil : Creates ctx [] [] []
  | cons (f : DecoratorFactory σ) (s : σ) {fs : List (DecoratorFactory σ)} {h : History σ}
    {decorators : List (Decorator σ)} :
    Creates ctx fs h decorators →
    Creates ctx (f :: fs)
      (.noted (.creating f.name) :: .acted (fun s => (f.create ctx s).2.1) s ::
        (((f.create ctx s).2.2.map Note.remark).map .noted ++ h))
      ((f.create ctx s).1 :: decorators)

theorem creates_of_unfolds {fs : List (DecoratorFactory σ)} {decorators : List (Decorator σ)}
    (hu : (createDecorators ctx fs).Unfolds h decorators) : Creates ctx fs h decorators := by
  induction fs generalizing h decorators with
  | nil =>
      cases hu
      exact .nil
  | cons f fs ih =>
      cases hu with
      | note _ hu =>
          obtain ⟨⟨made, rs⟩, _, _, rfl, hmade, hu⟩ := Program.unfolds_bind hu
          obtain ⟨_, _, _, rfl, htold, hu⟩ := Program.unfolds_bind hu
          obtain ⟨rest, _, _, rfl, hrest, hu⟩ := Program.unfolds_bind hu
          cases hu
          obtain rfl := Program.unfolds_tellAll htold
          cases hmade with
          | act _ s hmade =>
              cases hmade
              rw [List.append_nil]
              exact .cons f s (ih hrest)

/-- Decorators are made by the factories, whose remarks are all that is noted of it but their names. -/
theorem Creates.made {fs : List (DecoratorFactory σ)} {decorators : List (Decorator σ)}
    (hc : Creates ctx fs h decorators) :
    (∀ dec ∈ decorators, ∃ f ∈ fs, ∃ s, (f.create ctx s).1 = dec) ∧
      ∀ n ∈ h.notes, ∃ f ∈ fs, n = .creating f.name ∨
        ∃ s, ∃ r ∈ (f.create ctx s).2.2, n = .remark r := by
  induction hc with
  | nil => simp
  | cons f s _ ih =>
      obtain ⟨hdecorators, hnotes⟩ := ih
      constructor
      · refine List.forall_mem_cons.mpr ⟨⟨f, List.mem_cons_self, s, rfl⟩, fun dec hdec => ?_⟩
        obtain ⟨f', hf', hcreate⟩ := hdecorators dec hdec
        exact ⟨f', List.mem_cons_of_mem f hf', hcreate⟩
      · intro n hn
        simp only [History.notes_noted, History.notes_acted, History.notes_append,
          History.notes_map_noted, List.mem_cons, List.mem_append] at hn
        obtain rfl | hn | hn := hn
        · exact ⟨f, List.mem_cons_self, .inl rfl⟩
        · obtain ⟨r, hr, rfl⟩ := List.mem_map.mp hn
          exact ⟨f, List.mem_cons_self, .inr ⟨s, r, hr, rfl⟩⟩
        · obtain ⟨f', hf', hnote⟩ := hnotes n hn
          exact ⟨f', List.mem_cons_of_mem f hf', hnote⟩

/-! ## The whole invocation -/

variable (disp ctx) (type : ImplementationType) (call : Implementation → Work σ Yield)

/-- How an invocation may go: its steps and its result. -/
inductive Serves : History σ → Except DispatchError String → Prop where
  | unknown : disp.registry.get? ctx.contract = none →
    Serves [.noted (.event (.experimentMissing ctx.contract))]
      (.error (.definitionNotFound ctx.contract))
  | undecided {d : Definition σ} {decided : History σ} :
    disp.registry.get? ctx.contract = some d →
    (disp.decide d ctx).Unfolds decided none →
    Serves decided (.error (.cancelled none))
  | served {d : Definition σ} {decision : Decision} {decorators : List (Decorator σ)}
    {later : List TrialKey} {decided made tried : History σ}
    {result : Except DispatchError String} :
    disp.registry.get? ctx.contract = some d →
    (disp.decide d ctx).Unfolds decided (some decision) →
    (createDecorators ctx d.decorators).Unfolds made decorators →
    d.Turns disp.board (disp.attempt type call d ctx decorators) [] decision.trial later tried
      result →
    Serves
      (decided ++ (((openingReports d ctx decision).map Note.telemetry).map .noted ++
        (made ++ (tried ++ (resultNotes d ctx result ++ [Note.telemetry .dispose]).map .noted))))
      result

variable {disp ctx type call}

/-- **An invocation goes in no other way.** -/
theorem serves_of_unfolds {result : Except DispatchError String}
    (hu : (disp.invoke type call ctx).Unfolds h result) : disp.Serves ctx type call h result := by
  cases hd : disp.registry.get? ctx.contract with
  | none =>
      rw [invoke_of_get?_none hd] at hu
      cases hu with
      | note _ hu =>
          cases hu
          exact .unknown hd
  | some d =>
      rw [invoke_of_get? hd] at hu
      obtain ⟨value, decided, _, rfl, hdecided, hu⟩ := Program.unfolds_bind hu
      cases value with
      | none =>
          cases hu
          rw [List.append_nil]
          exact .undecided hd hdecided
      | some decision =>
          obtain ⟨_, _, _, rfl, hopened, hu⟩ := Program.unfolds_bind hu
          obtain ⟨decorators, made, _, rfl, hmade, hu⟩ := Program.unfolds_bind hu
          obtain ⟨result', tried, _, rfl, htried, hu⟩ := Program.unfolds_bind hu
          obtain ⟨_, _, _, rfl, hclosed, hu⟩ := Program.unfolds_bind hu
          cases hu
          obtain rfl := Program.unfolds_tellAll hopened
          obtain rfl := Program.unfolds_tellAll hclosed
          obtain ⟨later, hturns⟩ := Definition.turns_of_unfolds htried
          rw [List.append_nil]
          exact .served hd hdecided hmade hturns

section

variable {decision : Decision} {decorators : List (Decorator σ)} {later : List TrialKey}
  {decided made tried : History σ} {result : Except DispatchError String}

theorem attempts_of_opening (decision : Decision)
    (hmade : (createDecorators ctx d.decorators).Unfolds made decorators) :
    attempts (History.notes (((openingReports d ctx decision).map Note.telemetry).map Step.noted ++
      made)) = [] := by
  rw [History.notes_append, History.notes_map_noted, attempts_append, attempts_openingReports,
    attempts_of_inward (plain_createDecorators ctx d.decorators) hmade]
  rfl

theorem attempts_of_closing (d : Definition σ) (ctx : Context)
    (result : Except DispatchError String) :
    attempts (History.notes ((resultNotes d ctx result ++ [Note.telemetry .dispose]).map
      Step.noted : History σ)) = [] := by
  rw [History.notes_map_noted, attempts_append, attempts_resultNotes]
  rfl

/-- The attempts of an invocation are those of its turns. -/
theorem attempts_of_served (hdecided : (disp.decide d ctx).Unfolds decided (some decision))
    (hmade : (createDecorators ctx d.decorators).Unfolds made decorators)
    (hturns : d.Turns disp.board (disp.attempt type call d ctx decorators) [] decision.trial later
      tried result) :
    attempts (History.notes (decided ++
        (((openingReports d ctx decision).map Note.telemetry).map .noted ++
          (made ++ (tried ++ (resultNotes d ctx result ++ [Note.telemetry .dispose]).map
            .noted))))) =
      (decision.trial :: later).zipIdx 1 := by
  rw [← List.append_assoc _ made, History.notes_append, attempts_append,
    attempts_of_decide hdecided, History.notes_append, attempts_append,
    attempts_of_opening decision hmade, History.notes_append, attempts_append, attempts_of_closing,
    hturns.attempts attempts_of_attempt]
  exact List.append_nil _

end

/-- The attempts of an invocation begin in its turns, which follow its decision. -/
theorem exists_turns_of_attempting {result : Except DispatchError String}
    (hd : disp.registry.get? ctx.contract = some d)
    (hu : (disp.invoke type call ctx).Unfolds h result) {before after : History σ} {key : TrialKey}
    {number : Nat} (hsplit : h = before ++ .noted (.attempting key number) :: after) :
    ∃ decision decorators later decided opened earlier rest,
      before = decided ++ (opened ++ earlier) ∧
      after = rest ++ (resultNotes d ctx result ++ [Note.telemetry .dispose]).map .noted ∧
      (disp.decide d ctx).Unfolds decided (some decision) ∧
      (∃ made, (createDecorators ctx d.decorators).Unfolds made decorators) ∧
      attempts opened.notes = [] ∧
      d.Turns disp.board (disp.attempt type call d ctx decorators) [] decision.trial later
        (earlier ++ .noted (.attempting key number) :: rest) result := by
  cases serves_of_unfolds hu with
  | unknown hnone =>
      rw [hd] at hnone
      cases hnone
  | undecided _ hdecided =>
      exact absurd hsplit
        (History.ne_of_attempts_eq_nil (attempts_of_decide hdecided) before after key number)
  | @served d' decision decorators later decided made tried _ hd' hdecided hmade hturns =>
      obtain rfl : d = d' := Option.some.inj (hd.symm.trans hd')
      have hopened := attempts_of_opening decision hmade
      obtain ⟨_, rfl, hafter⟩ := History.exists_split (attempts_of_decide hdecided) hsplit
      rw [← List.append_assoc] at hafter
      obtain ⟨earlier, rfl, hearlier⟩ := History.exists_split hopened hafter
      obtain ⟨rest, rfl, hclosing⟩ :=
        History.exists_split_left (attempts_of_closing d ctx result) hearlier
      exact ⟨decision, decorators, later, decided, _, earlier, rest, rfl, hclosing, hdecided,
        ⟨made, hmade⟩, hopened, hturns⟩

end Dispatcher

end TrialRouting
