import TrialRouting.Proofs.Attempt.Transparency
import TrialRouting.Proofs.Invocation.Calls
import TrialRouting.Proofs.Replay.Bound

/-!
# TrialRouting.Proofs.Invocation.Transparency

An invocation with more built-in decorators than before.  Its parts grow one by
one (`Program.GrowsTo`): the decorators are made as before, with the new ones
among them, and every attempt runs through the longer chain; whatever else the
invocation does it does as before.  So with and without the built-in decorators
it makes the same attempts and calls, reports the same, keeps the same decision,
and comes to the same result at the same time (`builtIns_transparent`).
-/

namespace TrialRouting

variable {σ : Type} {alike : σ → σ → Prop} {observed added : Step σ → Prop}

/-! ## What may not look -/

/-- The factory makes decorators that do the same from alike states, and making them is the same. -/
structure DecoratorFactory.Heeds (alike : σ → σ → Prop) (ctx : Context) (f : DecoratorFactory σ) :
    Prop where
  decorator : ∀ s s', alike s s' → Decorator.Alike alike (f.create ctx s).1 (f.create ctx s').1
  update : Congruent alike (fun s => (f.create ctx s).2.1) fun s => (f.create ctx s).2.1
  remarks : ∀ s s', alike s s' → (f.create ctx s').2.2 = (f.create ctx s).2.2

/-- The factories of the built-in decorators, with observers whose steps satisfy `observed`. -/
inductive DecoratorFactory.BuiltIn (observed : Step σ → Prop) : DecoratorFactory σ → Prop where
  | timing (observer : Option (TimingObserver σ)) :
    (∀ observe ∈ observer, ∀ a ok, (observe a ok).Prompt observed) →
    BuiltIn observed (timing observer)
  | errorLogging : BuiltIn observed errorLogging

/-- All that an invocation has to do with does the same from alike states: the switches, the
implementations and their calls, the selection and the decorators. -/
structure Dispatcher.Heeds (alike : σ → σ → Prop) (disp : Dispatcher σ)
    (call : Implementation → Work σ Yield) (d : Definition σ) (ctx : Context) : Prop where
  experiment : ∀ s s', alike s s' →
    disp.board.experimentDisabled s d.contract = disp.board.experimentDisabled s' d.contract
  trial : ∀ key s s', alike s s' →
    disp.board.trialDisabled s d.contract key = disp.board.trialDisabled s' d.contract key
  resolver : ∀ trial s s', alike s s' →
    disp.resolver d.contract trial s = disp.resolver d.contract trial s'
  calls : ∀ i, (call i).Heeds alike
  selection : (d.strategy.resolve ctx).Heeds alike
  decorators : ∀ f ∈ d.decorators, f.Heeds alike ctx

/-- Where no two states are alike, nobody tells alike states apart. -/
theorem Dispatcher.heeds_eq (disp : Dispatcher σ) (call : Implementation → Work σ Yield)
    (d : Definition σ) (ctx : Context) : disp.Heeds (· = ·) call d ctx where
  experiment _ _ hs := by rw [hs]
  trial _ _ _ hs := by rw [hs]
  resolver _ _ _ hs := by rw [hs]
  calls i := (call i).heeds_eq
  selection := (d.strategy.resolve ctx).heeds_eq
  decorators f _ :=
    { decorator := fun s _ hs => hs ▸ (f.create ctx s).1.alike_eq
      update := fun _ _ hs => by rw [hs]
      remarks := fun _ _ hs => by rw [hs] }

/-! ## The decorators -/

namespace DecoratorFactory

/-- A factory of built-in decorators makes one whatever the state, and leaves the state alone. -/
theorem BuiltIn.create_eq {f : DecoratorFactory σ} (hf : f.BuiltIn observed) (ctx : Context) :
    (f.name = "timing" ∨ f.name = "error_logging") ∧
      ∃ dec : Decorator σ, dec.BuiltIn observed ∧ ∀ s, f.create ctx s = (dec, s, []) := by
  cases hf with
  | timing observer hobserver => exact ⟨.inl rfl, _, .timing observer hobserver, fun _ => rfl⟩
  | errorLogging => exact ⟨.inr rfl, _, .errorLogging ctx.identity, fun _ => rfl⟩

end DecoratorFactory

namespace Dispatcher

theorem createDecorators_cons (ctx : Context) (f : DecoratorFactory σ)
    (fs : List (DecoratorFactory σ)) :
    createDecorators ctx (f :: fs) =
      .note (.creating f.name) (.act (fun s => (f.create ctx s).2.1) fun s =>
        (Program.tellAll ((f.create ctx s).2.2.map Note.remark)).bind fun _ =>
        (createDecorators ctx fs).bind fun ds => .done ((f.create ctx s).1 :: ds)) := rfl

/-- The decorators are made as before, with the built-in ones among them. -/
theorem growsTo_createDecorators {ctx : Context} {fs fs' : List (DecoratorFactory σ)}
    (hfs : Interspersed (· = ·) (DecoratorFactory.BuiltIn observed) fs fs')
    (hheeds : ∀ f ∈ fs, f.Heeds alike ctx) :
    (createDecorators ctx fs).GrowsTo alike (Step.BuiltIn observed)
      (Interspersed (Decorator.Alike alike) (Decorator.BuiltIn observed))
      (createDecorators ctx fs') := by
  induction hfs with
  | nil => exact .done .nil
  | @keep f f' fs fs' hf _ ih =>
      subst hf
      obtain ⟨hf, hrest⟩ := List.forall_mem_cons.mp hheeds
      rw [createDecorators_cons, createDecorators_cons]
      refine .note _ (.act hf.update fun s s' hs => ?_)
      rw [hf.remarks s s' hs]
      refine Program.growsTo_bind (Program.growsTo_tellAll _) fun _ _ _ => ?_
      exact Program.growsTo_bind (ih hrest) fun ds ds' hds =>
        .done (.keep (hf.decorator s s' hs) hds)
  | @insert f fs fs' hf _ ih =>
      obtain ⟨hname, dec, hdec, hcreate⟩ := hf.create_eq ctx
      rw [createDecorators_cons, ← Program.bind_done (createDecorators ctx fs)]
      refine .addNote (.creating hname) (.addAct (fun s => .made s fun s => ?_) fun s => ?_)
      · rw [hcreate]
      · rw [hcreate]
        exact Program.growsTo_bind (ih hheeds) fun ds ds' hds => .done (.insert hdec hds)

/-! ## The decision -/

section

variable {disp : Dispatcher σ} {call : Implementation → Work σ Yield} {d : Definition σ}
  {ctx : Context}

theorem heeds_select (hh : disp.Heeds alike call d ctx) : (d.select ctx).Heeds alike := by
  have hdefault (error : SelectionError) : (d.substituteDefault ctx error).Heeds alike :=
    .remark _ (.done rfl)
  refine Work.heeds_bind hh.selection fun answer => ?_
  cases answer with
  | error error => exact hdefault error
  | ok key =>
      dsimp only
      split
      · exact .remark _ (.done rfl)
      · exact hdefault _

theorem growsTo_getOrResolve {key : DecisionKey} {resolve : Work σ Decision}
    (hresolve : resolve.Heeds alike) :
    (DecisionCache.getOrResolve key resolve).GrowsTo alike added (· = ·)
      (DecisionCache.getOrResolve key resolve) := by
  refine .cancelled fun c => ?_
  cases c with
  | true => exact .done rfl
  | false =>
      refine .claim key fun answer => ?_
      cases answer with
      | hit kept => exact .track key (.done rfl)
      | abandoned => exact .done rfl
      | won =>
          have hguarded : (Program.guarded none resolve).GrowsTo alike added (· = ·)
              (Program.guarded none resolve) :=
            Program.growsTo_guarded (hresolve.growsTo added) none
          refine .note _ (Program.growsTo_bind (Program.growsTo_unlessCancelled hguarded) ?_)
          rintro g _ rfl
          cases g with
          | finished decision => exact .settle key _ (.track key (.done rfl))
          | expired => exact .settle key none (.done rfl)
          | cancelled => exact .settle key none (.done rfl)

theorem growsTo_decide (hh : disp.Heeds alike call d ctx) :
    (disp.decide d ctx).GrowsTo alike added (· = ·) (disp.decide d ctx) := by
  refine Program.growsTo_bind (Program.growsTo_view hh.experiment) ?_
  rintro off _ rfl
  cases off with
  | true => exact .note _ (.done rfl)
  | false =>
      refine Program.growsTo_bind (growsTo_getOrResolve (heeds_select hh)) ?_
      rintro kept _ rfl
      cases kept with
      | none => exact .done rfl
      | some kept =>
          refine Program.growsTo_bind (V := (· = ·)) ?_ fun a _ hab => hab ▸ .done rfl
          rw [replaceDisabled]
          split
          · exact .done rfl
          · refine Program.growsTo_bind (Program.growsTo_view (hh.trial _)) ?_
            rintro off _ rfl
            cases off with
            | true => exact .note _ (.done rfl)
            | false => exact .done rfl

end

end Dispatcher

/-! ## The attempts -/

namespace Definition

variable {d : Definition σ} {board : Switchboard σ} {fs : List (DecoratorFactory σ)}

theorem firstEnabled_with (d : Definition σ) (fs : List (DecoratorFactory σ))
    (board : Switchboard σ) (keys : List TrialKey) :
    { d with decorators := fs }.firstEnabled board keys = d.firstEnabled board keys := by
  induction keys with
  | nil => rfl
  | cons key keys ih => rw [firstEnabled, firstEnabled, ih]

theorem choose_with (d : Definition σ) (fs : List (DecoratorFactory σ)) (board : Switchboard σ)
    (attempted : List TrialKey) (current : TrialKey) (outcome : AttemptOutcome) :
    { d with decorators := fs }.choose board attempted current outcome =
      d.choose board attempted current outcome := by
  cases outcome with
  | failed error =>
      rw [choose, choose, firstEnabled_with]
      refine congrArg (Program.bind (d.firstEnabled board (d.untried current attempted)))
        (funext fun found => ?_)
      cases found <;> rfl
  | success value => rfl
  | timedOut after => rfl
  | cancelled => rfl
  | unresolvable source => rfl
  | pipeline error => rfl

theorem growsTo_firstEnabled
    (htrial : ∀ key s s', alike s s' →
      board.trialDisabled s d.contract key = board.trialDisabled s' d.contract key)
    (keys : List TrialKey) :
    (d.firstEnabled board keys).GrowsTo alike added (· = ·) (d.firstEnabled board keys) := by
  induction keys with
  | nil => exact .done rfl
  | cons key keys ih =>
      rw [firstEnabled]
      split
      · exact .done rfl
      · refine Program.growsTo_bind (Program.growsTo_view (htrial key)) ?_
        rintro off _ rfl
        cases off with
        | true => exact Program.growsTo_bind ih fun _ _ hfound => .done (congrArg _ hfound)
        | false => exact .done rfl

theorem growsTo_choose
    (htrial : ∀ key s s', alike s s' →
      board.trialDisabled s d.contract key = board.trialDisabled s' d.contract key)
    (fs : List (DecoratorFactory σ)) (attempted : List TrialKey) (current : TrialKey)
    (outcome : AttemptOutcome) :
    (d.choose board attempted current outcome).GrowsTo alike added (· = ·)
      ({ d with decorators := fs }.choose board attempted current outcome) := by
  rw [choose_with d fs]
  cases outcome with
  | failed error =>
      refine Program.growsTo_bind (growsTo_firstEnabled htrial _) ?_
      rintro found _ rfl
      cases found <;> exact .done rfl
  | timedOut after =>
      dsimp only [choose]
      split <;> exact .done rfl
  | success value => exact .done rfl
  | cancelled => exact .done rfl
  | unresolvable source => exact .done rfl
  | pipeline error => exact .done rfl

variable {attempt attempt' : TrialKey → Nat → Program σ AttemptOutcome}

theorem growsTo_rounds
    (htrial : ∀ key s s', alike s s' →
      board.trialDisabled s d.contract key = board.trialDisabled s' d.contract key)
    (hattempt : ∀ key number,
      (attempt key number).GrowsTo alike added (· = ·) (attempt' key number))
    (result : Except DispatchError String) (n : Nat) (before : List TrialKey) (current : TrialKey) :
    (d.rounds board attempt (.done result) n before current).GrowsTo alike added (· = ·)
      ({ d with decorators := fs }.rounds board attempt' (.done result) n before current) := by
  induction n generalizing before current with
  | zero => exact .done rfl
  | succ n ih =>
      refine .note _ (Program.growsTo_bind (hattempt _ _) ?_)
      rintro outcome _ rfl
      refine Program.growsTo_bind (growsTo_choose htrial fs _ _ _) ?_
      rintro chosen _ rfl
      cases chosen with
      | inl result => exact .done rfl
      | inr next =>
          refine .cancelled fun c => ?_
          cases c with
          | true => exact .done rfl
          | false => exact .note _ (.note _ (ih _ _))

/-- **Attempts in a row grow** when each attempt does; the decorators do not matter otherwise. -/
theorem growsTo_replay
    (htrial : ∀ key s s', alike s s' →
      board.trialDisabled s d.contract key = board.trialDisabled s' d.contract key)
    (hattempt : ∀ key number,
      (attempt key number).GrowsTo alike added (· = ·) (attempt' key number))
    (before : List TrialKey) (current : TrialKey) :
    (d.replay board attempt before current).GrowsTo alike added (· = ·)
      ({ d with decorators := fs }.replay board attempt' before current) := by
  let d' : Definition σ := { d with decorators := fs }
  let stop : Program σ (Except DispatchError String) := .done (.error (.cancelled none))
  have hn := Nat.lt_succ_self (d.unattempted (before ++ [current]))
  have hn' : d'.unattempted (before ++ [current]) < (d.unattempted (before ++ [current])).succ := hn
  -- both have the same rounds to go, since the trials are the same
  rw [← d.rounds_eq_replay board attempt stop hn, ← d'.rounds_eq_replay board attempt' stop hn']
  exact growsTo_rounds htrial hattempt _ _ _ _

end Definition

namespace Dispatcher

section

variable {disp : Dispatcher σ} {type : ImplementationType}
  {call : Implementation → Work σ Yield} {d : Definition σ} {ctx : Context}

theorem growsTo_implementation (hh : disp.Heeds alike call d ctx) (trial : Trial) :
    (disp.implementation type d trial).GrowsTo alike added (· = ·)
      (disp.implementation type d trial) := by
  refine .note _ (Program.growsTo_bind (Program.growsTo_view (hh.resolver trial)) ?_)
  rintro answer _ rfl
  cases answer with
  | error e => exact .done rfl
  | ok i =>
      dsimp only
      split <;> exact .done rfl

/-- An attempt runs through the longer chain. -/
theorem growsTo_attempt (hh : disp.Heeds alike call d ctx) {decorators decorators' : List (Decorator σ)}
    (hdecorators : Interspersed (Decorator.Alike alike) (Decorator.BuiltIn observed) decorators
      decorators') (key : TrialKey) (number : Nat) :
    (disp.attempt type call d ctx decorators key number).GrowsTo alike (Step.BuiltIn observed) (· = ·)
      (disp.attempt type call d ctx decorators' key number) := by
  unfold attempt
  cases d.trials.get? key with
  | none => exact .done rfl
  | some trial =>
      refine Program.growsTo_bind (growsTo_implementation hh trial) ?_
      rintro found _ rfl
      cases found with
      | error e => exact .done rfl
      | ok i => exact .note _ (growsTo_runAttempt hdecorators _ (hh.calls i) _)

/-! ## The whole invocation -/

theorem growsTo_invokeDecided (hh : disp.Heeds alike call d ctx) (registry : Registry σ)
    {fs : List (DecoratorFactory σ)}
    (hfs : Interspersed (· = ·) (DecoratorFactory.BuiltIn observed) d.decorators fs)
    (decision : Decision) :
    (disp.invokeDecided type call d ctx decision).GrowsTo alike (Step.BuiltIn observed) (· = ·)
      ({ disp with registry := registry }.invokeDecided type call { d with decorators := fs } ctx
        decision) := by
  refine Program.growsTo_bind (Program.growsTo_tellAll _) fun _ _ _ => ?_
  refine Program.growsTo_bind (growsTo_createDecorators hfs hh.decorators) ?_
  intro decorators decorators' hdecorators
  refine Program.growsTo_bind
    (Definition.growsTo_replay hh.trial (growsTo_attempt hh hdecorators) [] decision.trial) ?_
  rintro result _ rfl
  exact Program.growsTo_bind (Program.growsTo_tellAll _) fun _ _ _ => .done rfl

theorem growsTo_invoke (hd : disp.registry.get? ctx.contract = some d)
    (hh : disp.Heeds alike call d ctx) {registry : Registry σ} {fs : List (DecoratorFactory σ)}
    (hregistry : registry.get? ctx.contract = some { d with decorators := fs })
    (hfs : Interspersed (· = ·) (DecoratorFactory.BuiltIn observed) d.decorators fs) :
    (disp.invoke type call ctx).GrowsTo alike (Step.BuiltIn observed) (· = ·)
      ({ disp with registry := registry }.invoke type call ctx) := by
  have hinvoke := @invoke_of_get? σ { disp with registry := registry } ctx _ hregistry type call
  rw [invoke_of_get? hd, hinvoke]
  refine Program.growsTo_bind (growsTo_decide hh) ?_
  rintro value _ rfl
  cases value with
  | none => exact .done rfl
  | some decision => exact growsTo_invokeDecided hh registry hfs decision

end

/-- What the built-in decorators leave in the notes tells neither of attempts nor of reports, and of no
calls unless their observers do. -/
theorem hidden_of_builtIn {n : Note} (hn : Step.BuiltIn observed (.noted n)) :
    n.attempt? = none ∧ n.report? = none ∧
      ∀ read, (∀ r, observed (.noted (.remark r)) → Remark.Silent read r) →
        n.serving? read = none := by
  cases hn with
  | remarked hr => exact ⟨rfl, rfl, fun read hsilent => hsilent _ hr⟩
  | _ => exact ⟨rfl, rfl, fun _ _ => rfl⟩

/-- **The built-in decorators are transparent.**  Let `observed` say what steps the observers of timing
decorators take, who are not waited for, and `alike` which states are the same to everybody else.  Where
`alike` is equality nothing is asked of anybody else.

An attempt does the same with and without built-in decorators, however many of them are put into its
chain, and wherever.  Whatever others do meanwhile, it takes the same courses to the same outcomes: the
trial and the other decorators take the same steps, and only the lines of the log and the steps of the
observers are added.  If nobody notices the observers it comes to the same outcome at the same time.
Within built-in decorators alone an attempt that is not cut counts as what its call has come to, and
never as a fault of the pipeline if the call keeps to its types.

So does an invocation of an experiment with more built-in decorators: it makes the same attempts and
the same calls, makes the same reports, keeps the same decision and comes to the same result. -/
theorem builtIns_transparent (alike : σ → σ → Prop) (observed : Step σ → Prop) :
    (∀ (ds ds' : List (Decorator σ)) (a : Attempt) (call : Work σ Yield) (budget : Option Duration),
      Interspersed (· = ·) (Decorator.BuiltIn observed) ds ds' →
      (∀ d ∈ ds, Decorator.Alike alike d d) → call.Heeds alike →
      (runAttempt ds a call budget).MatchedBy alike (Step.BuiltIn observed)
        (runAttempt ds' a call budget)) ∧
    (∀ (ds : List (Decorator σ)) (a : Attempt) (call : Work σ Yield) (budget : Option Duration)
      (h : History σ) (o : AttemptOutcome), (∀ d ∈ ds, d.BuiltIn observed) →
      (runAttempt ds a call budget).Unfolds h o →
      (o = .cancelled ∨ (∃ after, budget = some after ∧ o = .timedOut after) ∨
        ∃ steps y, steps <+: h.own ∧ call.Performs steps (.done y) ∧ CountsAs o y) ∧
      (call.Typed → ∀ error, o ≠ .pipeline error)) ∧
    (∀ (disp : Dispatcher σ) (registry : Registry σ) (type : ImplementationType)
      (call : Implementation → Work σ Yield) (ctx : Context) (d : Definition σ)
      (fs : List (DecoratorFactory σ)), disp.registry.get? ctx.contract = some d →
      registry.get? ctx.contract = some { d with decorators := fs } →
      Interspersed (· = ·) (DecoratorFactory.BuiltIn observed) d.decorators fs →
      disp.Heeds alike call d ctx →
      (disp.invoke type call ctx).MatchedBy alike (Step.BuiltIn observed)
        ({ disp with registry := registry }.invoke type call ctx)) ∧
    (∀ h h' : History σ, History.Enriched alike (Step.BuiltIn observed) h h' →
      attempts h'.notes = attempts h.notes ∧ reports h'.notes = reports h.notes ∧
      (∀ read, (∀ r, observed (.noted (.remark r)) → Remark.Silent read r) →
        servings read h'.notes = servings read h.notes) ∧
      Interspersed (· = ·) (fun n => Step.BuiltIn observed (.noted n)) h.notes h'.notes) ∧
    ((∀ step, observed step → step.Unnoticed alike) →
      ∀ step, Step.BuiltIn observed step → step.Unnoticed alike) ∧
    ((∀ d : Decorator σ, Decorator.Alike (· = ·) d d) ∧
      (∀ call : Work σ Yield, call.Heeds (· = ·)) ∧
      ∀ (disp : Dispatcher σ) (call : Implementation → Work σ Yield) (d : Definition σ)
        (ctx : Context), disp.Heeds (· = ·) call d ctx) := by
  refine ⟨fun ds ds' a call budget hds hheeds hcall => ?_,
    fun ds a call budget h o hds hu => ⟨outcome_of_builtIns hds hu, fun hcall error =>
      ne_pipeline_of_builtIns hds hcall hu error⟩,
    fun disp registry type call ctx d fs hd hregistry hfs hheeds =>
      (growsTo_invoke hd hheeds hregistry hfs).matchedBy,
    fun h h' he => ⟨?_, ?_, fun read hsilent => ?_, he.notes⟩,
    fun hobserved _ => unnoticed_builtIn hobserved,
    Decorator.alike_eq, Work.heeds_eq, heeds_eq⟩
  · have hchain : Interspersed (Decorator.Alike alike) (Decorator.BuiltIn observed) ds ds' := by
      refine hds.mono (fun d hd d' heq => ?_) fun _ => id
      subst heq
      exact hheeds d hd
    exact (growsTo_runAttempt hchain a hcall budget).matchedBy
  · exact he.filterMap_notes Note.attempt? fun n hn => (hidden_of_builtIn hn).1
  · exact he.filterMap_notes Note.report? fun n hn => (hidden_of_builtIn hn).2.1
  · exact he.filterMap_notes (Note.serving? read) fun n hn =>
      (hidden_of_builtIn hn).2.2 read hsilent

/-! ### A depot with listeners -/

/-- How many parcels were sent, and what a listener has heard. -/
abbrev Depot := Nat × List Bool

/-- Nobody but the listener looks at what it has heard. -/
def SameParcels (s s' : Depot) : Prop :=
  s.1 = s'.1

/-- Sends a parcel. The first one is lost. -/
def depotCall : Implementation → Work Depot Yield := fun _ =>
  .act (fun s => (s.1 + 1, s.2)) fun s =>
    .done (if s.1 = 0 then .failure "lost" else .output "delivered")

/-- Tells what it has seen of each attempt. -/
def stamp : Decorator Depot where
  name := "stamp"
  around a := .done <| .proceed fun y =>
    .remark (.entry (.after "stamp" a.trial y.error?)) (.done y)

def listen : TimingObserver Depot := fun _ ok =>
  .change fun s => (s.1, s.2 ++ [ok])

def depotDelivery : Definition Depot where
  contract := ⟨"delivery"⟩
  trials := deliveryTrials
  strategy := .custom "fixed" (fun _ _ => .done (.ok ⟨"express"⟩)) deliveryTrials.keys
  policy := .replayAny
  timeout := none
  decorators := [.constant "stamp" fun _ => stamp]
  policy_registered := delivery.policy_registered

/-- The stamp among built-in decorators, one of them with a listener. -/
def depotFactories : List (DecoratorFactory Depot) :=
  [timing (some listen), .constant "stamp" fun _ => stamp, errorLogging, timing none]

def depotDispatcher : Dispatcher Depot where
  registry := ⟨[depotDelivery], by decide⟩
  resolver := fun _ trial _ => .ok (.text trial.key.text)
  board := .allOn
  config := {}

def watchedDepot : Dispatcher Depot :=
  { depotDispatcher with registry := ⟨[{ depotDelivery with decorators := depotFactories }], by decide⟩ }

theorem interspersed_depotFactories :
    Interspersed (· = ·) (DecoratorFactory.BuiltIn (Step.Unnoticed SameParcels))
      depotDelivery.decorators depotFactories := by
  have hlisten : ∀ observe ∈ some listen, ∀ a ok,
      (observe a ok).Prompt (Step.Unnoticed SameParcels) := by
    rintro _ ⟨⟩ a ok
    exact ⟨fun _ _ _ hs => hs, fun _ => trivial⟩
  exact .insert (.timing _ hlisten) (.keep rfl (.insert .errorLogging
    (.insert (.timing none nofun) .nil)))

theorem heeds_depotDispatcher :
    depotDispatcher.Heeds SameParcels depotCall depotDelivery deliveryContext where
  experiment _ _ _ := rfl
  trial _ _ _ _ := rfl
  resolver _ _ _ _ := rfl
  calls i := by
    refine .act (fun s s' hs => congrArg (· + 1) hs) fun s s' hs => .done ?_
    rw [show s.1 = s'.1 from hs]
  selection := .done rfl
  decorators f hf := by
    obtain rfl := List.mem_singleton.mp hf
    exact
      { decorator := fun _ _ _ a => .done (.proceed fun y => .remark _ (.done rfl))
        update := fun _ _ hs => hs
        remarks := fun _ _ _ => rfl }

/-- The listener hears of both attempts, and the delivery is the same as without it. -/
theorem builtIns_transparent_depot :
    depotDispatcher.registry.get? deliveryContext.contract = some depotDelivery ∧
    watchedDepot.registry.get? deliveryContext.contract =
      some { depotDelivery with decorators := depotFactories } ∧
    Interspersed (· = ·) (DecoratorFactory.BuiltIn (Step.Unnoticed SameParcels))
      depotDelivery.decorators depotFactories ∧
    depotDispatcher.Heeds SameParcels depotCall depotDelivery deliveryContext ∧
    let start : Session Depot := ⟨0, .empty 8, (0, [])⟩
    let r := (depotDispatcher.invoke .text depotCall deliveryContext).run .live start
    let r' := (watchedDepot.invoke .text depotCall deliveryContext).run .live start
    r'.session.state = (2, [false, true]) ∧ r.value = .ok "delivered" ∧ r'.value = r.value ∧
      attempts r.notes = [(⟨"express"⟩, 1), (⟨"pickup"⟩, 2)] ∧
      attempts r'.notes = attempts r.notes := by
  refine ⟨rfl, rfl, interspersed_depotFactories, heeds_depotDispatcher, ?_⟩
  obtain ⟨-, -, hinvoke, hsame, hunnoticed, -⟩ :=
    builtIns_transparent SameParcels (Step.Unnoticed SameParcels)
  have hmatched := hinvoke depotDispatcher watchedDepot.registry .text depotCall deliveryContext
    depotDelivery depotFactories rfl rfl interspersed_depotFactories heeds_depotDispatcher
  obtain ⟨hrun, henriched⟩ := hmatched.run (hunnoticed fun _ => id) .live
    ⟨0, .empty 8, (0, [])⟩ ⟨0, .empty 8, (0, [])⟩ ⟨rfl, rfl, rfl⟩
  obtain ⟨hattempts, -⟩ := hsame _ _ henriched
  rw [Program.notes_history, Program.notes_history] at hattempts
  refine ⟨?_, ?_, hrun.value.symm, ?_, hattempts⟩
  · decide +kernel
  · decide +kernel
  · decide +kernel

end Dispatcher

end TrialRouting
