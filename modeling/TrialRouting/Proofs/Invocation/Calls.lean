import TrialRouting.Proofs.Invocation.Attempt
import TrialRouting.Proofs.Invocation.Kept
import TrialRouting.Proofs.Invocation.Switches

/-!
# TrialRouting.Proofs.Invocation.Calls

Which implementations an invocation calls, and how often.  To see calls in what
is noted, the caller lets each call begin with a journal entry that tells the
implementation, and that nobody else writes; `read` recognizes these entries.
`Note.serving?` then reads attempts, look-ups of implementations and calls off
the notes, in their order.

The main theorem says that they are those of a list of services, one for each
attempted trial: an attempt, one look-up of the implementation, and at most one
call of it.  It follows from one attempt (`servings_of_attempt`), which calls
once at most whatever its decorators do, by induction on the turns
(`exists_services`).
-/

namespace TrialRouting

variable {σ α β : Type}

/-! ## What is told of calls -/

/-- What goes on for a trial: it is attempted, its implementation is looked up, or called. -/
inductive Serving where
  | attempted (key : TrialKey) (number : Nat)
  | resolved (contract : ContractId) (trial : Trial)
  | called (i : Implementation)
  deriving DecidableEq, Repr

/-- What a note tells of a trial; `read` recognizes the entries that tell of calls. -/
def Note.serving? (read : Entry → Option Implementation) : Note → Option Serving
  | .attempting key number => some (.attempted key number)
  | .resolving contract trial => some (.resolved contract trial)
  | .remark (.entry e) => (read e).map .called
  | _ => none

/-- All that the notes tell of trials, in its order. -/
def servings (read : Entry → Option Implementation) (ns : List Note) : List Serving :=
  ns.filterMap (Note.serving? read)

section

variable {read : Entry → Option Implementation}

@[simp] theorem servings_nil : servings read [] = [] := rfl

@[simp] theorem servings_append (ns ms : List Note) :
    servings read (ns ++ ms) = servings read ns ++ servings read ms :=
  List.filterMap_append

@[simp] theorem servings_attempting (key : TrialKey) (number : Nat) (ns : List Note) :
    servings read (.attempting key number :: ns) = .attempted key number :: servings read ns := rfl

@[simp] theorem servings_resolving (contract : ContractId) (trial : Trial) (ns : List Note) :
    servings read (.resolving contract trial :: ns) =
      .resolved contract trial :: servings read ns := rfl

@[simp] theorem servings_event (e : Event) (ns : List Note) :
    servings read (.event e :: ns) = servings read ns := rfl

theorem servings_of_notesOnly {p : Program σ α} {h : History σ} {a : α}
    (hp : p.NotesOnly fun n => n.serving? read = none) (hu : p.Unfolds h a) :
    servings read h.notes = [] :=
  List.filterMap_eq_nil_iff.mpr (Program.forall_mem_notes hp hu)

/-- The remark tells of no call. -/
def Remark.Silent (read : Entry → Option Implementation) (r : Remark) : Prop :=
  Note.serving? read (.remark r) = none

theorem Remark.silent_event (e : Event) : Remark.Silent read (.event e) := rfl

/-- The work tells of no call. -/
def Work.Silent (read : Entry → Option Implementation) (w : Work σ α) : Prop :=
  w.Remarks (Remark.Silent read)

/-- The work begins with the entry that tells of the call of `i`, if it is to tell of one, and
tells of no other. -/
def Work.Announces (read : Entry → Option Implementation) (w : Work σ α) :
    Option Implementation → Prop
  | none => w.Silent read
  | some i => ∃ e rest, w = .remark (.entry e) rest ∧ read e = some i ∧ rest.Silent read

theorem plain_guardedLeft_of_silent {w : Work σ α} (hw : w.Silent read) (budget : Option Nat) :
    (Program.guardedLeft budget w).Plain fun n => n.serving? read = none :=
  (Program.plain_guardedLeft hw budget).mono fun n hn => by
    obtain ⟨r, rfl, hr⟩ := hn
    exact hr

theorem plain_guarded_of_silent {w : Work σ α} (hw : w.Silent read) (budget : Option Nat) :
    (Program.guarded budget w).Plain fun n => n.serving? read = none :=
  (Program.plain_guarded_of_remarks hw budget).mono fun n hn => by
    obtain ⟨r, rfl, hr⟩ := hn
    exact hr

/-- Under a guard a call that is made is told, and told once. -/
theorem servings_of_call {call : Work σ α} {f : α → Work σ β} {told : Option Implementation}
    {left : Option Nat} {h : History σ} {g : Program.Guarded β} (hcall : call.Announces read told)
    (hf : ∀ a, (f a).Silent read) (hu : (Program.guarded left (call.bind f)).Unfolds h g) :
    servings read h.notes = told.toList.map .called := by
  cases told with
  | none =>
      have hsilent := Work.remarks_bind hcall fun a _ => hf a
      exact servings_of_notesOnly (plain_guarded_of_silent hsilent left).notesOnly hu
  | some i =>
      obtain ⟨e, rest, rfl, he, hrest⟩ := hcall
      have hguarded : Program.guarded left ((Work.remark (.entry e) rest).bind f) =
          .note (.remark (.entry e)) (Program.guarded left (rest.bind f)) := by
        cases left <;> rfl
      rw [hguarded] at hu
      cases hu with
      | note _ hu =>
          have hsilent := Work.remarks_bind hrest fun a _ => hf a
          have hafter := servings_of_notesOnly (plain_guarded_of_silent hsilent left).notesOnly hu
          have hnote : Note.serving? read (.remark (.entry e)) = some (.called i) := by
            rw [Note.serving?, he]
            rfl
          rw [History.notes_noted, servings, List.filterMap_cons, hnote]
          exact congrArg (Serving.called i :: ·) hafter

/-! ## Parties that tell of no calls -/

/-- The decorator tells of no call, before or after the attempt that it surrounds. -/
def Decorator.Silent (read : Entry → Option Implementation) (d : Decorator σ) : Prop :=
  ∀ a, (d.around a).Silent read ∧
    ∀ after, (d.around a).Yields (.proceed after) → ∀ y, (after y).Silent read

/-- Nobody but the caller tells of calls: not the selection, and not the decorators or whoever makes
them. -/
structure Definition.Silent (read : Entry → Option Implementation) (d : Definition σ) : Prop where
  selects : ∀ ctx, (d.strategy.resolve ctx).Silent read
  creates : ∀ f ∈ d.decorators, ∀ ctx s, ∀ r ∈ (f.create ctx s).2.2, Remark.Silent read r
  decorates : ∀ f ∈ d.decorators, ∀ ctx s, (f.create ctx s).1.Silent read

/-- Where no entry counts, nobody tells of a call. -/
theorem Work.silent_none (w : Work σ α) : w.Silent fun _ => none := by
  have hentry (r : Remark) : r.Silent fun _ => none := by
    cases r <;> rfl
  induction w with
  | done a => trivial
  | remark r w ih => exact ⟨hentry r, ih⟩
  | act u k ih => exact fun s => ih s
  | wait ms w ih => exact ih
  | cancel w ih => exact ih

theorem Definition.silent_none (d : Definition σ) : d.Silent fun _ => none where
  selects ctx := (d.strategy.resolve ctx).silent_none
  creates f _ ctx s r _ := by cases r <;> rfl
  decorates f _ ctx s a :=
    ⟨((f.create ctx s).1.around a).silent_none, fun after _ y => (after y).silent_none⟩

/-- What decorators do without the call tells of no call. -/
theorem silent_chain {ds : List (Decorator σ)} (hds : ∀ d ∈ ds, d.Silent read) (a : Attempt) :
    (chain ds a).Silent read ∧
      ∀ after, (chain ds a).Yields (.proceed after) → ∀ y, (after y).Silent read := by
  induction ds with
  | nil =>
      refine ⟨trivial, fun after hafter y => ?_⟩
      cases hafter
      trivial
  | cons d ds ih =>
      obtain ⟨hd, hrest⟩ := List.forall_mem_cons.mp hds
      obtain ⟨hinner, hinnerAfter⟩ := ih hrest
      obtain ⟨haround, hafter⟩ := hd a
      constructor
      · refine Work.remarks_bind haround fun stance hstance => ?_
        cases stance with
        | settle y => trivial
        | proceed after =>
            refine Work.remarks_bind hinner fun inner _ => ?_
            cases inner with
            | settle y => exact Work.remarks_bind (hafter after hstance y) fun _ _ => trivial
            | proceed inner => trivial
      · intro whole hwhole y
        obtain ⟨stance, hstance, hwhole⟩ := Work.yields_bind hwhole
        cases stance with
        | settle y => cases hwhole
        | proceed after =>
            obtain ⟨inner, hinnerYields, hwhole⟩ := Work.yields_bind hwhole
            cases inner with
            | settle y =>
                obtain ⟨_, _, hwhole⟩ := Work.yields_bind hwhole
                cases hwhole
            | proceed inner =>
                cases hwhole
                exact Work.remarks_bind (hinnerAfter inner hinnerYields y) fun y _ =>
                  hafter after hstance y

end

namespace Dispatcher

variable {disp : Dispatcher σ} {type : ImplementationType}
  {call : Implementation → Work σ Yield} {d : Definition σ} {ctx : Context}
  {decorators : List (Decorator σ)} {key : TrialKey} {number : Nat} {h : History σ}

/-! ## One attempt -/

/-- An attempt of a registered trial looks its implementation up once, and comes to a call of what
it has found only. -/
theorem unfolds_approach {trial : Trial} (htrial : d.trials.get? key = some trial)
    {reached : Approach σ}
    (hu : (disp.approach type d ctx decorators key number).Unfolds h reached) :
    ∃ s rest, h = .noted (.resolving d.contract trial) :: .acted id s :: rest ∧
      (∀ i after left, reached = .calls i after left →
        disp.resolver d.contract trial s = .ok i) ∧
      ∀ read, (∀ dec ∈ decorators, dec.Silent read) → servings read (History.notes rest) = [] ∧
        ∀ i after left, reached = .calls i after left → ∀ y, (after y).Silent read := by
  simp only [approach, htrial] at hu
  obtain ⟨found, _, rest, rfl, hfound, hrest⟩ := Program.unfolds_bind hu
  obtain ⟨s, rfl, hresolved⟩ := unfolds_implementation hfound
  refine ⟨s, rest, rfl, ?_⟩
  cases found with
  | error e =>
      cases hrest
      exact ⟨nofun, fun read _ => ⟨rfl, nofun⟩⟩
  | ok i =>
      cases hrest with
      | note _ hrest =>
          cases hrest with
          | cancelled c hrest =>
              cases c with
              | true =>
                  cases hrest
                  exact ⟨nofun, fun read _ => ⟨rfl, nofun⟩⟩
              | false =>
                  obtain ⟨g, guarded, _, rfl, hguarded, hg⟩ := Program.unfolds_bind hrest
                  cases hg
                  constructor
                  · intro i' after left hreached
                    obtain ⟨_, rfl⟩ := Approach.eq_of_ofGuarded hreached
                    exact hresolved _ rfl
                  · intro read hsilent
                    obtain ⟨hchain, hafter⟩ := silent_chain hsilent (.of ctx key number)
                    have hplain := plain_guardedLeft_of_silent hchain
                      ((disp.attemptBudget d).map Duration.clockMillis)
                    have hnone := servings_of_notesOnly hplain.notesOnly hguarded
                    constructor
                    · simp [hnone]
                    · intro i' after left hreached
                      obtain ⟨rfl, _⟩ := Approach.eq_of_ofGuarded hreached
                      exact hafter after (Program.yields_of_unfolds_guardedLeft hguarded)

/-- **One attempt** of a registered trial: its implementation is looked up once and called once at
most. -/
theorem servings_of_attempt {trial : Trial} (htrial : d.trials.get? key = some trial)
    {outcome : AttemptOutcome}
    (hu : (disp.attempt type call d ctx decorators key number).Unfolds h outcome) :
    ∃ called : Option Implementation,
      (∀ i, called = some i → ∃ s ∈ h.found, disp.resolver d.contract trial s = .ok i) ∧
      ∀ read told, (∀ dec ∈ decorators, dec.Silent read) →
        (∀ i, (call i).Announces read (told i)) →
        servings read h.notes =
          .resolved d.contract trial :: (called.bind told).toList.map .called := by
  rw [attempt_eq] at hu
  obtain ⟨reached, _, rest, rfl, hreached, hrest⟩ := Program.unfolds_bind hu
  obtain ⟨s, before, rfl, hresolved, hbefore⟩ := unfolds_approach htrial hreached
  cases reached with
  | settled outcome =>
      cases hrest
      refine ⟨none, nofun, fun read told hsilent _ => ?_⟩
      simp [(hbefore read hsilent).1]
  | calls i after left =>
      obtain ⟨g, after', _, rfl, hcall, hg⟩ := Program.unfolds_bind hrest
      cases hg
      refine ⟨some i, ?_, fun read told hsilent htold => ?_⟩
      · intro i' hi'
        cases hi'
        exact ⟨s, History.mem_found (u := id) (by simp), hresolved i after left rfl⟩
      · obtain ⟨hnone, hafter⟩ := hbefore read hsilent
        have hcalled := servings_of_call (htold i) (hafter i after left rfl) hcall
        simp [hnone, hcalled]

/-! ## One attempt after the other -/

/-- What becomes of a trial in an invocation: the number of its attempt, and the implementation that
is called in it, if any. -/
structure Service where
  trial : Trial
  number : Nat
  called : Option Implementation
  deriving Repr

namespace Service

/-- The trial is attempted, looked up once, and called at most once; `told` says which calls are
told. -/
def servings (contract : ContractId) (told : Implementation → Option Implementation)
    (s : Service) : List Serving :=
  .attempted s.trial.key s.number :: .resolved contract s.trial ::
    (s.called.bind told).toList.map .called

/-- The trial is registered, and what is called is the implementation that was found for it. -/
structure Proper (disp : Dispatcher σ) (d : Definition σ) (h : History σ) (s : Service) : Prop where
  registered : d.trials.get? s.trial.key = some s.trial
  resolved : ∀ i, s.called = some i →
    ∃ state ∈ h.found, disp.resolver d.contract s.trial state = .ok i

theorem Proper.mono {h' : History σ} {s : Service} (hs : s.Proper disp d h)
    (hsub : ∀ step ∈ h, step ∈ h') : s.Proper disp d h' where
  registered := hs.registered
  resolved i hi := by
    obtain ⟨state, hstate, hresolved⟩ := hs.resolved i hi
    obtain ⟨step, hstep, hfound⟩ := List.mem_filterMap.mp hstate
    exact ⟨state, List.mem_filterMap.mpr ⟨step, hsub step hstep, hfound⟩, hresolved⟩

end Service

/-- An attempt of a registered trial is its service. -/
theorem exists_service (hkey : key ∈ d.trials.keys) {outcome : AttemptOutcome}
    (hu : (disp.attempt type call d ctx decorators key number).Unfolds h outcome) :
    ∃ service : Service, (service.trial.key, service.number) = (key, number) ∧
      service.Proper disp d h ∧
      ∀ read told, (∀ dec ∈ decorators, dec.Silent read) →
        (∀ i, (call i).Announces read (told i)) →
        .attempted key number :: servings read h.notes = service.servings d.contract told := by
  obtain ⟨trial, htrial⟩ := Option.isSome_iff_exists.mp (TrialSet.get?_isSome_iff.mpr hkey)
  obtain ⟨_, rfl⟩ := TrialSet.get?_eq_some_iff.mp htrial
  obtain ⟨called, hresolved, hservings⟩ := servings_of_attempt htrial hu
  refine ⟨⟨trial, number, called⟩, rfl, ⟨htrial, hresolved⟩, ?_⟩
  intro read told hsilent htold
  rw [hservings read told hsilent htold]
  rfl

theorem servings_onwardNotes (d : Definition σ) (read : Entry → Option Implementation)
    (attempted : List TrialKey) (current next : TrialKey) :
    TrialRouting.servings read (d.onwardNotes attempted current next) = [] := rfl

/-- **A row of turns** serves one trial after the other. -/
theorem exists_services {before later : List TrialKey} {current : TrialKey}
    {result : Except DispatchError String}
    (ht : d.Turns disp.board (disp.attempt type call d ctx decorators) before current later h result)
    (hcurrent : current ∈ d.trials.keys) :
    ∃ services : List Service,
      (services.map fun s => (s.trial.key, s.number)) =
        (current :: later).zipIdx (before.length + 1) ∧
      (∀ s ∈ services, s.Proper disp d h) ∧
      ∀ read told, (∀ dec ∈ decorators, dec.Silent read) →
        (∀ i, (call i).Announces read (told i)) →
        servings read h.notes = services.flatMap (Service.servings d.contract told) := by
  induction ht with
  | last htried hchoose =>
      obtain ⟨service, hkey, hproper, hservings⟩ := exists_service hcurrent htried
      refine ⟨[service], by simp [hkey], ?_, fun read told hsilent htold => ?_⟩
      · exact List.forall_mem_singleton.mpr (hproper.mono fun step hstep => by simp [hstep])
      · simpa [Definition.notes_of_choose hchoose] using hservings read told hsilent htold
  | cancelled htried hchoose =>
      obtain ⟨service, hkey, hproper, hservings⟩ := exists_service hcurrent htried
      refine ⟨[service], by simp [hkey], ?_, fun read told hsilent htold => ?_⟩
      · exact List.forall_mem_singleton.mpr (hproper.mono fun step hstep => by simp [hstep])
      · simpa [Definition.notes_of_choose hchoose] using hservings read told hsilent htold
  | onward htried hchoose _ ih =>
      obtain ⟨service, hkey, hproper, hservings⟩ := exists_service hcurrent htried
      obtain ⟨services, hkeys, hpropers, hrest⟩ := ih (Definition.mem_of_choose hchoose).1
      refine ⟨service :: services, ?_, ?_, fun read told hsilent htold => ?_⟩
      · simp [hkey, hkeys]
      · refine List.forall_mem_cons.mpr ⟨hproper.mono fun step hstep => by simp [hstep], ?_⟩
        exact fun s hs => (hpropers s hs).mono fun step hstep => by simp [hstep]
      · simp [Definition.notes_of_choose hchoose, Definition.onwardSteps, servings_onwardNotes,
          hrest read told hsilent htold, ← hservings read told hsilent htold]

/-! ## The whole invocation -/

/-- Making decorators tells of no call, and neither do the decorators that are made. -/
theorem servings_of_createDecorators {read : Entry → Option Implementation} (hd : d.Silent read)
    (hu : (createDecorators ctx d.decorators).Unfolds h decorators) :
    servings read h.notes = [] ∧ ∀ dec ∈ decorators, dec.Silent read := by
  obtain ⟨hdecorators, hnotes⟩ := (creates_of_unfolds hu).made
  constructor
  · refine List.filterMap_eq_nil_iff.mpr fun n hn => ?_
    obtain ⟨f, hf, rfl | ⟨s, r, hr, rfl⟩⟩ := hnotes n hn
    · rfl
    · exact hd.creates f hf ctx s r hr
  · intro dec hdec
    obtain ⟨f, hf, s, rfl⟩ := hdecorators dec hdec
    exact hd.decorates f hf ctx s

/-- A selection tells of no call. -/
theorem silent_select {read : Entry → Option Implementation} (hd : d.Silent read) (ctx : Context) :
    (d.select ctx).Silent read :=
  remarks_select Remark.silent_event (hd.selects ctx)

theorem servings_of_decide {read : Entry → Option Implementation} (hd : d.Silent read)
    {value : Option Decision} (hu : (disp.decide d ctx).Unfolds h value) :
    servings read h.notes = [] := by
  refine servings_of_notesOnly (notesOnly_decide ?_ ?_ ?_) hu
  · exact fun _ => rfl
  · rfl
  · exact plain_guarded_of_silent (silent_select hd ctx) none

theorem servings_map_telemetry (read : Entry → Option Implementation)
    (calls : List TelemetryCall) : servings read (calls.map Note.telemetry) = [] := by
  refine List.filterMap_eq_nil_iff.mpr fun n hn => ?_
  obtain ⟨call, -, rfl⟩ := List.mem_map.mp hn
  rfl

theorem servings_closing (read : Entry → Option Implementation)
    (result : Except DispatchError String) :
    servings read (resultNotes d ctx result ++ [Note.telemetry .dispose]) = [] := by
  cases result <;> rfl

/-- What an invocation does after its decision are services, of distinct trials. -/
theorem exists_services_of_unfolds {result : Except DispatchError String}
    (hd : disp.registry.get? ctx.contract = some d)
    (hu : (disp.invoke type call ctx).Unfolds h result)
    (hhits : ∀ key kept, .claimed key (.hit kept) ∈ h → disp.Kept key kept) :
    ∃ services : List Service,
      attempts h.notes = (services.map fun s => (s.trial.key, s.number)) ∧
      (services.map fun s => s.trial.key).Nodup ∧
      (∀ s ∈ services, s.Proper disp d h) ∧
      ∀ read told, d.Silent read → (∀ i, (call i).Announces read (told i)) →
        servings read h.notes = services.flatMap (Service.servings d.contract told) := by
  cases serves_of_unfolds hu with
  | unknown hnone =>
      rw [hd] at hnone
      cases hnone
  | undecided hd' hdecided =>
      obtain rfl := Option.some.inj (hd.symm.trans hd')
      refine ⟨[], attempts_of_decide hdecided, List.nodup_nil, ?_, fun read told hsilent _ => ?_⟩
      · exact List.forall_mem_nil _
      · exact servings_of_decide hsilent hdecided
  | @served _ decision decorators later decided made tried _ hd' hdecided hmade hturns =>
      obtain rfl := Option.some.inj (hd.symm.trans hd')
      have hfirst : decision.trial ∈ d.trials.keys := by
        refine mem_keys_of_decide hd hdecided fun key kept hhit => hhits key kept ?_
        exact List.mem_append_left _ hhit
      obtain ⟨services, hservices, hproper, hservings⟩ := exists_services hturns hfirst
      have hkeys : (services.map fun s => s.trial.key) = decision.trial :: later := by
        have hkeys := congrArg (List.map Prod.fst) hservices
        rwa [List.map_map, List.zipIdx_map_fst] at hkeys
      refine ⟨services, ?_, ?_, fun s hs => ?_, fun read told hsilent htold => ?_⟩
      · exact (attempts_of_served hdecided hmade hturns).trans hservices.symm
      · rw [hkeys]
        exact hturns.nodup (List.nodup_singleton decision.trial)
      · exact (hproper s hs).mono fun step hstep => by simp [hstep]
      · obtain ⟨hmade, hdecorators⟩ := servings_of_createDecorators hsilent hmade
        rw [History.notes_append, History.notes_append, History.notes_append, History.notes_append,
          History.notes_map_noted, History.notes_map_noted, servings_append, servings_append,
          servings_append, servings_append, servings_of_decide hsilent hdecided,
          servings_map_telemetry, hmade, servings_closing,
          hservings read told hdecorators htold]
        exact List.append_nil _

/-- **Every trial is served once at most.**  Let the decisions that an invocation finds be kept by
invocations of its dispatcher, as they are in every run (`kept_of_hit`, and
`exists_history_of_crowd` for invocations that run at the same time).  Then, whatever others do
meanwhile, it serves distinct registered trials, one after the other: it attempts the trial, looks
its implementation up once, and calls what it has found once at most.  So there are no more calls
than trials.  The calls are those that can be told from the notes, for every way in which the
caller, and nobody else, tells them. -/
theorem serves_each_trial_once (disp : Dispatcher σ) (type : ImplementationType)
    (call : Implementation → Work σ Yield) (ctx : Context) (d : Definition σ)
    (hd : disp.registry.get? ctx.contract = some d) (h : History σ)
    (result : Except DispatchError String) (hu : (disp.invoke type call ctx).Unfolds h result)
    (hhits : ∀ key kept, .claimed key (.hit kept) ∈ h → disp.Kept key kept) :
    ∃ services : List Service,
      attempts h.notes = (services.map fun s => (s.trial.key, s.number)) ∧
      (services.map fun s => s.trial.key).Nodup ∧
      (∀ s ∈ services, s.Proper disp d h) ∧
      services.length ≤ d.trials.size ∧
      (services.filterMap Service.called).length ≤ d.trials.size ∧
      (servings (fun _ => none) h.notes = services.flatMap fun s =>
        [.attempted s.trial.key s.number, .resolved d.contract s.trial]) ∧
      ∀ read told, d.Silent read → (∀ i, (call i).Announces read (told i)) →
        servings read h.notes = services.flatMap (Service.servings d.contract told) := by
  obtain ⟨services, hattempts, hnodup, hproper, hservings⟩ :=
    exists_services_of_unfolds hd hu hhits
  have hkeys : ∀ key ∈ services.map (fun s => s.trial.key), key ∈ d.trials.keys := by
    intro key hkey
    obtain ⟨s, hs, rfl⟩ := List.mem_map.mp hkey
    exact TrialSet.get?_isSome_iff.mp (Option.isSome_of_eq_some (hproper s hs).registered)
  have hlength : services.length ≤ d.trials.size := by
    simpa using Definition.length_le_size hnodup hkeys
  refine ⟨services, hattempts, hnodup, hproper, hlength, ?_, ?_, hservings⟩
  · exact (List.length_filterMap_le _ _).trans hlength
  · rw [hservings (fun _ => none) (fun _ => none) d.silent_none fun i => (call i).silent_none]
    refine List.flatMap_congr fun s _ => ?_
    simp [Service.servings]

/-! ### A delivery that tells its calls -/

/-- Begins each call of a text with an entry that tells it. -/
def tellingCall : Implementation → Work KillSwitch Yield
  | .text name => .remark (.entry (.call ⟨name⟩ none)) (deliveryCall (.text name))
  | i => deliveryCall i

def readCall : Entry → Option Implementation
  | .call trial _ => some (.text trial.text)
  | _ => none

/-- The calls that are told. -/
def toldCall : Implementation → Option Implementation
  | .text name => some (.text name)
  | _ => none

theorem silent_deliveryCall (i : Implementation) : (deliveryCall i).Silent readCall := by
  unfold deliveryCall
  split <;> trivial

theorem announces_tellingCall (i : Implementation) :
    (tellingCall i).Announces readCall (toldCall i) := by
  cases i with
  | word value => exact silent_deliveryCall (.word value)
  | flag value => exact silent_deliveryCall (.flag value)
  | text name => exact ⟨_, _, rfl, rfl, silent_deliveryCall (.text name)⟩

theorem silent_delivery : delivery.Silent readCall where
  selects _ := trivial
  creates _ hf := absurd hf List.not_mem_nil
  decorates _ hf := absurd hf List.not_mem_nil

/-- A delivery for a scope that has a decision already. -/
def repeatedDelivery : History KillSwitch :=
  (deliveryDispatcher.invoke .text tellingCall deliveryContext).history .live
    (deliveryDispatcher.history (deliveryDispatcher.newSession 0 .allOn)
      [.invoke .text tellingCall deliveryContext .live])

/-- The delivery finds its decision, and calls two trials, each of them once. -/
theorem repeatedDelivery_serves_each_once :
    deliveryDispatcher.registry.get? deliveryContext.contract = some delivery ∧
    (∃ result, (deliveryDispatcher.invoke .text tellingCall deliveryContext).Unfolds
      repeatedDelivery result) ∧
    (∀ key kept, .claimed key (.hit kept) ∈ repeatedDelivery →
      deliveryDispatcher.Kept key kept) ∧
    repeatedDelivery.notes.filterMap Note.selection? = [] ∧
    ∃ services : List Service,
      (services.map fun s => s.trial.key) = [⟨"express"⟩, ⟨"pickup"⟩] ∧
      servings readCall repeatedDelivery.notes =
        services.flatMap (Service.servings ⟨"delivery"⟩ toldCall) := by
  have hhits : ∀ key kept, .claimed key (.hit kept) ∈ repeatedDelivery →
      deliveryDispatcher.Kept key kept := fun _ _ => kept_of_hit
  have hunfolds := Program.unfolds_history
    (deliveryDispatcher.invoke .text tellingCall deliveryContext) .live
    (deliveryDispatcher.history (deliveryDispatcher.newSession 0 .allOn)
      [.invoke .text tellingCall deliveryContext .live])
  have hattempts : attempts repeatedDelivery.notes = [(⟨"express"⟩, 1), (⟨"pickup"⟩, 2)] := by
    cbv
  have hselects : repeatedDelivery.notes.filterMap Note.selection? = [] := by
    cbv
  obtain ⟨services, hservices, _, _, _, _, _, hservings⟩ := serves_each_trial_once
    deliveryDispatcher .text tellingCall deliveryContext delivery rfl repeatedDelivery _ hunfolds
    hhits
  refine ⟨rfl, ⟨_, hunfolds⟩, hhits, hselects, services, ?_,
    hservings readCall toldCall silent_delivery announces_tellingCall⟩
  have hkeys := congrArg (List.map Prod.fst) (hattempts.symm.trans hservices)
  rw [List.map_map] at hkeys
  exact hkeys.symm

end Dispatcher

end TrialRouting
