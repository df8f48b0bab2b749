import TrialRouting.Proofs.Attempt.Nesting
import TrialRouting.Proofs.Invocation.Leaving

/-!
# TrialRouting.Proofs.Invocation.Nesting

The log that decorators keep over a whole invocation.  `History.milestones` reads
off the notes which decorators are made, which attempts begin, and the marks in
the journal, in their order.  The main theorem says that they are those of the
factories, each in its turn, and then of one attempt after the other, all of
them within the same decorators; the marks of an attempt are a nest
(`Dispatcher.Marked`).

The attempts of an invocation are listed by `Definition.Turns.exists_turns`,
which says of any view of the notes that it shows the attempts one by one.
-/

namespace TrialRouting

variable {σ β : Type}

/-! ## Milestones -/

/-- What an invocation comes by: a decorator is made, an attempt begins, or a mark is made. -/
inductive Milestone where
  | created (decorator : String)
  | attempted (trial : TrialKey) (number : Nat)
  | logged (m : Mark)
  deriving DecidableEq, Repr

def Note.milestone? (read : Entry → Option Mark) : Note → Option Milestone
  | .creating decorator => some (.created decorator)
  | .attempting trial number => some (.attempted trial number)
  | n => (n.mark? read).map .logged

/-- The milestones of a history. -/
def History.milestones (read : Entry → Option Mark) (h : History σ) : List Milestone :=
  h.notes.filterMap (Note.milestone? read)

section

variable {read : Entry → Option Mark} {h h' : History σ}

theorem History.milestones_append (h h' : History σ) :
    (h ++ h').milestones read = h.milestones read ++ h'.milestones read := by
  rw [milestones, notes_append, List.filterMap_append]
  rfl

theorem History.milestones_eq_nil (hnone : ∀ n ∈ h.notes, n.milestone? read = none) :
    h.milestones read = [] :=
  List.filterMap_eq_nil_iff.mpr hnone

theorem Note.milestone?_remark (r : Remark) :
    (Note.remark r).milestone? read = ((Note.remark r).mark? read).map .logged := rfl

/-- Where only remarks are noted the milestones are marks. -/
theorem History.milestones_of_remarks (hremarks : ∀ n ∈ h.notes, ∃ r, n = .remark r) :
    h.milestones read = (h.log read).map .logged := by
  rw [milestones, log, List.map_filterMap]
  refine List.filterMap_congr fun n hn => ?_
  obtain ⟨r, rfl⟩ := hremarks n hn
  exact Note.milestone?_remark r

end

/-! ## One turn after the other -/

namespace Definition

/-- An attempt among others: its trial and number, its steps and its outcome. -/
structure Turn (σ : Type) where
  trial : TrialKey
  number : Nat
  steps : History σ
  outcome : AttemptOutcome

/-- What a view of the notes shows of an attempt, its announcement included. -/
def Turn.shows (view : Note → Option β) (t : Turn σ) : List β :=
  (Note.attempting t.trial t.number :: t.steps.notes).filterMap view

/-- **Attempts in a row**: a view that does not show how the invocation goes on from one to the next
shows them one by one. -/
theorem Turns.exists_turns {d : Definition σ} {board : Switchboard σ}
    {attempt : TrialKey → Nat → Program σ AttemptOutcome} {before later : List TrialKey}
    {current : TrialKey} {h : History σ} {result : Except DispatchError String}
    (view : Note → Option β)
    (hview : ∀ attempted current next, (d.onwardNotes attempted current next).filterMap view = [])
    (ht : d.Turns board attempt before current later h result) :
    ∃ turns : List (Turn σ),
      turns.map (fun t => (t.trial, t.number)) = (current :: later).zipIdx (before.length + 1) ∧
      (∀ t ∈ turns, (attempt t.trial t.number).Unfolds t.steps t.outcome) ∧
      h.notes.filterMap view = turns.flatMap (Turn.shows view) := by
  induction ht with
  | @last before current tried chosen outcome result htried hchoose =>
      refine ⟨[⟨current, before.length + 1, tried, outcome⟩], rfl, by simpa using htried, ?_⟩
      simp [Turn.shows, notes_of_choose hchoose]
  | @cancelled before current next tried chosen outcome htried hchoose =>
      refine ⟨[⟨current, before.length + 1, tried, outcome⟩], rfl, by simpa using htried, ?_⟩
      simp [Turn.shows, notes_of_choose hchoose]
  | @onward before later current next tried chosen rest outcome result htried hchoose _ ih =>
      obtain ⟨turns, hkeys, hturns, hshown⟩ := ih
      refine ⟨⟨current, before.length + 1, tried, outcome⟩ :: turns, by simp [hkeys],
        List.forall_mem_cons.mpr ⟨by simpa using htried, hturns⟩, ?_⟩
      have honward : (d.onwardSteps (before ++ [current]) current next).notes.filterMap view = [] := by
        rw [onwardSteps, History.notes_asked, History.notes_map_noted, hview]
      rw [List.flatMap_cons, ← hshown, Turn.shows, History.notes_noted, History.notes_append,
        History.notes_append, History.notes_append, notes_of_choose hchoose, List.nil_append,
        ← List.cons_append, List.filterMap_append, List.filterMap_append, honward]
      simp

/-- The experiment keeps a log: its decorators log each attempt, and neither the selection nor the
making of decorators makes marks. -/
structure Logs (read : Entry → Option Mark) (habit : Course → Prop) (ctx : Context)
    (d : Definition σ) : Prop where
  selection : (d.strategy.resolve ctx).Remarks fun r => Note.mark? read (.remark r) = none
  creation : ∀ f ∈ d.decorators, ∀ s, ∀ r ∈ (f.create ctx s).2.2,
    Note.mark? read (.remark r) = none
  decorators : ∀ f ∈ d.decorators, ∀ s, (f.create ctx s).1.Logs read habit

end Definition

namespace Dispatcher

variable {disp : Dispatcher σ} {type : ImplementationType}
  {call : Implementation → Work σ Yield} {d : Definition σ} {ctx : Context}
  {decorators : List (Decorator σ)} {h : History σ} {read : Entry → Option Mark}
  {habit : Course → Prop}

/-! ## The parts of an invocation -/

/-- Each factory makes one decorator, in the order of the factories. -/
theorem Creates.milestones {fs : List (DecoratorFactory σ)}
    (hcreation : ∀ f ∈ fs, ∀ s, ∀ r ∈ (f.create ctx s).2.2, Note.mark? read (.remark r) = none)
    (hc : Creates ctx fs h decorators) :
    List.Forall₂ (fun f dec => ∃ s, (f.create ctx s).1 = dec) fs decorators ∧
      h.milestones read = fs.map fun f => .created f.name := by
  induction hc with
  | nil => exact ⟨.nil, rfl⟩
  | @cons f s fs h decorators _ ih =>
      obtain ⟨hf, hfs⟩ := List.forall_mem_cons.mp hcreation
      obtain ⟨hmade, hrest⟩ := ih hfs
      have hremarks : History.milestones read
          (((f.create ctx s).2.2.map Note.remark).map Step.noted : History σ) = [] := by
        refine History.milestones_eq_nil fun n hn => ?_
        rw [History.notes_map_noted] at hn
        obtain ⟨r, hr, rfl⟩ := List.mem_map.mp hn
        rw [Note.milestone?_remark, hf s r hr]
        rfl
      refine ⟨.cons ⟨s, rfl⟩ hmade, ?_⟩
      rw [List.map_cons, ← hrest, ← List.nil_append (History.milestones read h), ← hremarks,
        ← History.milestones_append]
      rfl

/-- Deciding passes no milestone. -/
theorem milestones_of_decide (hd : d.Logs read habit ctx) {value : Option Decision}
    (hu : (disp.decide d ctx).Unfolds h value) : h.milestones read = [] := by
  refine History.milestones_eq_nil (Program.forall_mem_notes (notesOnly_decide ?_ rfl ?_) hu)
  · exact fun _ => rfl
  · have hselect := remarks_select (fun _ => rfl) hd.selection
    refine (Program.plain_guarded_of_remarks hselect none).mono fun n hn => ?_
    obtain ⟨r, rfl, hr⟩ := hn
    rw [Note.milestone?_remark, hr]
    rfl

theorem milestones_opening (read : Entry → Option Mark) (calls : List TelemetryCall) :
    History.milestones read ((calls.map Note.telemetry).map Step.noted : History σ) = [] := by
  refine History.milestones_eq_nil fun n hn => ?_
  rw [History.notes_map_noted] at hn
  obtain ⟨call, -, rfl⟩ := List.mem_map.mp hn
  rfl

theorem milestones_closing (read : Entry → Option Mark) (d : Definition σ) (ctx : Context)
    (result : Except DispatchError String) :
    History.milestones read ((resultNotes d ctx result ++ [Note.telemetry .dispose]).map
      Step.noted : History σ) = [] := by
  cases result <;> rfl

/-- What an attempt logs: nothing if there is no implementation, and otherwise a nest, of which an
attempt that is cut logs the beginning. -/
inductive Marked (disp : Dispatcher σ) (d : Definition σ) (ctx : Context)
    (decorators : List (Decorator σ)) (read : Entry → Option Mark) (habit : Course → Prop)
    (t : Definition.Turn σ) : Prop where
  | unresolvable (e : ResolveError) : t.outcome = .unresolvable e → t.steps.log read = [] →
    Marked disp d ctx decorators read habit t
  | whole {trial : Trial} {s : σ} {i : Implementation} {cs : List Course} :
    d.trials.get? t.trial = some trial → disp.resolver d.contract trial s = .ok i →
    Nested habit decorators cs → t.steps.log read = nest (.of ctx t.trial t.number) i cs →
    Marked disp d ctx decorators read habit t
  | cut {trial : Trial} {s : σ} {i : Implementation} {cs : List Course} :
    d.trials.get? t.trial = some trial → disp.resolver d.contract trial s = .ok i →
    Nested habit decorators cs → t.steps.log read <+: nest (.of ctx t.trial t.number) i cs →
    t.outcome = .cancelled ∨
      (∃ limit, disp.attemptBudget d = some limit ∧ t.outcome = .timedOut limit) →
    Marked disp d ctx decorators read habit t

theorem marked_of_tries (hlogs : ∀ dec ∈ decorators, dec.Logs read habit)
    (hcall : ∀ trial s i, disp.resolver d.contract trial s = .ok i →
      ∀ h y, (call i).Performs h (.done y) → h.log read = [.called i])
    {key : TrialKey} {number : Nat} {outcome : AttemptOutcome}
    (ht : disp.Tries type call d ctx decorators key number h outcome) :
    disp.Marked d ctx decorators read habit ⟨key, number, h, outcome⟩ ∧
      h.milestones read = (h.log read).map .logged := by
  cases ht with
  | unregistered _ => exact ⟨.unresolvable _ rfl rfl, rfl⟩
  | unresolved s e _ => exact ⟨.unresolvable e rfl rfl, rfl⟩
  | @ran trial s i steps _ htrial hresolved hu =>
      have hremarks : ∀ n ∈ steps.notes, ∃ r, n = .remark r :=
        Program.forall_mem_notes (plain_runAttempt (fun r => ⟨r, rfl⟩) _ _ _ _).notesOnly hu
      refine ⟨?_, History.milestones_of_remarks (h := steps) hremarks⟩
      obtain ⟨cs, hnested, hlog, hcancelled | hexpired | hwhole⟩ :=
        log_of_unfolds_runAttempt s hlogs (hcall trial s i hresolved) hu
      · exact .cut htrial hresolved hnested hlog (.inl hcancelled)
      · exact .cut htrial hresolved hnested hlog (.inr hexpired)
      · exact .whole htrial hresolved hnested hwhole

/-! ## The whole invocation -/

/-- **Decorators nest.**  An invocation that has its decision makes one decorator by each factory, in
the order of the factories and before its first attempt, and the same decorators surround all of its
attempts.  Its log is that of one attempt after the other.  An attempt that is not cut logs a nest: the
first marks of the decorators that are reached, from the outermost inwards, the call if the last of them
let the attempt proceed, and then the last marks, from the innermost outwards; each mark carries the
trial and the number of the attempt.  An attempt that its budget or a cancellation cuts logs the
beginning of a nest.  An invocation without a decision passes no milestone. -/
theorem decorators_nest (disp : Dispatcher σ) (type : ImplementationType)
    (call : Implementation → Work σ Yield) (ctx : Context) (d : Definition σ)
    (read : Entry → Option Mark) (habit : Course → Prop)
    (hd : disp.registry.get? ctx.contract = some d) (hlogs : d.Logs read habit ctx)
    (hcall : ∀ trial s i, disp.resolver d.contract trial s = .ok i →
      ∀ h y, (call i).Performs h (.done y) → h.log read = [.called i])
    (h : History σ) (result : Except DispatchError String)
    (hu : (disp.invoke type call ctx).Unfolds h result) :
    (result = .error (.cancelled none) ∧ h.milestones read = []) ∨
    ∃ (decorators : List (Decorator σ)) (turns : List (Definition.Turn σ)),
      List.Forall₂ (fun f dec => ∃ s, (f.create ctx s).1 = dec) d.decorators decorators ∧
      turns.map (fun t => (t.trial, t.number)) = attempts h.notes ∧
      h.milestones read = d.decorators.map (fun f => .created f.name) ++
        turns.flatMap (fun t => .attempted t.trial t.number :: (t.steps.log read).map .logged) ∧
      ∀ t ∈ turns,
        (disp.attempt type call d ctx decorators t.trial t.number).Unfolds t.steps t.outcome ∧
        disp.Marked d ctx decorators read habit t := by
  cases serves_of_unfolds hu with
  | unknown hnone =>
      rw [hd] at hnone
      cases hnone
  | undecided hd' hdecided =>
      obtain rfl := Option.some.inj (hd.symm.trans hd')
      exact .inl ⟨rfl, milestones_of_decide hlogs hdecided⟩
  | @served _ decision decorators later decided made tried _ hd' hdecided hmade hturns =>
      obtain rfl := Option.some.inj (hd.symm.trans hd')
      right
      obtain ⟨hdecorators, hcreated⟩ := (creates_of_unfolds hmade).milestones hlogs.creation
      have hdecoratorsLog : ∀ dec ∈ decorators, dec.Logs read habit := by
        intro dec hdec
        obtain ⟨f, hf, s, rfl⟩ := (creates_of_unfolds hmade).made.1 dec hdec
        exact hlogs.decorators f hf s
      obtain ⟨turns, hkeys, htried, hshown⟩ :=
        hturns.exists_turns (Note.milestone? read) fun _ _ _ => rfl
      have hmarked := fun t ht =>
        marked_of_tries hdecoratorsLog hcall (tries_of_unfolds (htried t ht))
      refine ⟨decorators, turns, hdecorators, ?_, ?_, fun t ht => ⟨htried t ht, (hmarked t ht).1⟩⟩
      · exact hkeys.trans (attempts_of_served hdecided hmade hturns).symm
      · have hturn : ∀ t ∈ turns, t.shows (Note.milestone? read) =
            .attempted t.trial t.number :: (t.steps.log read).map .logged :=
          fun t ht => congrArg (_ :: ·) (hmarked t ht).2
        rw [History.milestones_append, History.milestones_append, History.milestones_append,
          History.milestones_append, milestones_of_decide hlogs hdecided, milestones_opening,
          hcreated, milestones_closing, List.nil_append, List.nil_append, List.append_nil,
          ← List.flatMap_congr hturn]
        exact congrArg (_ ++ ·) hshown

/-! ### Deliveries that are logged -/

/-- Logs each attempt before and after. -/
def clerk : Decorator KillSwitch where
  name := "clerk"
  around a := .remark (.entry (.before "clerk" a 0)) <| .done <| .proceed fun y =>
    .remark (.entry (.timing a.trial a.number y.isOk)) (.done y)

/-- Logs each attempt before, and settles the first one. -/
def gate : Decorator KillSwitch where
  name := "gate"
  around a := .remark (.entry (.before "gate" a 0)) <| .done <|
    if a.isReplay then .proceed .done else .settle (.failure "closed")

def readMark : Entry → Option Mark
  | .before decorator a _ => some (.before decorator a.trial a.number)
  | .call trial _ => some (.called (.text trial.text))
  | .timing trial number _ => some (.after "clerk" trial number)
  | _ => none

/-- Only the clerk logs at the end. -/
def clerkEnds (c : Course) : Prop :=
  c.logsAfter = (c.decorator == "clerk")

def loggedDelivery : Definition KillSwitch :=
  { delivery with
    decorators := [.constant "clerk" fun _ => clerk, .constant "gate" fun _ => gate] }

def loggedDispatcher : Dispatcher KillSwitch :=
  { deliveryDispatcher with registry := ⟨[loggedDelivery], by decide⟩ }

/-- Every courier logs the call and delivers. -/
def loggedCall : Implementation → Work KillSwitch Yield
  | .text name => .remark (.entry (.call ⟨name⟩ none)) (.done (.output "delivered"))
  | _ => .done .foreignOutput

def loggedHistory : History KillSwitch :=
  (loggedDispatcher.invoke .text loggedCall deliveryContext).history .live
    ⟨0, .empty 8, KillSwitch.allOn⟩

/-- What the delivery comes by: the gate settles the first attempt, and the second one is served. -/
def loggedMilestones : List Milestone :=
  [.created "clerk", .created "gate",
    .attempted ⟨"express"⟩ 1, .logged (.before "clerk" ⟨"express"⟩ 1),
    .logged (.before "gate" ⟨"express"⟩ 1), .logged (.after "clerk" ⟨"express"⟩ 1),
    .attempted ⟨"pickup"⟩ 2, .logged (.before "clerk" ⟨"pickup"⟩ 2),
    .logged (.before "gate" ⟨"pickup"⟩ 2), .logged (.called (.text "pickup")),
    .logged (.after "clerk" ⟨"pickup"⟩ 2)]

theorem logs_clerk : clerk.Logs readMark clerkEnds where
  settles a h y hs := by
    cases hs with
    | remark _ hs => cases hs
  proceeds a h after hs := by
    cases hs with
    | remark _ hs =>
        cases hs
        refine ⟨rfl, fun y h' y' hafter => ?_⟩
        cases hafter with
        | remark _ hafter =>
            cases hafter
            exact ⟨true, rfl, rfl⟩

theorem logs_gate : gate.Logs readMark clerkEnds where
  settles a h y hs := by
    cases hs with
    | remark _ hs =>
        obtain ⟨rfl, -⟩ := Work.performs_done hs
        exact ⟨false, rfl, rfl⟩
  proceeds a h after hs := by
    cases hs with
    | remark _ hs =>
        obtain ⟨rfl, hstance⟩ := Work.performs_done hs
        refine ⟨rfl, fun y h' y' hafter => ?_⟩
        split at hstance
        · cases hstance
          obtain ⟨rfl, -⟩ := Work.performs_done hafter
          exact ⟨false, rfl, rfl⟩
        · cases hstance

theorem logs_loggedDelivery : loggedDelivery.Logs readMark clerkEnds deliveryContext where
  selection := trivial
  creation := by simp [loggedDelivery, DecoratorFactory.constant]
  decorators := by simp [loggedDelivery, DecoratorFactory.constant, logs_clerk, logs_gate]

theorem log_loggedCall {trial : Trial} {s : KillSwitch} {i : Implementation} {h : History KillSwitch}
    {y : Yield} (hresolved : loggedDispatcher.resolver loggedDelivery.contract trial s = .ok i)
    (hp : (loggedCall i).Performs h (.done y)) : h.log readMark = [.called i] := by
  cases hresolved
  cases hp with
  | remark _ hp =>
      cases hp
      rfl

/-- The clerk logs the end also of the attempt that the gate has settled, and the replay passes the
same two decorators. -/
theorem decorators_nest_logged :
    loggedDispatcher.registry.get? deliveryContext.contract = some loggedDelivery ∧
    (loggedDispatcher.invoke .text loggedCall deliveryContext).Unfolds loggedHistory
      (.ok "delivered") ∧
    loggedHistory.milestones readMark = loggedMilestones ∧
    ∃ (decorators : List (Decorator KillSwitch)) (turns : List (Definition.Turn KillSwitch)),
      List.Forall₂ (fun f dec => ∃ s, (f.create deliveryContext s).1 = dec) loggedDelivery.decorators
        decorators ∧
      ∀ t ∈ turns,
        loggedDispatcher.Marked loggedDelivery deliveryContext decorators readMark clerkEnds t := by
  have hvalue : ((loggedDispatcher.invoke .text loggedCall deliveryContext).run .live
      ⟨0, .empty 8, KillSwitch.allOn⟩).value = .ok "delivered" := by
    decide +kernel
  have hmilestones : loggedHistory.milestones readMark = loggedMilestones := by
    decide +kernel
  have hu := Program.unfolds_history
    (loggedDispatcher.invoke .text loggedCall deliveryContext) .live
    ⟨0, .empty 8, KillSwitch.allOn⟩
  rw [hvalue] at hu
  refine ⟨rfl, hu, hmilestones, ?_⟩
  obtain ⟨hcancelled, -⟩ | ⟨decorators, turns, hmade, -, -, hturns⟩ :=
    decorators_nest loggedDispatcher .text loggedCall deliveryContext loggedDelivery readMark clerkEnds
      rfl logs_loggedDelivery (fun _ _ _ hresolved _ _ => log_loggedCall hresolved) loggedHistory _ hu
  · cases hcancelled
  · exact ⟨decorators, turns, hmade, fun t ht => (hturns t ht).2⟩

end Dispatcher

end TrialRouting
