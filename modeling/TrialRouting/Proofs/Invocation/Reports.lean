import TrialRouting.Proofs.Invocation.Disabled
import TrialRouting.Proofs.Invocation.Unfolding

/-!
# TrialRouting.Proofs.Invocation.Reports

What an invocation reports.  The protocol of an invocation are its reports and
the beginnings of its attempts, in the order in which they are noted; nothing
else that is noted matters here.

Reports come from four places: the opening, the replays between attempts, the
closing, and the disposal of the telemetry scope.  A replay is reported by the
step that goes on to it, after the look at the cancellation, so its report is
followed by its attempt at once (`Turns.protocol`).  The main theorem puts the
places together: an invocation that has its decision goes through the whole
protocol, however its attempts end, and one that has none reports nothing.
-/

namespace TrialRouting

variable {σ : Type}

/-! ## The protocol -/

/-- The note is a report or begins an attempt. -/
def Note.isProtocol (n : Note) : Bool :=
  n.report?.isSome || n.attempt?.isSome

/-- The reports and the beginnings of attempts, of all that is noted. -/
def protocol (ns : List Note) : List Note :=
  ns.filter Note.isProtocol

@[simp] theorem protocol_nil : protocol [] = [] := rfl

@[simp] theorem protocol_append (ns ms : List Note) :
    protocol (ns ++ ms) = protocol ns ++ protocol ms :=
  List.filter_append ns ms

@[simp] theorem protocol_attempting (key : TrialKey) (number : Nat) (ns : List Note) :
    protocol (.attempting key number :: ns) = .attempting key number :: protocol ns := rfl

@[simp] theorem protocol_telemetry (call : TelemetryCall) (ns : List Note) :
    protocol (.telemetry call :: ns) = .telemetry call :: protocol ns := rfl

theorem protocol_eq_nil_of_forall {ns : List Note}
    (h : ∀ n ∈ ns, n.report? = none ∧ n.attempt? = none) : protocol ns = [] := by
  refine List.filter_eq_nil_iff.mpr fun n hn => ?_
  simp [Note.isProtocol, h n hn]

@[simp] theorem protocol_map_telemetry (calls : List TelemetryCall) :
    protocol (calls.map Note.telemetry) = calls.map Note.telemetry :=
  List.filter_eq_self.mpr fun n hn => by
    obtain ⟨call, -, rfl⟩ := List.mem_map.mp hn
    rfl

/-- The protocol has all the reports. -/
theorem reports_protocol (ns : List Note) : reports (protocol ns) = reports ns := by
  unfold reports protocol
  rw [List.filterMap_filter]
  refine List.filterMap_congr fun n _ => ?_
  cases n <;> rfl

/-- The protocol has all the attempts. -/
theorem attempts_protocol (ns : List Note) : attempts (protocol ns) = attempts ns := by
  unfold attempts protocol
  rw [List.filterMap_filter]
  refine List.filterMap_congr fun n _ => ?_
  cases n <;> rfl

/-! ## Replays -/

/-- A replay is reported and then attempted. -/
def replayNotes (replay : TrialKey × Nat) : List Note :=
  [.telemetry (.fallback replay.1), .attempting replay.1 replay.2]

theorem reports_flatMap_replayNotes (replays : List (TrialKey × Nat)) :
    reports (replays.flatMap replayNotes) = replays.map fun replay => .fallback replay.1 := by
  induction replays with
  | nil => rfl
  | cons replay replays ih =>
      rw [List.flatMap_cons, reports_append, ih]
      rfl

theorem attempts_flatMap_replayNotes (replays : List (TrialKey × Nat)) :
    attempts (replays.flatMap replayNotes) = replays := by
  induction replays with
  | nil => rfl
  | cons replay replays ih =>
      rw [List.flatMap_cons, attempts_append, ih]
      rfl

/-- **A row of turns** attempts its first trial, and reports each other one right before its
attempt. -/
theorem Definition.Turns.protocol {d : Definition σ} {board : Switchboard σ}
    {attempt : TrialKey → Nat → Program σ AttemptOutcome} {before later : List TrialKey}
    {current : TrialKey} {h : History σ} {result : Except DispatchError String}
    (hsilent : ∀ key number h outcome, (attempt key number).Unfolds h outcome →
      TrialRouting.protocol h.notes = [])
    (ht : d.Turns board attempt before current later h result) :
    TrialRouting.protocol h.notes =
      .attempting current (before.length + 1) ::
        (later.zipIdx (before.length + 2)).flatMap replayNotes := by
  induction ht with
  | last htried hchoose =>
      simp [hsilent _ _ _ _ htried, notes_of_choose hchoose]
  | cancelled htried hchoose =>
      simp [hsilent _ _ _ _ htried, notes_of_choose hchoose]
  | @onward before later current next tried chosen rest outcome result htried hchoose _ ih =>
      have honward : TrialRouting.protocol (d.onwardNotes (before ++ [current]) current next) =
          [.telemetry (.fallback next)] := rfl
      simp [hsilent _ _ _ _ htried, notes_of_choose hchoose, ih, onwardSteps, honward, replayNotes]

namespace Dispatcher

/-! ## The parts that report nothing -/

theorem protocol_of_inward {α : Type} {p : Program σ α} (hp : p.Plain Note.Inward) {h : History σ}
    {a : α} (hu : p.Unfolds h a) : protocol h.notes = [] :=
  protocol_eq_nil_of_forall fun n hn =>
    have hinward := Program.forall_mem_notes hp.notesOnly hu n hn
    ⟨hinward.report, hinward.attempt⟩

/-- Nothing is reported or attempted while an invocation decides. -/
theorem protocol_of_decide {disp : Dispatcher σ} {d : Definition σ} {ctx : Context} {h : History σ}
    {value : Option Decision} (hu : (disp.decide d ctx).Unfolds h value) :
    protocol h.notes = [] := by
  refine protocol_eq_nil_of_forall (Program.forall_mem_notes (notesOnly_decide ?_ ?_ ?_) hu)
  · exact fun _ => ⟨rfl, rfl⟩
  · exact ⟨rfl, rfl⟩
  · exact Program.plain_guarded (fun _ => ⟨rfl, rfl⟩) _ _

/-! ## The whole invocation -/

/-- The report of a result: success, or the very error that is returned. -/
def closingReport : Except DispatchError String → TelemetryCall
  | .ok _ => .success
  | .error e => .failure (.dispatch e)

theorem protocol_resultNotes (d : Definition σ) (ctx : Context)
    (result : Except DispatchError String) :
    protocol (resultNotes d ctx result) = [.telemetry (closingReport result)] := by
  cases result <;> rfl

/-- The protocol of an invocation with its decision, its replays and its result. -/
def wholeProtocol (d : Definition σ) (ctx : Context) (decision : Decision)
    (replays : List (TrialKey × Nat)) (result : Except DispatchError String) : List Note :=
  (openingReports d ctx decision).map Note.telemetry ++
    (.attempting decision.trial 1 :: replays.flatMap replayNotes ++
      [.telemetry (closingReport result), .telemetry .dispose])

theorem attempts_wholeProtocol (d : Definition σ) (ctx : Context) (decision : Decision)
    (replays : List (TrialKey × Nat)) (result : Except DispatchError String) :
    attempts (wholeProtocol d ctx decision replays result) = (decision.trial, 1) :: replays := by
  have hclosing : attempts [.telemetry (closingReport result), .telemetry .dispose] = [] := rfl
  rw [wholeProtocol, attempts_append, attempts_openingReports, List.nil_append, attempts_append,
    attempts_attempting, attempts_flatMap_replayNotes, hclosing, List.append_nil]

theorem reports_wholeProtocol (d : Definition σ) (ctx : Context) (decision : Decision)
    (replays : List (TrialKey × Nat)) (result : Except DispatchError String) :
    reports (wholeProtocol d ctx decision replays result) = openingReports d ctx decision ++
      ((replays.map fun replay => .fallback replay.1) ++ [closingReport result, .dispose]) := by
  have hattempting (ns : List Note) :
      reports (.attempting decision.trial 1 :: ns) = reports ns := rfl
  rw [wholeProtocol, reports_append, reports_openingReports, reports_append, hattempting,
    reports_flatMap_replayNotes]
  rfl

/-- An invocation that has its decision goes through its whole protocol. -/
theorem protocol_of_served {disp : Dispatcher σ} {type : ImplementationType}
    {call : Implementation → Work σ Yield} {d : Definition σ} {ctx : Context} {decision : Decision}
    {decorators : List (Decorator σ)} {later : List TrialKey} {decided made tried : History σ}
    {result : Except DispatchError String}
    (hdecided : (disp.decide d ctx).Unfolds decided (some decision))
    (hmade : (createDecorators ctx d.decorators).Unfolds made decorators)
    (hturns : d.Turns disp.board (disp.attempt type call d ctx decorators) [] decision.trial later
      tried result) :
    protocol (History.notes (decided ++
        (((openingReports d ctx decision).map Note.telemetry).map .noted ++
          (made ++ (tried ++ (resultNotes d ctx result ++ [Note.telemetry .dispose]).map
            .noted))))) =
      wholeProtocol d ctx decision (later.zipIdx 2) result := by
  have hattempt : ∀ key number h outcome,
      (disp.attempt type call d ctx decorators key number).Unfolds h outcome →
        protocol h.notes = [] := fun key number _ _ hu =>
    protocol_of_inward (plain_attempt disp type call d ctx decorators key number) hu
  have hmade := protocol_of_inward (plain_createDecorators ctx d.decorators) hmade
  simp only [History.notes_append, History.notes_map_noted, protocol_append,
    protocol_map_telemetry, protocol_of_decide hdecided, hmade, hturns.protocol hattempt,
    protocol_resultNotes, protocol_telemetry, protocol_nil]
  rfl

/-- **What an invocation reports.**  An invocation without a definition, or without a decision,
reports nothing.  Any other goes through its protocol, whatever others do meanwhile: it starts
with the trial of its decision, names the selector, and reports a fallback if the decision is a
substitute; it attempts the trial; it reports each replay and attempts it; it reports its result,
and disposes of its telemetry scope. -/
theorem reports_of_unfolds_invoke (disp : Dispatcher σ) (type : ImplementationType)
    (call : Implementation → Work σ Yield) (ctx : Context) (h : History σ)
    (result : Except DispatchError String) (hu : (disp.invoke type call ctx).Unfolds h result) :
    match disp.registry.get? ctx.contract with
    | none => result = .error (.definitionNotFound ctx.contract) ∧ reports h.notes = []
    | some d => ∃ decided served value,
      h = decided ++ served ∧ (disp.decide d ctx).Unfolds decided value ∧
        match value with
        | none => served = [] ∧ result = .error (.cancelled none) ∧ reports h.notes = []
        | some decision => ∃ replays,
          attempts h.notes = (decision.trial, 1) :: replays ∧
          reports h.notes = openingReports d ctx decision ++
            ((replays.map fun replay => .fallback replay.1) ++ [closingReport result, .dispose]) ∧
          protocol h.notes = wholeProtocol d ctx decision replays result := by
  cases serves_of_unfolds hu with
  | unknown hd =>
      rw [hd]
      exact ⟨rfl, rfl⟩
  | undecided hd hdecided =>
      rw [hd]
      refine ⟨h, [], none, (List.append_nil h).symm, hdecided, rfl, rfl, ?_⟩
      rw [← reports_protocol, protocol_of_decide hdecided, reports_nil]
  | @served d decision decorators later decided made tried _ hd hdecided hmade hturns =>
      rw [hd]
      refine ⟨decided, _, some decision, rfl, hdecided, later.zipIdx 2, ?_⟩
      have hwhole := protocol_of_served hdecided hmade hturns
      rw [← attempts_protocol, ← reports_protocol, ← attempts_wholeProtocol d ctx decision _ result,
        ← reports_wholeProtocol]
      exact ⟨congrArg attempts hwhole, congrArg reports hwhole, hwhole⟩

/-! ### The checkout while it is off -/

/-- The steps of the invocation that breaks the promise of the switch. -/
def checkoutHistory : History KillSwitch :=
  (checkoutDispatcher.invoke .word checkoutCall checkoutContext).history .live checkoutOff

theorem unfolds_checkoutHistory :
    (checkoutDispatcher.invoke .word checkoutCall checkoutContext).Unfolds checkoutHistory
      (.ok "streamlined") := by
  have hvalue : ((checkoutDispatcher.invoke .word checkoutCall checkoutContext).run .live
      checkoutOff).value = .ok "streamlined" := by
    cbv
  rw [← hvalue]
  exact Program.unfolds_history _ _ _

theorem reports_of_checkoutHistory :
    (checkoutDispatcher.invoke .word checkoutCall checkoutContext).Unfolds checkoutHistory
      (.ok "streamlined") ∧
    ∃ decision, decision.trial = ⟨"legacy"⟩ ∧
      reports checkoutHistory.notes = openingReports checkout checkoutContext decision ++
        [.fallback ⟨"streamlined"⟩, .success, .dispose] := by
  refine ⟨unfolds_checkoutHistory, ?_⟩
  have hreports := reports_of_unfolds_invoke checkoutDispatcher .word checkoutCall checkoutContext
    checkoutHistory (.ok "streamlined") unfolds_checkoutHistory
  obtain ⟨decided, served, value, _, _, hvalue⟩ := hreports
  cases value with
  | none => cases hvalue.2.1
  | some decision =>
      obtain ⟨replays, hattempts, hreports, _⟩ := hvalue
      have hcheckout : attempts checkoutHistory.notes = [(⟨"legacy"⟩, 1), (⟨"streamlined"⟩, 2)] := by
        cbv
      obtain ⟨hfirst, hreplays⟩ := List.cons.inj (hcheckout.symm.trans hattempts)
      rw [← hreplays] at hreports
      exact ⟨decision, (congrArg Prod.fst hfirst).symm, hreports⟩

end Dispatcher

end TrialRouting
