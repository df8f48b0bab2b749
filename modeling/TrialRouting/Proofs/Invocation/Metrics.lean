import TrialRouting.Proofs.Invocation.Reports
import TrialRouting.Proofs.Metrics
import TrialRouting.Proofs.Unfolding.Crowd

/-!
# TrialRouting.Proofs.Invocation.Metrics

The metrics of a dispatcher balance.  An invocation that has come to its end
(`Served`) moves the metrics of its fallbacks and of its outcome, and one
without a decision moves none (`Served.moved_eq`).  Any number of invocations,
one after the other or at the same time, move what each of them moves
(`countP_metrics`), so that counters that agree for one invocation agree for
all of them.
-/

namespace TrialRouting

variable {σ α : Type}

/-! ## What a program comes to -/

namespace Program

/-- What a program comes to by the first steps of a history, if they are its own. -/
def along : Program σ α → History σ → Option α
  | .done a, _ => some a
  | .note _ p, .noted _ :: h => p.along h
  | .act _ k, .acted _ s :: h => (k s).along h
  | .sleep _ p, .slept _ :: h => p.along h
  | .cancelled k, .asked c :: h => (k c).along h
  | .cancel p, .cancelled :: h => p.along h
  | .claim _ k, .claimed _ c :: h => (k c).along h
  | .settle _ _ p, .settled _ _ :: h => p.along h
  | .track _ p, .tracked _ :: h => p.along h
  | _, _ => none

theorem Unfolds.along {p : Program σ α} {h : History σ} {a : α} (hu : p.Unfolds h a)
    (later : History σ) : p.along (h ++ later) = some a := by
  induction hu with
  | done a => cases later <;> rfl
  | note n _ ih => exact ih
  | act u s _ ih => exact ih
  | sleep ms _ ih => exact ih
  | cancelled c _ ih => exact ih
  | cancel _ ih => exact ih
  | claim key c _ ih => exact ih
  | settle key d _ ih => exact ih
  | track key _ ih => exact ih

end Program

namespace Dispatcher

open TrialRouting.Metric

variable {disp : Dispatcher σ}

/-! ## Invocations that are over -/

/-- An invocation that has come to its end, whatever else went on meanwhile. -/
structure Served (disp : Dispatcher σ) where
  type : ImplementationType
  call : Implementation → Work σ Yield
  ctx : Context
  history : History σ
  result : Except DispatchError String
  unfolds : (disp.invoke type call ctx).Unfolds history result

namespace Served

variable (i : disp.Served)

/-- The decision that the invocation has obtained. -/
def decision? : Option Decision :=
  (disp.registry.get? i.ctx.contract).bind fun d => ((disp.decide d i.ctx).along i.history).join

/-- The trial that the invocation has started with as a substitute. -/
def substitute? : Option TrialKey :=
  (i.decision?.filter Decision.isSubstituted).map (·.trial)

/-- The trials on which the invocation was replayed. -/
def replays : List TrialKey :=
  (attempts i.history.notes).tail.map (·.1)

/-- An invocation that has the session for itself. -/
def ofRun (type : ImplementationType) (call : Implementation → Work σ Yield) (ctx : Context)
    (t : Token) (s : Session σ) : disp.Served :=
  ⟨type, call, ctx, (disp.invoke type call ctx).history t s,
    ((disp.invoke type call ctx).run t s).value, Program.unfolds_history _ _ _⟩

/-- The metrics that the reports of the invocation move. -/
def moved : List Metric :=
  TelemetryKind.metrics.moves none (reports i.history.notes)

/-- The metrics of the end of an invocation that started with a trial. -/
def closingMetrics (contract : ContractId) (trial : TrialKey) :
    Except DispatchError String → List Metric
  | .ok _ => [.invocations contract trial .success, .seconds contract trial]
  | .error e =>
    [.failures contract trial, .invocations contract trial (.failure e.message),
      .seconds contract trial]

/-- The metrics of the end of the invocation, if it has a decision. -/
def closing : List Metric :=
  (i.decision?.map fun x => closingMetrics i.ctx.contract x.trial i.result).getD []

/-- What is known when an invocation has opened. -/
theorem moves_opening (d : Definition σ) (ctx : Context) (decision : Decision)
    (calls : List TelemetryCall) :
    ∃ scope : TelemetryScope, scope.info.contract = d.contract ∧ scope.info.trial = decision.trial ∧
      TelemetryKind.metrics.moves none (openingReports d ctx decision ++ calls) =
        TelemetryKind.metrics.moves (some scope)
          ((if decision.isSubstituted then [decision.trial] else []).map TelemetryCall.fallback ++
            calls) := by
  refine ⟨(TelemetryScope.opened ⟨d.contract, ctx.method, ctx.scope, d.strategy.kind,
    decision.trial, decision.candidates⟩).note
      (.variant d.strategy.name d.strategy.kind.name), rfl, rfl, ?_⟩
  unfold openingReports
  split <;> rfl

theorem moves_closing (scope : TelemetryScope) (result : Except DispatchError String) :
    TelemetryKind.metrics.moves (some scope) [closingReport result, .dispose] =
      closingMetrics scope.info.contract scope.info.trial result := by
  cases result <;> rfl

/-- **What one invocation moves**: the fallbacks of its substitute and of its replays, and the
metrics of its end; nothing if it has no decision. -/
theorem moved_eq :
    i.moved =
      (i.substitute?.toList ++ i.replays).map (.fallbacks i.ctx.contract) ++ i.closing := by
  obtain ⟨type, call, ctx, history, result, unfolds⟩ := i
  cases serves_of_unfolds unfolds with
  | unknown hd =>
      have hdecision : decision? ⟨type, call, ctx, _, _, unfolds⟩ = none := by
        rw [decision?, hd]
        rfl
      rw [closing, substitute?, hdecision]
      rfl
  | undecided hd hdecided =>
      have hdecision : decision? ⟨type, call, ctx, history, _, unfolds⟩ = none := by
        have halong := hdecided.along []
        rw [List.append_nil] at halong
        simp [decision?, hd, halong]
      have hreports : reports history.notes = [] := by
        rw [← reports_protocol, protocol_of_decide hdecided, reports_nil]
      rw [closing, substitute?, hdecision, replays, moved, hreports, attempts_of_decide hdecided]
      rfl
  | @served d decision decorators later decided made tried _ hd hdecided hmade hturns =>
      have hdecision : decision? ⟨type, call, ctx, _, _, unfolds⟩ = some decision := by
        simp [decision?, hd, hdecided.along]
      have hwhole := protocol_of_served hdecided hmade hturns
      have hsubstitute : substitute? ⟨type, call, ctx, _, _, unfolds⟩ =
          if decision.isSubstituted then some decision.trial else none := by
        rw [substitute?, hdecision]
        cases h : decision.isSubstituted <;> simp [Option.filter, h]
      have hreplays : replays ⟨type, call, ctx, _, _, unfolds⟩ = (later.zipIdx 2).map (·.1) := by
        rw [replays, ← attempts_protocol, hwhole, attempts_wholeProtocol]
        rfl
      obtain ⟨scope, hscope, htrial, hmoves⟩ := moves_opening d ctx decision
        (((later.zipIdx 2).map fun replay => .fallback replay.1) ++
          [closingReport result, .dispose])
      have hfallbacks : ((later.zipIdx 2).map fun replay => TelemetryCall.fallback replay.1) =
          ((later.zipIdx 2).map (·.1)).map TelemetryCall.fallback := by
        rw [List.map_map]
        rfl
      rw [moved, ← reports_protocol, hwhole, reports_wholeProtocol, hmoves, hfallbacks,
        ← List.append_assoc, ← List.map_append, TelemetryKind.moves_fallbacks, moves_closing, hscope,
        htrial, Registry.contract_of_get? hd, closing, hdecision, hsubstitute, hreplays]
      split <;> rfl

/-- A meter of no fallback is moved by the end of the invocation only. -/
theorem readings_moved {p : Meter → Bool}
    (hp : ∀ contract trial, p (Metric.fallbacks contract trial).meter = false) :
    readings i.moved p = readings i.closing p := by
  have hfallbacks : ((i.substitute?.toList ++ i.replays).map
      (Metric.fallbacks i.ctx.contract)).countP (fun m => p m.meter) = 0 := by
    rw [List.countP_map, List.countP_eq_zero]
    intro trial _
    simp [hp]
  rw [readings_eq_countP, readings_eq_countP, moved_eq, List.countP_append, hfallbacks,
    Nat.zero_add]

theorem reading_moved {m : Metric} (hm : m.name ≠ "trialswitch_fallbacks_total") :
    reading i.moved m = reading i.closing m := by
  refine i.readings_moved fun contract trial => decide_eq_false fun h => hm ?_
  exact (congrArg Prod.fst h).symm

/-- What the end of an invocation moves: one counter of its outcome, a second one if it has failed,
and the time. -/
theorem readings_closing (p : Meter → Bool) :
    readings i.closing p = match i.decision? with
      | none => 0
      | some x =>
        let shows (m : Metric) := if p m.meter then 1 else 0
        shows (.seconds i.ctx.contract x.trial) + match i.result with
          | .ok _ => shows (.invocations i.ctx.contract x.trial .success)
          | .error e => shows (.failures i.ctx.contract x.trial) +
              shows (.invocations i.ctx.contract x.trial (.failure e.message)) := by
  rw [readings_eq_countP, closing]
  cases i.decision? with
  | none => rfl
  | some x =>
      cases i.result with
      | ok output => simp [closingMetrics, List.countP_cons, Nat.add_comm]
      | error e =>
          simp only [closingMetrics, Option.map_some, Option.getD_some, List.countP_cons,
            List.countP_nil]
          omega

/-- A failure is counted twice, by its trial and by its outcome. -/
theorem reading_failures (contract : ContractId) (trial : TrialKey) (error : String) :
    reading i.moved (.failures contract trial) =
      reading i.moved (.invocations contract trial (.failure error)) := by
  rw [i.reading_moved (by simp [Metric.name]), i.reading_moved (by simp [Metric.name]), reading,
    reading, readings_closing, readings_closing]
  cases i.decision? with
  | none => rfl
  | some decision =>
      cases i.result <;> simp [meter_eq_iff, Metric.name, labels, Outcome.label]

/-- The time of an invocation is measured once, whatever its outcome. -/
theorem reading_seconds (contract : ContractId) (trial : TrialKey) (error : String) :
    reading i.moved (.seconds contract trial) =
      reading i.moved (.invocations contract trial .success) +
        reading i.moved (.invocations contract trial (.failure error)) := by
  rw [i.reading_moved (by simp [Metric.name]), i.reading_moved (by simp [Metric.name]),
    i.reading_moved (by simp [Metric.name]), reading, reading, reading, readings_closing,
    readings_closing, readings_closing]
  cases i.decision? with
  | none => rfl
  | some decision =>
      cases i.result <;> simp [meter_eq_iff, Metric.name, labels, Outcome.label]

theorem readings_unknown : readings i.moved countsUnknown = 0 := by
  rw [i.readings_moved fun _ _ => by simp [countsUnknown, meter, Metric.name], readings_closing]
  cases i.decision? with
  | none => rfl
  | some decision =>
      cases i.result <;> simp [countsUnknown, meter, Metric.name, labels, Outcome.label]

theorem readings_invocations (contract : ContractId) :
    readings i.moved (countsInvocations contract) =
      if i.ctx.contract = contract ∧ i.decision?.isSome then 1 else 0 := by
  rw [i.readings_moved fun _ _ => by simp [countsInvocations, meter, Metric.name],
    readings_closing]
  cases i.decision? with
  | none => simp
  | some decision =>
      obtain ⟨text⟩ := contract
      cases hcontract : i.ctx.contract
      cases i.result <;>
        simp [countsInvocations, meter, Metric.name, labels, eq_comm]

/-- A fallback is counted for the substitute, and for each replay. -/
theorem reading_fallbacks (contract : ContractId) (trial : TrialKey) :
    reading i.moved (.fallbacks contract trial) =
      if i.ctx.contract = contract then
        (if i.substitute? = some trial then 1 else 0) + i.replays.count trial
      else 0 := by
  have hclosing : i.closing.countP (fun m => m.meter = (fallbacks contract trial).meter) = 0 := by
    rw [closing]
    cases i.decision? with
    | none => rfl
    | some decision =>
        cases i.result <;> simp [closingMetrics, meter_eq_iff, Metric.name]
  have hsame (key : TrialKey) : (fallbacks i.ctx.contract key).meter =
      (fallbacks contract trial).meter ↔ i.ctx.contract = contract ∧ key = trial := by
    obtain ⟨text⟩ := contract
    obtain ⟨text'⟩ := trial
    obtain ⟨text''⟩ := key
    cases hcontract : i.ctx.contract
    simp [meter_eq_iff, Metric.name, labels]
  have hsubstitute : i.substitute?.toList.count trial =
      if i.substitute? = some trial then 1 else 0 := by
    cases i.substitute? with
    | none => rfl
    | some key => simp [List.count_cons]
  rw [reading, readings_eq_countP, moved_eq, List.countP_append, hclosing, Nat.add_zero,
    List.countP_map, ← hsubstitute, ← List.count_append, List.count]
  split
  · next hcontract =>
      refine List.countP_congr fun key _ => ?_
      simpa [hcontract] using hsame key
  · next hcontract =>
      refine List.countP_eq_zero.mpr fun key _ => ?_
      simpa [hcontract] using hsame key

end Served

/-! ## Many invocations -/

/-- To add one for some of the items is to count them. -/
theorem sum_map_ite_one {α : Type} (p : α → Prop) [DecidablePred p] (xs : List α) :
    (xs.map fun x => if p x then 1 else 0).sum = xs.countP p := by
  rw [List.sum_map_ite]
  simp [List.countP_eq_length_filter]

/-- The notes are those of the invocations, each at its place, in any order that keeps the reports
of each invocation in theirs. -/
def Tells (served : List disp.Served) (notes : List (Nat × Note)) : Prop :=
  ∀ place, reports (notesAt place notes) =
    (served[place]?.map fun i => reports i.history.notes).getD []

/-- The notes of invocations of which each begins after the one before it has ended. -/
def oneAfterAnother (served : List disp.Served) : List (Nat × Note) :=
  served.zipIdx.flatMap fun (i, place) => i.history.notes.map (place, ·)

theorem tells_oneAfterAnother (served : List disp.Served) :
    Tells served (oneAfterAnother served) := by
  intro place
  induction served using List.reverseRecOn with
  | nil => rfl
  | append_singleton served i ih =>
      have hnotes : oneAfterAnother (served ++ [i]) =
          oneAfterAnother served ++ i.history.notes.map (served.length, ·) := by
        simp [oneAfterAnother, List.zipIdx_append]
      rw [hnotes, notesAt_append, notesAt_map, reports_append, ih]
      obtain hlt | rfl | hgt := Nat.lt_trichotomy place served.length
      · rw [if_neg (Nat.ne_of_lt hlt), List.getElem?_append_left hlt, reports_nil, List.append_nil]
      · simp
      · have hbeyond : (served ++ [i]).length ≤ place := by
          rw [List.length_append]
          exact hgt
        rw [if_neg (Nat.ne_of_gt hgt), List.getElem?_eq_none (Nat.le_of_lt hgt),
          List.getElem?_eq_none hbeyond]
        rfl

/-- The members of a crowd that all invoke a dispatcher, and have all ended, tell of their
invocations. -/
theorem exists_served_of_crowd (s : Session σ)
    (entrants : List (Crowd.Entrant σ (Except DispatchError String)))
    (hinvoke : ∀ e ∈ entrants, ∃ type call ctx, e.program = disp.invoke type call ctx)
    (hended : ∀ m ∈ (Crowd.gather s entrants).run.members, m.result?.isSome) :
    ∃ served : List disp.Served,
      served.map (fun i => disp.invoke i.type i.call i.ctx) = entrants.map (·.program) ∧
        Tells served (Crowd.gather s entrants).run.notes.reverse := by
  obtain ⟨past, hpast⟩ := Crowd.exists_histories s entrants
  have hnotes (place : Nat) :
      notesAt place (Crowd.gather s entrants).run.notes.reverse =
        (Crowd.gather s entrants).run.notesOf place := by
    rw [notesAt, Crowd.notesOf, List.filter_reverse, List.map_reverse]
  have hserved (place : Fin entrants.length) : ∃ i : disp.Served,
      disp.invoke i.type i.call i.ctx = entrants[place.1].program ∧
        i.history = past place := by
    obtain ⟨type, call, ctx, hprogram⟩ := hinvoke _ (List.getElem_mem place.2)
    obtain ⟨m, hm, _, hends, -⟩ := hpast place _ (List.getElem?_eq_getElem place.2)
    obtain ⟨⟨result, time⟩, hresult⟩ :=
      Option.isSome_iff_exists.mp (hended m (List.mem_of_getElem? hm))
    have hunfolds := hends result time hresult
    rw [hprogram] at hunfolds
    exact ⟨⟨type, call, ctx, past place, result, hunfolds⟩, hprogram.symm, rfl⟩
  choose i hprogram hhistory using hserved
  refine ⟨List.ofFn i, ?_, fun place => ?_⟩
  · refine List.ext_getElem (by simp) fun place hplace _ => ?_
    have hplace : place < entrants.length := by simpa using hplace
    simpa using hprogram ⟨place, hplace⟩
  · rw [hnotes]
    by_cases hplace : place < entrants.length
    · obtain ⟨_, _, _, _, hsame, -⟩ := hpast place _ (List.getElem?_eq_getElem hplace)
      rw [← reports_withoutRetries, hsame, reports_withoutRetries,
        List.getElem?_eq_getElem (by simpa using hplace)]
      simp [hhistory]
    · have hbeyond : entrants.length ≤ place := Nat.le_of_not_lt hplace
      rw [← reports_withoutRetries, Crowd.notesOf_run_of_absent s entrants hbeyond,
        List.getElem?_eq_none (by simpa using hbeyond)]
      rfl

/-- The metrics of a sink that is told of the invocations. -/
theorem readings_metrics {served : List disp.Served} {notes : List (Nat × Note)}
    (ht : Tells served notes) (p : Meter → Bool) :
    readings (TelemetryKind.metrics.trace notes).metrics p =
      (served.map fun i => readings i.moved p).sum := by
  have hbeyond : ∀ place, served.length ≤ place → reports (notesAt place notes) = [] := by
    intro place hplace
    rw [ht place, List.getElem?_eq_none hplace]
    rfl
  have hplace (i : Fin served.length) :
      (TelemetryKind.metrics.moves (Ledger.get? [] i) (reports (notesAt i notes))).countP
        (fun m => p m.meter) = readings served[i.1].moved p := by
    rw [ht i, readings_eq_countP]
    simp [Served.moved, Ledger.get?]
  rw [readings_eq_countP, TelemetryKind.trace, TelemetryKind.countP_follow _ _ _ _ hbeyond,
    Finset.sum_range, Finset.sum_congr rfl fun i _ => hplace i,
    Fin.sum_univ_fun_getElem served fun i => readings i.moved p]

theorem reading_metrics {served : List disp.Served} {notes : List (Nat × Note)}
    (ht : Tells served notes) (m : Metric) :
    reading (TelemetryKind.metrics.trace notes).metrics m =
      (served.map fun i => reading i.moved m).sum :=
  readings_metrics ht _

/-- **The metrics balance**, whatever invocations a dispatcher serves, one after the other or at
the same time, and however they end.  For every contract and trial the failures are the
invocations that ended in failure, and as many times are measured as invocations ended in success
or in failure; no invocation is counted with an unknown outcome.  The invocations of a contract
that are counted are those that have obtained a decision.  The fallbacks onto a trial are the
invocations of the contract that started with it as a substitute, and their replays on it. -/
theorem metrics_balance (disp : Dispatcher σ) (served : List disp.Served)
    (notes : List (Nat × Note)) (ht : Tells served notes) :
    let moved := (TelemetryKind.metrics.trace notes).metrics
    (∀ contract trial error, reading moved (.failures contract trial) =
      reading moved (.invocations contract trial (.failure error))) ∧
    (∀ contract trial error, reading moved (.seconds contract trial) =
      reading moved (.invocations contract trial .success) +
        reading moved (.invocations contract trial (.failure error))) ∧
    readings moved countsUnknown = 0 ∧
    (∀ contract, readings moved (countsInvocations contract) =
      served.countP fun i => i.ctx.contract = contract ∧ i.decision?.isSome) ∧
    ∀ contract trial,
      let those := served.filter fun i => i.ctx.contract = contract
      reading moved (.fallbacks contract trial) =
        (those.map fun i => i.replays.count trial).sum +
          those.countP fun i => i.substitute? = some trial := by
  intro moved
  refine ⟨fun contract trial error => ?_, fun contract trial error => ?_, ?_, fun contract => ?_,
    fun contract trial => ?_⟩
  · rw [reading_metrics ht, reading_metrics ht]
    exact congrArg List.sum (List.map_congr_left fun i _ => i.reading_failures contract trial error)
  · rw [reading_metrics ht, reading_metrics ht, reading_metrics ht, ← List.sum_map_add]
    exact congrArg List.sum (List.map_congr_left fun i _ => i.reading_seconds contract trial error)
  · rw [readings_metrics ht, List.sum_eq_zero]
    intro n hn
    obtain ⟨i, -, rfl⟩ := List.mem_map.mp hn
    exact i.readings_unknown
  · rw [readings_metrics ht, List.map_congr_left fun i _ => i.readings_invocations contract,
      sum_map_ite_one]
  · intro those
    rw [reading_metrics ht, List.map_congr_left fun i _ => i.reading_fallbacks contract trial,
      List.sum_map_ite, List.sum_map_add, sum_map_ite_one]
    simp [those, Nat.add_comm]

/-! ### Two checkouts -/

/-- One checkout while it is off, which is replayed, and one while it is on. -/
def twoCheckouts : List checkoutDispatcher.Served :=
  [.ofRun .word checkoutCall checkoutContext .live checkoutOff,
    .ofRun .word checkoutCall checkoutContext .live checkoutOn]

theorem metrics_balance_twoCheckouts :
    Tells twoCheckouts (oneAfterAnother twoCheckouts) ∧
      let moved := (TelemetryKind.metrics.trace (oneAfterAnother twoCheckouts)).metrics
      readings moved countsUnknown = 0 ∧
        readings moved (countsInvocations ⟨"checkout"⟩) = 2 ∧
        reading moved (.fallbacks ⟨"checkout"⟩ ⟨"legacy"⟩) = 1 ∧
        reading moved (.fallbacks ⟨"checkout"⟩ ⟨"streamlined"⟩) = 1 := by
  have htells := tells_oneAfterAnother twoCheckouts
  obtain ⟨_, _, hunknown, hinvocations, hfallbacks⟩ :=
    metrics_balance checkoutDispatcher twoCheckouts _ htells
  refine ⟨htells, hunknown, (hinvocations _).trans ?_, (hfallbacks _ _).trans ?_,
    (hfallbacks _ _).trans ?_⟩
  · decide +kernel
  · decide +kernel
  · decide +kernel

end Dispatcher

end TrialRouting
