import TrialRouting.Proofs.Lookup
import TrialRouting.Proofs.Replay

/-!
# TrialRouting.Proofs.Invocation

The parts of an invocation as runs of their own: the decision, which is the
only part that touches the kept decisions, and what follows it
(`run_invokeDecided`): the opening reports, the decorators, the attempts and
the closing reports, in this order.

`Dispatcher.inForce` is the decision with which an invocation starts when a
decision is kept: the switches may put the default trial in its place.
`run_decide_of_disabled` and `run_decide_of_kept` state that deciding gives it.
After the decision nothing is selected or kept any more (`plain_invokeDecided`).
-/

namespace TrialRouting

variable {σ : Type}

/-! ## Attempts -/

namespace Definition

section attempts

variable {d : Definition σ} {board : Switchboard σ}
  {attempt : TrialKey → Nat → Program σ AttemptOutcome} {before : List TrialKey}
  {current next : TrialKey} {t : Token} {s : Session σ}

/-- The attempts of a run that ends after the first one. -/
theorem attempts_run_replay_of_inl {result : Except DispatchError String}
    (ha : ∀ key number, (attempt key number).Plain Note.Inward)
    (h : let r := (attempt current (before ++ [current]).length).run t s
      d.follow (board.trialDisabled r.session.state d.contract) (before ++ [current]) current
        r.value = .inl result) :
    attempts ((d.replay board attempt before current).run t s).notes =
      [(current, (before ++ [current]).length)] := by
  rw [run_replay]
  simp only [h]
  rw [attempts_attempting, Program.attempts_run_of_inward (ha _ _) t s]

/-- The attempts of a run that has been cancelled after the first one. -/
theorem attempts_run_replay_of_cancelled
    (ha : ∀ key number, (attempt key number).Plain Note.Inward)
    (h : ((attempt current (before ++ [current]).length).run t s).token.cancelled = true) :
    attempts ((d.replay board attempt before current).run t s).notes =
      [(current, (before ++ [current]).length)] := by
  rw [run_replay]
  simp only [h, if_true]
  split
  · rw [attempts_attempting, Program.attempts_run_of_inward (ha _ _) t s]
  · rw [attempts_attempting, Program.attempts_run_of_inward (ha _ _) t s]

/-- The attempts of a run that goes on after the first one. -/
theorem attempts_run_replay_of_inr (ha : ∀ key number, (attempt key number).Plain Note.Inward)
    (h : let r := (attempt current (before ++ [current]).length).run t s
      d.follow (board.trialDisabled r.session.state d.contract) (before ++ [current]) current
        r.value = .inr next)
    (hlive : ((attempt current (before ++ [current]).length).run t s).token.cancelled = false) :
    let r := (attempt current (before ++ [current]).length).run t s
    attempts ((d.replay board attempt before current).run t s).notes =
      (current, (before ++ [current]).length) ::
        attempts ((d.replay board attempt (before ++ [current]) next).run r.token
          r.session).notes := by
  rw [run_replay]
  simp only [h, hlive, Bool.false_eq_true, if_false]
  rw [attempts_append, attempts_append, attempts_attempting, attempts_onwardNotes,
    Program.attempts_run_of_inward (ha _ _) t s]
  rfl

/-- A run attempts its first trial first. -/
theorem exists_attempts_run_replay (d : Definition σ) (board : Switchboard σ)
    (ha : ∀ key number, (attempt key number).Plain Note.Inward) (before : List TrialKey)
    (current : TrialKey) (t : Token) (s : Session σ) :
    ∃ rest, attempts ((d.replay board attempt before current).run t s).notes =
      (current, (before ++ [current]).length) :: rest := by
  let r := (attempt current (before ++ [current]).length).run t s
  cases hf : d.follow (board.trialDisabled r.session.state d.contract) (before ++ [current])
      current r.value with
  | inl result => exact ⟨[], attempts_run_replay_of_inl ha hf⟩
  | inr next =>
      cases hc : r.token.cancelled with
      | true => exact ⟨[], attempts_run_replay_of_cancelled ha hc⟩
      | false => exact ⟨_, attempts_run_replay_of_inr ha hf hc⟩

end attempts

end Definition

namespace Dispatcher

/-! ## What follows the decision -/

/-- The reports with which an invocation opens. -/
def openingReports (d : Definition σ) (ctx : Context) (decision : Decision) : List TelemetryCall :=
  .start ⟨d.contract, ctx.method, ctx.scope, d.strategy.kind, decision.trial, decision.candidates⟩ ::
    .variant d.strategy.name d.strategy.kind.name ::
      if decision.isSubstituted then [.fallback decision.trial] else []

/-- **An invocation that has its decision** opens with its reports, makes its
decorators, attempts trials from the decided one on, and closes. -/
theorem run_invokeDecided (disp : Dispatcher σ) (type : ImplementationType)
    (call : Implementation → Work σ Yield) (d : Definition σ) (ctx : Context)
    (decision : Decision) (t : Token) (s : Session σ) :
    (disp.invokeDecided type call d ctx decision).run t s =
      let made := (createDecorators ctx d.decorators).run t s
      let tried := (d.replay disp.board (disp.attempt type call d ctx made.value) []
        decision.trial).run made.token made.session
      ⟨tried.value, tried.token, tried.session,
        (openingReports d ctx decision).map Note.telemetry ++ made.notes ++ tried.notes ++
          resultNotes d ctx tried.value ++ [.telemetry .dispose]⟩ := by
  simp [invokeDecided, openingReports, Program.run_bind, Program.run, List.append_assoc]

theorem attempts_openingReports (d : Definition σ) (ctx : Context) (decision : Decision) :
    attempts ((openingReports d ctx decision).map Note.telemetry) = [] := by
  apply attempts_eq_nil_of_forall
  intro n hn
  obtain ⟨c, -, rfl⟩ := List.mem_map.mp hn
  rfl

theorem attempts_resultNotes (d : Definition σ) (ctx : Context)
    (result : Except DispatchError String) : attempts (resultNotes d ctx result) = [] := by
  cases result <;> rfl

/-- The attempts of an invocation are those of its run through the trials. -/
theorem attempts_run_invokeDecided (disp : Dispatcher σ) (type : ImplementationType)
    (call : Implementation → Work σ Yield) (d : Definition σ) (ctx : Context)
    (decision : Decision) (t : Token) (s : Session σ) :
    let made := (createDecorators ctx d.decorators).run t s
    attempts ((disp.invokeDecided type call d ctx decision).run t s).notes =
      attempts ((d.replay disp.board (disp.attempt type call d ctx made.value) []
        decision.trial).run made.token made.session).notes := by
  have hmade := Program.attempts_run_of_inward (plain_createDecorators ctx d.decorators) t s
  have hdispose : attempts [.telemetry .dispose] = [] := rfl
  rw [run_invokeDecided]
  simp only [attempts_append, attempts_openingReports, attempts_resultNotes, hmade, hdispose,
    List.nil_append, List.append_nil]

/-! ## The decision -/

/-- The decision with which an invocation starts when the given one is kept. -/
def inForce (disp : Dispatcher σ) (d : Definition σ) (s : σ) (kept : Decision) : Decision :=
  if disp.board.experimentDisabled s d.contract then
    .substituted d.trials.defaultKey d.strategy.candidates .experimentDisabled
  else if kept.trial ≠ d.trials.defaultKey ∧ disp.board.trialDisabled s d.contract kept.trial then
    .substituted d.trials.defaultKey kept.candidates (.trialDisabled kept.trial)
  else kept

/-- While the experiment is switched off nothing is looked up or selected. -/
theorem run_decide_of_disabled (disp : Dispatcher σ) (d : Definition σ) (ctx : Context) (t : Token)
    (s : Session σ) (h : disp.board.experimentDisabled s.state d.contract = true) :
    (disp.decide d ctx).run t s =
      ⟨some (.substituted d.trials.defaultKey d.strategy.candidates .experimentDisabled), t, s,
        [.event (.experimentSkipped d.contract d.trials.defaultKey)]⟩ := by
  rw [decide, Program.run_bind, Program.run_view]
  simp only [h]
  rfl

theorem invoke_of_get?_none {disp : Dispatcher σ} {ctx : Context}
    (hd : disp.registry.get? ctx.contract = none) (type : ImplementationType)
    (call : Implementation → Work σ Yield) :
    disp.invoke type call ctx =
      .note (.event (.experimentMissing ctx.contract))
        (.done (.error (.definitionNotFound ctx.contract))) := by
  unfold invoke
  rw [hd]

theorem invoke_of_get? {disp : Dispatcher σ} {ctx : Context} {d : Definition σ}
    (hd : disp.registry.get? ctx.contract = some d) (type : ImplementationType)
    (call : Implementation → Work σ Yield) :
    disp.invoke type call ctx = (disp.decide d ctx).bind fun
      | none => .done (.error (.cancelled none))
      | some decision => disp.invokeDecided type call d ctx decision := by
  unfold invoke
  generalize disp.registry.get? ctx.contract = found at hd
  subst hd
  rfl

/-- Nothing is selected after the decision, and nothing is looked up or kept. -/
theorem plain_invokeDecided (disp : Dispatcher σ) (type : ImplementationType)
    (call : Implementation → Work σ Yield) (d : Definition σ) (ctx : Context)
    (decision : Decision) :
    (disp.invokeDecided type call d ctx decision).Plain fun n => n.selection? = none := by
  refine Program.plain_bind (Program.plain_tellAll ?_) fun _ => ?_
  · intro n hn
    obtain ⟨c, -, rfl⟩ := List.mem_map.mp hn
    rfl
  refine Program.plain_bind ((plain_createDecorators ctx d.decorators).mono fun _ h => h.selection)
    fun made => ?_
  have hattempt := fun key number => (plain_attempt disp type call d ctx made key number).mono
    fun _ h => h.selection
  refine Program.plain_bind (d.plain_replay disp.board hattempt [] decision.trial) fun result => ?_
  refine Program.plain_bind (Program.plain_tellAll ?_) fun _ => trivial
  intro n hn
  rcases List.mem_append.mp hn with hn | hn
  · cases result with
    | ok value =>
        obtain rfl := List.mem_singleton.mp hn
        rfl
    | error e =>
        rcases List.mem_cons.mp hn with rfl | hn
        · rfl
        · obtain rfl := List.mem_singleton.mp hn
          rfl
  · obtain rfl := List.mem_singleton.mp hn
    rfl

theorem plain_replaceDisabled (disp : Dispatcher σ) (d : Definition σ) (kept : Decision) :
    (disp.replaceDisabled d kept).Plain fun n => n.selection? = none := by
  unfold replaceDisabled
  dsimp only
  split
  · trivial
  · refine Program.plain_bind (Program.plain_view _) fun off => ?_
    cases off with
    | true => exact ⟨rfl, trivial⟩
    | false => trivial

/-- What the switches make of a decision while the experiment is on. -/
theorem run_replaceDisabled (disp : Dispatcher σ) (d : Definition σ) (kept : Decision) (t : Token)
    (s : Session σ) (hon : disp.board.experimentDisabled s.state d.contract = false) :
    ∃ notes, (disp.replaceDisabled d kept).run t s =
      ⟨disp.inForce d s.state kept, t, s, notes⟩ ∧ ∀ n ∈ notes, n.Inward := by
  unfold replaceDisabled inForce
  simp only [hon, Bool.false_eq_true, if_false]
  by_cases hdefault : kept.trial = d.trials.defaultKey
  · rw [if_pos hdefault, if_neg fun h => h.1 hdefault]
    exact ⟨[], rfl, nofun⟩
  · rw [if_neg hdefault, Program.run_bind, Program.run_view]
    cases hoff : disp.board.trialDisabled s.state d.contract kept.trial with
    | true =>
        rw [if_pos ⟨hdefault, rfl⟩]
        refine ⟨_, rfl, fun n hn => ?_⟩
        obtain rfl := List.mem_singleton.mp hn
        exact Note.inward_event _
    | false =>
        rw [if_neg fun h => Bool.false_ne_true h.2]
        exact ⟨[], rfl, nofun⟩

/-- While the experiment is on, deciding is a look-up and then a look at the switches. -/
theorem run_decide_of_enabled (disp : Dispatcher σ) (d : Definition σ) (ctx : Context) (t : Token)
    (s : Session σ) (hon : disp.board.experimentDisabled s.state d.contract = false) :
    (disp.decide d ctx).run t s =
      let looked := (DecisionCache.getOrResolve ⟨d.contract, ctx.scope⟩ (d.select ctx)).run t s
      match looked.value with
      | none => ⟨none, looked.token, looked.session, looked.notes⟩
      | some decision =>
        let r := (disp.replaceDisabled d decision).run looked.token looked.session
        ⟨some r.value, r.token, r.session, looked.notes ++ r.notes⟩ := by
  rw [decide, Program.run_bind, Program.run_view]
  simp only [hon, Program.run_bind, List.nil_append]
  split <;> simp [*, Program.run, Program.run_bind]

/-- **A kept decision is in force.**  Where a decision is kept, deciding gives
what the switches make of it, unless the caller has been cancelled. -/
theorem run_decide_of_kept (disp : Dispatcher σ) (d : Definition σ) (ctx : Context) (t : Token)
    (s : Session σ) {kept : Decision} (hkept : s.cache.get? ⟨d.contract, ctx.scope⟩ = some kept) :
    let r := (disp.decide d ctx).run t s
    (t.cancelled = true ∧ disp.board.experimentDisabled s.state d.contract = false ∧
      r = ⟨none, t, s, []⟩) ∨
    (r.value = some (disp.inForce d s.state kept) ∧ ∀ n ∈ r.notes, n.Inward) := by
  cases hon : disp.board.experimentDisabled s.state d.contract with
  | true =>
      right
      rw [run_decide_of_disabled disp d ctx t s hon]
      constructor
      · rw [inForce, if_pos hon]
      · intro n hn
        obtain rfl := List.mem_singleton.mp hn
        exact Note.inward_event _
  | false =>
      rw [run_decide_of_enabled disp d ctx t s hon]
      cases hc : t.cancelled with
      | true =>
          left
          rw [DecisionCache.run_getOrResolve_of_cancelled hc]
          exact ⟨rfl, rfl, rfl⟩
      | false =>
          right
          rw [DecisionCache.run_getOrResolve_of_hit hc hkept]
          obtain ⟨notes, hrun, hinward⟩ := disp.run_replaceDisabled d kept t
            { s with cache := s.cache.track ⟨d.contract, ctx.scope⟩ } hon
          simp only [hrun, List.nil_append]
          exact ⟨trivial, hinward⟩

/-- Deciding does to the cache what the look-up does, or nothing. -/
theorem cache_run_decide (disp : Dispatcher σ) (d : Definition σ) (ctx : Context) (t : Token)
    (s : Session σ) :
    ∃ value, DecisionCache.Looked s.cache ⟨d.contract, ctx.scope⟩ (d.select ctx) value
      ((disp.decide d ctx).run t s).session.cache := by
  cases hon : disp.board.experimentDisabled s.state d.contract with
  | true =>
      rw [run_decide_of_disabled disp d ctx t s hon]
      exact ⟨none, .cancelled⟩
  | false =>
      have hlooked := DecisionCache.looked_run_getOrResolve ⟨d.contract, ctx.scope⟩ (d.select ctx) t s
      rw [run_decide_of_enabled disp d ctx t s hon]
      generalize (DecisionCache.getOrResolve ⟨d.contract, ctx.scope⟩ (d.select ctx)).run t s = looked
        at hlooked ⊢
      refine ⟨looked.value, ?_⟩
      dsimp only
      split
      · exact hlooked
      · next decision _ =>
          rw [Program.cache_run_of_plain (disp.plain_replaceDisabled d decision)]
          exact hlooked

/-- A selection that is noted while deciding is for the key that is looked up, where no decision is
kept. -/
theorem selection_of_mem_run_decide (disp : Dispatcher σ) (d : Definition σ) (ctx : Context)
    (t : Token) (s : Session σ) {n : Note} {key : DecisionKey}
    (hn : n ∈ ((disp.decide d ctx).run t s).notes) (hkey : n.selection? = some key) :
    key = ⟨d.contract, ctx.scope⟩ ∧ s.cache.get? key = none := by
  cases hon : disp.board.experimentDisabled s.state d.contract with
  | true =>
      rw [run_decide_of_disabled disp d ctx t s hon] at hn
      obtain rfl := List.mem_singleton.mp hn
      cases hkey
  | false =>
      have hlookup : n ∈ ((DecisionCache.getOrResolve ⟨d.contract, ctx.scope⟩
          (d.select ctx)).run t s).notes → key = ⟨d.contract, ctx.scope⟩ ∧ s.cache.get? key = none :=
        fun h => DecisionCache.selection_of_mem_run_getOrResolve h hkey
      rw [run_decide_of_enabled disp d ctx t s hon] at hn
      dsimp only at hn
      split at hn
      · exact hlookup hn
      · next decision _ =>
          rcases List.mem_append.mp hn with hn | hn
          · exact hlookup hn
          · have hnone := Program.notes_run_of_plain (disp.plain_replaceDisabled d decision) _ _ n hn
            rw [hnone] at hkey
            cases hkey

/-! ## The whole invocation -/

/-- An invocation is its decision and what follows it. -/
theorem run_invoke_of_get? {disp : Dispatcher σ} {ctx : Context} {d : Definition σ}
    (hd : disp.registry.get? ctx.contract = some d) (type : ImplementationType)
    (call : Implementation → Work σ Yield) (t : Token) (s : Session σ) :
    (disp.invoke type call ctx).run t s =
      let decided := (disp.decide d ctx).run t s
      match decided.value with
      | none => ⟨.error (.cancelled none), decided.token, decided.session, decided.notes⟩
      | some decision =>
        let r := (disp.invokeDecided type call d ctx decision).run decided.token decided.session
        { r with notes := decided.notes ++ r.notes } := by
  rw [invoke_of_get? hd, Program.run_bind]
  dsimp only
  split
  · simp only [Program.run, List.append_nil]
  · rfl

/-- What follows the decision leaves the cache as it is. -/
theorem cache_run_invoke_of_get? {disp : Dispatcher σ} {ctx : Context} {d : Definition σ}
    (hd : disp.registry.get? ctx.contract = some d) (type : ImplementationType)
    (call : Implementation → Work σ Yield) (t : Token) (s : Session σ) :
    ((disp.invoke type call ctx).run t s).session.cache =
      ((disp.decide d ctx).run t s).session.cache := by
  rw [run_invoke_of_get? hd]
  dsimp only
  split
  · rfl
  · next decision _ =>
      exact Program.cache_run_of_plain (disp.plain_invokeDecided type call d ctx decision) _ _

/-- An invocation does to the cache what a look-up with its selection does, or nothing. -/
theorem cache_run_invoke (disp : Dispatcher σ) (type : ImplementationType)
    (call : Implementation → Work σ Yield) (ctx : Context) (t : Token) (s : Session σ) :
    ((disp.invoke type call ctx).run t s).session.cache = s.cache ∨
      ∃ d value, disp.registry.get? ctx.contract = some d ∧
        DecisionCache.Looked s.cache ⟨ctx.contract, ctx.scope⟩ (d.select ctx) value
          ((disp.invoke type call ctx).run t s).session.cache := by
  cases hd : disp.registry.get? ctx.contract with
  | none =>
      left
      simp only [invoke, hd, Program.run]
  | some d =>
      right
      obtain ⟨value, hlooked⟩ := disp.cache_run_decide d ctx t s
      rw [Registry.contract_of_get? hd] at hlooked
      rw [cache_run_invoke_of_get? hd]
      exact ⟨d, value, rfl, hlooked⟩

/-- A selection that is noted during an invocation is for its own contract and scope, where no
decision is kept. -/
theorem selection_of_mem_run_invoke (disp : Dispatcher σ) (type : ImplementationType)
    (call : Implementation → Work σ Yield) (ctx : Context) (t : Token) (s : Session σ) {n : Note}
    {key : DecisionKey} (hn : n ∈ ((disp.invoke type call ctx).run t s).notes)
    (hkey : n.selection? = some key) :
    key = ⟨ctx.contract, ctx.scope⟩ ∧ s.cache.get? key = none := by
  cases hd : disp.registry.get? ctx.contract with
  | none =>
      simp only [invoke, hd, Program.run] at hn
      obtain rfl := List.mem_singleton.mp hn
      cases hkey
  | some d =>
      have hdecide : n ∈ ((disp.decide d ctx).run t s).notes →
          key = ⟨ctx.contract, ctx.scope⟩ ∧ s.cache.get? key = none := by
        intro h
        rw [← Registry.contract_of_get? hd]
        exact disp.selection_of_mem_run_decide d ctx t s h hkey
      rw [run_invoke_of_get? hd] at hn
      dsimp only at hn
      split at hn
      · exact hdecide hn
      · next decision _ =>
          rcases List.mem_append.mp hn with hn | hn
          · exact hdecide hn
          · have hnone := Program.notes_run_of_plain
              (disp.plain_invokeDecided type call d ctx decision) _ _ n hn
            rw [hnone] at hkey
            cases hkey

theorem reports_openingReports (d : Definition σ) (ctx : Context) (decision : Decision) :
    reports ((openingReports d ctx decision).map Note.telemetry) =
      openingReports d ctx decision := by
  unfold reports
  rw [List.filterMap_map]
  exact List.filterMap_some

/-- What an invocation that has its decision reports and attempts first. -/
theorem opens_run_invokeDecided (disp : Dispatcher σ) (type : ImplementationType)
    (call : Implementation → Work σ Yield) (d : Definition σ) (ctx : Context)
    (decision : Decision) (t : Token) (s : Session σ) :
    let r := (disp.invokeDecided type call d ctx decision).run t s
    (∃ later, reports r.notes = openingReports d ctx decision ++ later) ∧
      ∃ later, attempts r.notes = (decision.trial, 1) :: later := by
  constructor
  · rw [run_invokeDecided]
    simp only [reports_append, reports_openingReports, List.append_assoc]
    exact ⟨_, rfl⟩
  · rw [attempts_run_invokeDecided]
    exact d.exists_attempts_run_replay disp.board
      (fun key number => plain_attempt disp type call d ctx _ key number) [] decision.trial _ _

/-- The attempts of an invocation while the experiment is switched off. -/
theorem attempts_run_invoke_of_disabled (disp : Dispatcher σ) (type : ImplementationType)
    (call : Implementation → Work σ Yield) (ctx : Context) {d : Definition σ}
    (hd : disp.registry.get? ctx.contract = some d) (t : Token) (s : Session σ)
    (hoff : disp.board.experimentDisabled s.state ctx.contract = true) :
    let made := (createDecorators ctx d.decorators).run t s
    attempts ((disp.invoke type call ctx).run t s).notes =
      attempts ((d.replay disp.board (disp.attempt type call d ctx made.value) []
        d.trials.defaultKey).run made.token made.session).notes := by
  rw [← Registry.contract_of_get? hd] at hoff
  rw [invoke_of_get? hd, Program.run_bind, run_decide_of_disabled disp d ctx t s hoff]
  exact attempts_run_invokeDecided disp type call d ctx _ t s

end Dispatcher

end TrialRouting
