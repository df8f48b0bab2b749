import TrialRouting.Proofs.Drafts
import TrialRouting.Proofs.Instant
import TrialRouting.Proofs.Invocation.Reports
import TrialRouting.Simulation

/-!
# TrialRouting.Proofs.Simulation

One request of a simulation.  The dispatcher of a simulation is made of a sound
draft, whose three trials are all implemented, and nothing is ever switched off
(`Stage`).  So a request goes only in a few ways: a decision is found or made,
and it is always a selected trial (`exists_run_decide`); then each trial that
fails leads to the next one that the error policy offers, until one answers or
none is left (`Definition.Walks`, `exists_walk`).

The lemmas hold for every call that answers as the trials do, whatever it
writes into the journal (`Answers`).  The course of a request does not depend on
what is written, so a request whose calls are written down tells how often the
trials are called in one whose calls are not (`exists_request`).
-/

namespace TrialRouting

/-! ## The calls of a request -/

/-- The calls of an invocation from a trial on, after those before it, each with whether the trial
answered, and its result.  Nothing is switched off, and a trial answers with its name. -/
inductive Definition.Walks {σ : Type} (d : Definition σ) :
    List TrialKey → TrialKey → List (TrialKey × Bool) → Except DispatchError String → Prop where
  | served (before : List TrialKey) (current : TrialKey) :
    d.Walks before current [(current, true)] (.ok current.text)
  | failed {before : List TrialKey} {current : TrialKey} (error : String) :
    d.nextCandidate (fun _ => false) current (before ++ [current]) = none →
    d.Walks before current [(current, false)]
      (.error (d.exhausted current (before ++ [current]) error))
  | onward {before : List TrialKey} {current next : TrialKey} {calls : List (TrialKey × Bool)}
    {result : Except DispatchError String} :
    d.nextCandidate (fun _ => false) current (before ++ [current]) = some next →
    d.Walks (before ++ [current]) next calls result →
    d.Walks before current ((current, false) :: calls) result

/-- The first call is that of the trial that is attempted first. -/
theorem Definition.Walks.exists_cons {σ : Type} {d : Definition σ} {before : List TrialKey}
    {current : TrialKey} {calls : List (TrialKey × Bool)} {result : Except DispatchError String}
    (h : d.Walks before current calls result) : ∃ ok later, calls = (current, ok) :: later := by
  cases h with
  | served => exact ⟨true, [], rfl⟩
  | failed => exact ⟨false, [], rfl⟩
  | onward => exact ⟨false, _, rfl⟩

namespace Simulation

/-! ## The trials -/

/-- What a trial yields when it is called. -/
def answer (rate : Binary64) (key : TrialKey) (r : Random) : Yield :=
  if (r.chance rate).1 then .failure s!"{key.text} declined the request" else .output key.text

/-- The call answers as the trials do, and writes down `tell` of the trial and of whether it
answered. -/
structure Answers (rate : Binary64) (call : Implementation → Work Random Yield)
    (tell : TrialKey → Bool → List Entry) : Prop where
  instant : ∀ key : TrialKey, (call (.text key.text)).Instant
  alone : ∀ (key : TrialKey) (r : Random), (call (.text key.text)).alone r =
    (answer rate key r, (r.chance rate).2, (tell key (!(r.chance rate).1)).map Remark.entry)

theorem answers_serve (rate : Binary64) : Answers rate (serve rate) fun _ _ => [] where
  instant key := by
    intro r
    simp only [Work.pure_eq, Work.done_bind]
    split <;> trivial
  alone key r := by
    unfold answer
    simp only [serve, Work.modifyGet, Work.bind_eq, Work.pure_eq, Work.bind, Work.alone]
    split <;> rfl

/-- The decorators of the experiment, as they are made for a caller. -/
def decorators (ctx : Context) : List (Decorator Random) :=
  [timingDecorator none, errorLoggingDecorator ctx.identity]

theorem run_createDecorators (ctx : Context) (s : Settings) (t : Token) (session : Session Random) :
    (Dispatcher.createDecorators ctx (draft s).decorators).run t session =
      ⟨decorators ctx, t, session, [.creating "timing", .creating "error_logging"]⟩ := rfl

/-- What the decorators tell the log after a call: its error, and how it ended. -/
def eventsAfter (ctx : Context) (a : Attempt) (y : Yield) : List Event :=
  (y.error?.map (.attemptFailed a ctx.identity)).toList ++ [.attemptTimed a y.isOk]

/-- The decorators let a call through and only tell the log about it. -/
theorem surround_decorators (ctx : Context) (a : Attempt) (call : Work Random Yield) :
    surround (decorators ctx) a call =
      call.bind fun y => (Work.tellAll (eventsAfter ctx a y)).bind fun _ => .done y := by
  simp only [decorators, surround_cons, surround_nil, timingDecorator, errorLoggingDecorator,
    Work.done_bind, Work.bind_assoc]
  refine congrArg call.bind (funext fun y => ?_)
  cases y <;> rfl

theorem instant_surround {call : Work Random Yield} (hcall : call.Instant) (ctx : Context)
    (a : Attempt) : (surround (decorators ctx) a call).Instant := by
  rw [surround_decorators]
  refine Work.instant_bind hcall fun y => ?_
  cases y <;> trivial

theorem alone_surround (call : Work Random Yield) (ctx : Context) (a : Attempt) (r : Random) :
    (surround (decorators ctx) a call).alone r =
      let x := call.alone r
      (x.1, x.2.1, x.2.2 ++ (eventsAfter ctx a x.1).map Remark.event) := by
  rw [surround_decorators, Work.alone_bind]
  obtain ⟨y, r', rs⟩ := call.alone r
  cases y <;> rfl

/-! ## The dispatcher -/

/-- The policy names only trials of the simulation. -/
def Settings.NamesTrials (s : Settings) : Prop :=
  ∀ key ∈ s.policy.referencedKeys, key.text ∈ trialNames

instance (s : Settings) : Decidable s.NamesTrials :=
  inferInstanceAs (Decidable (∀ key ∈ s.policy.referencedKeys, key.text ∈ trialNames))

/-- The dispatcher of a simulation, and its experiment. -/
structure Stage (s : Settings) (disp : Dispatcher Random) (d : Definition Random) : Prop where
  get? : disp.registry.get? contract = some d
  builds : (draft s).Builds d
  resolver : disp.resolver = fun contract trial _ => implementations.resolve contract trial
  board : disp.board = .allOn
  config : disp.config = s.dispatch

theorem keys_draft (s : Settings) : (draft s).keys = trialNames.map TrialKey.mk := rfl

theorem sound_draft {s : Settings} (hpolicy : s.NamesTrials) : (draft s).Sound where
  nodup := by
    rw [keys_draft]
    decide
  default := rfl
  nonempty := nofun
  mode := by
    refine ⟨s.routing.mode, rfl, ?_⟩
    cases s.routing with
    | random => trivial
    | sticky => exact Nat.zero_lt_two
  policy key hkey := by
    rw [keys_draft]
    exact List.mem_map.mpr ⟨key.text, hpolicy key hkey, rfl⟩

/-- A simulation whose policy names only its trials has a dispatcher. -/
theorem exists_dispatcher {s : Settings} (hpolicy : s.NamesTrials) :
    ∃ disp d, dispatcher s = .ok disp ∧ Stage s disp d := by
  obtain ⟨d, hd, hbuilds⟩ := (sound_draft hpolicy).exists_definition
  obtain ⟨registry, hregistry, hget⟩ := Registry.exists_register_empty d
  have hcontract : d.contract = contract := hbuilds.contract
  refine ⟨⟨registry, fun contract trial _ => implementations.resolve contract trial, .allOn,
    s.dispatch⟩, d, ?_, ⟨hcontract ▸ hget, hbuilds, rfl, rfl, rfl⟩⟩
  simp only [dispatcher, hd, Except.mapError, bind, Except.bind, hregistry]
  rfl

namespace Stage

variable {s : Settings} {disp : Dispatcher Random} {d : Definition Random}

theorem contract_eq (h : Stage s disp d) : d.contract = contract := h.builds.contract

theorem policy_eq (h : Stage s disp d) : d.policy = s.policy := h.builds.policy

theorem keys_eq (h : Stage s disp d) : d.trials.keys = trialNames.map TrialKey.mk :=
  h.builds.views.keys

theorem defaultKey_eq (h : Stage s disp d) : d.trials.defaultKey = ⟨"control"⟩ := by
  have hdefault : [⟨"control"⟩] = [d.trials.defaultKey] := h.builds.views.default
  exact (List.cons.inj hdefault).1.symm

/-- Every trial is implemented. -/
theorem resolve_eq (h : Stage s disp d) {trial : Trial} (hkey : trial.key ∈ d.trials.keys)
    (r : Random) : disp.resolver d.contract trial r = .ok (.text trial.key.text) := by
  rw [h.resolver, h.contract_eq]
  rw [h.keys_eq] at hkey
  obtain ⟨key, isDefault, implementation⟩ := trial
  simp only [trialNames, List.map_cons, List.map_nil, List.mem_cons, List.not_mem_nil,
    or_false] at hkey
  obtain rfl | rfl | rfl := hkey <;> rfl

/-- **One attempt** calls its trial once, and ends as the trial answers. -/
theorem run_attempt (h : Stage s disp d) {call : Implementation → Work Random Yield}
    {tell : TrialKey → Bool → List Entry} (hcall : Answers s.failureRate call tell) (ctx : Context)
    {key : TrialKey} (hkey : key ∈ d.trials.keys) (number : Nat) (session : Session Random) :
    let drawn := session.state.chance s.failureRate
    ∃ notes, (disp.attempt .text call d ctx (decorators ctx) key number).run .live session =
        ⟨.ofVerdict (answer s.failureRate key session.state).verdict, .live,
          { session with state := drawn.2 }, notes⟩ ∧
      reports notes = [] ∧ journal notes = tell key (!drawn.1) := by
  obtain ⟨trial, htrial⟩ := Option.isSome_iff_exists.mp (TrialSet.get?_isSome_iff.mpr hkey)
  obtain ⟨_, rfl⟩ := TrialSet.get?_eq_some_iff.mp htrial
  have hrun := Dispatcher.run_attempt_of_instant (t := .live) htrial
    (h.resolve_eq hkey session.state) (Implementation.as?_type _)
    (instant_surround (hcall.instant trial.key) ctx (.of ctx trial.key number)) rfl
  rw [alone_surround, hcall.alone] at hrun
  refine ⟨_, hrun, ?_, ?_⟩
  · exact reports_map_remark _
  · refine (journal_map_remark _).trans ?_
    simp [List.filterMap_append, List.filterMap_map, Function.comp_def, Remark.entry?]

/-- The first attempt of a row: a trial that answers ends it, and one that fails ends it or leads to
the next trial. -/
theorem run_replay (h : Stage s disp d) {call : Implementation → Work Random Yield}
    {tell : TrialKey → Bool → List Entry} (hcall : Answers s.failureRate call tell) (ctx : Context)
    (before : List TrialKey) {current : TrialKey} (hcurrent : current ∈ d.trials.keys)
    (session : Session Random) :
    let replay := d.replay disp.board (disp.attempt .text call d ctx (decorators ctx))
    let attempted := before ++ [current]
    let drawn := session.state.chance s.failureRate
    let session' : Session Random := { session with state := drawn.2 }
    ∃ notes, reports notes = [] ∧ journal notes = tell current (!drawn.1) ∧
      (replay before current).run .live session =
        if drawn.1 then
          match d.nextCandidate (fun _ => false) current attempted with
          | none => ⟨.error (d.exhausted current attempted
              s!"{current.text} declined the request"), .live, session', notes⟩
          | some next =>
            let r := (replay attempted next).run .live session'
            { r with notes := notes ++ d.onwardNotes attempted current next ++ r.notes }
        else ⟨.ok current.text, .live, session', notes⟩ := by
  have hboard (r : Random) : disp.board.trialDisabled r d.contract = fun _ => false := by
    rw [h.board]
    rfl
  have hlive : Token.live.cancelled = false := rfl
  obtain ⟨notes, hrun, hreports, hjournal⟩ :=
    h.run_attempt hcall ctx hcurrent (before ++ [current]).length session
  refine ⟨.attempting current (before ++ [current]).length :: notes, hreports, hjournal, ?_⟩
  dsimp only
  rw [Definition.run_replay]
  simp only [hrun, hboard, answer]
  cases (session.state.chance s.failureRate).1 with
  | false => rfl
  | true =>
      simp only [if_true, Yield.verdict, AttemptOutcome.ofVerdict, Definition.follow]
      cases d.nextCandidate (fun _ => false) current (before ++ [current]) with
      | none => rfl
      | some next => simp only [hlive, Bool.false_eq_true, if_false]

/-- **The attempts of a request.**  What they come to does not depend on what the calls write down,
and what is written down is of the calls in their order; each call after the first is a replay. -/
theorem exists_walk (h : Stage s disp d) (ctx : Context) (before : List TrialKey)
    {current : TrialKey} (hcurrent : current ∈ d.trials.keys) (session : Session Random) :
    ∃ calls result r, d.Walks before current calls result ∧
      ∀ call tell, Answers s.failureRate call tell →
        ∃ notes, (d.replay disp.board (disp.attempt .text call d ctx (decorators ctx)) before
            current).run .live session = ⟨result, .live, { session with state := r }, notes⟩ ∧
          reports notes = (calls.tail.map Prod.fst).map .fallback ∧
          journal notes = calls.flatMap fun c => tell c.1 c.2 := by
  -- The trials that are left become fewer.  The call comes last in the statement, so the course is
  -- chosen from what is drawn before any call is looked at.
  induction hleft : d.unattempted (before ++ [current]) using Nat.strong_induction_on
    generalizing before current session with
  | _ left ih =>
      cases hdrawn : (session.state.chance s.failureRate).1 with
      | false =>
          refine ⟨_, _, (session.state.chance s.failureRate).2, .served before current,
            fun call tell hcall => ?_⟩
          obtain ⟨notes, hreports, hjournal, hrun⟩ := h.run_replay hcall ctx before hcurrent session
          simp only [hdrawn, Bool.false_eq_true, if_false] at hrun
          exact ⟨notes, hrun, hreports, by simpa [hdrawn] using hjournal⟩
      | true =>
          cases hnext : d.nextCandidate (fun _ => false) current (before ++ [current]) with
          | none =>
              refine ⟨_, _, (session.state.chance s.failureRate).2,
                .failed s!"{current.text} declined the request" hnext, fun call tell hcall => ?_⟩
              obtain ⟨notes, hreports, hjournal, hrun⟩ :=
                h.run_replay hcall ctx before hcurrent session
              simp only [hdrawn, if_true, hnext] at hrun
              exact ⟨notes, hrun, hreports, by simpa [hdrawn] using hjournal⟩
          | some next =>
              obtain ⟨hmem, hnew⟩ := Definition.nextCandidate_mem hnext
              obtain ⟨calls, result, r, hwalks, hruns⟩ := ih _
                (hleft ▸ Definition.unattempted_append_lt hmem hnew) _ hmem
                { session with state := (session.state.chance s.failureRate).2 } rfl
              refine ⟨_, result, r, .onward hnext hwalks, fun call tell hcall => ?_⟩
              obtain ⟨notes, hreports, hjournal, hrun⟩ :=
                h.run_replay hcall ctx before hcurrent session
              obtain ⟨notes', hrun', hreports', hjournal'⟩ := hruns call tell hcall
              obtain ⟨ok, later, rfl⟩ := hwalks.exists_cons
              simp only [hdrawn, if_true, hnext, hrun'] at hrun
              have honward : reports (d.onwardNotes (before ++ [current]) current next) =
                  [.fallback next] := rfl
              have hsilent : journal (d.onwardNotes (before ++ [current]) current next) = [] := rfl
              refine ⟨_, hrun, ?_, ?_⟩
              · simp [hreports, honward, hreports']
              · simp [hjournal, hsilent, hjournal', hdrawn]

/-! ## The decision -/

/-- A trial is selected in no time, and in silence, for a caller whose identity is known. -/
theorem resolve_spec (h : Stage s disp d) {ctx : Context} {identity : String}
    (hidentity : ctx.identity = some identity) :
    (d.strategy.resolve ctx).Instant ∧
      ∀ r, ∃ key ∈ d.trials.keys, ∃ r', (d.strategy.resolve ctx).alone r = (.ok key, r', []) := by
  obtain ⟨mode, hmode, hbind⟩ := h.builds.strategy
  have hcandidates := SelectionMode.candidates_subset_keys hbind
  obtain rfl : s.routing.mode = mode := Option.some.inj hmode
  cases hrouting : s.routing with
  | random =>
      rw [hrouting] at hbind
      have hstrategy : .custom "checkout.random" selectRandomly d.trials.keys = d.strategy :=
        Except.ok.inj hbind
      rw [← hstrategy]
      refine ⟨fun _ => trivial, fun r => ?_⟩
      have hlt : (r.below d.trials.keys.length).1 < d.trials.keys.length :=
        Random.below_lt (List.length_pos_of_mem d.trials.defaultKey_mem_keys) r
      refine ⟨_, List.getElem_mem hlt, (r.below d.trials.keys.length).2, ?_⟩
      simp only [Strategy.resolve, selectRandomly, Work.modifyGet, Work.bind_eq, Work.pure_eq,
        Work.bind, Work.alone, List.getElem?_eq_getElem hlt, Option.getD_some]
  | sticky =>
      rw [hrouting] at hbind
      simp only [Routing.mode, SelectionMode.bind] at hbind
      split at hbind
      · cases hbind
      · have hstrategy := Except.ok.inj hbind
        rw [← hstrategy] at hcandidates ⊢
        simp only [Strategy.resolve, hidentity]
        exact ⟨trivial, fun r => ⟨_, hcandidates (Sticky.assign_mem ..), r, rfl⟩⟩

/-- A selection gives the trial that its strategy gives, and tells the log of it. -/
theorem select_spec (h : Stage s disp d) {ctx : Context} {identity : String}
    (hidentity : ctx.identity = some identity) :
    (d.select ctx).Instant ∧ ∀ r, ∃ key ∈ d.trials.keys, ∃ r',
      (d.strategy.resolve ctx).alone r = (.ok key, r', []) ∧
        (d.select ctx).alone r = (.selected key d.strategy.candidates, r',
          [.event (.trialSelected d.contract ctx.scope key)]) := by
  obtain ⟨hinstant, hresolve⟩ := h.resolve_spec hidentity
  refine ⟨Work.instant_bind hinstant fun x => ?_, fun r => ?_⟩
  · cases x with
    | error e => trivial
    | ok key =>
        dsimp only
        split <;> trivial
  · obtain ⟨key, hkey, r', halone⟩ := hresolve r
    refine ⟨key, hkey, r', halone, ?_⟩
    rw [Definition.select, Work.bind_eq, Work.alone_bind, halone]
    simp only [TrialSet.contains_iff.mpr hkey, if_true]
    rfl

/-- A decision that is kept is found, and nothing is noted. -/
theorem run_decide_of_kept (h : Stage s disp d) {ctx : Context} {session : Session Random}
    {kept : Decision} (hkept : session.cache.get? ⟨d.contract, ctx.scope⟩ = some kept) :
    (disp.decide d ctx).run .live session = ⟨some kept, .live,
      { session with cache := session.cache.track ⟨d.contract, ctx.scope⟩ }, []⟩ := by
  rw [Dispatcher.run_decide_of_allOn h.board, DecisionCache.run_getOrResolve_of_hit rfl hkept]

/-- Where none is kept, a trial is selected, and kept. -/
theorem exists_run_decide_of_none (h : Stage s disp d) {ctx : Context} {identity : String}
    (hidentity : ctx.identity = some identity) {session : Session Random}
    (hnone : session.cache.get? ⟨d.contract, ctx.scope⟩ = none) :
    ∃ key ∈ d.trials.keys, ∃ r,
      (d.strategy.resolve ctx).alone session.state = (.ok key, r, []) ∧
        (disp.decide d ctx).run .live session =
          ⟨some (.selected key d.strategy.candidates), .live,
            { session with
              state := r
              cache := (session.cache.insert ⟨d.contract, ctx.scope⟩
                (.selected key d.strategy.candidates)).track ⟨d.contract, ctx.scope⟩ },
            [.selecting ⟨d.contract, ctx.scope⟩,
              .event (.trialSelected d.contract ctx.scope key)]⟩ := by
  obtain ⟨hinstant, hselect⟩ := h.select_spec hidentity
  obtain ⟨key, hkey, r, hresolved, hselected⟩ := hselect session.state
  refine ⟨key, hkey, r, hresolved, ?_⟩
  rw [Dispatcher.run_decide_of_instant h.board rfl hnone hinstant]
  simp only [hselected]
  rfl

end Stage

/-- The decision is for a selected trial. -/
def Routed (d : Definition Random) (decision : Decision) : Prop :=
  ∃ key ∈ d.trials.keys, decision = .selected key d.strategy.candidates

/-- Every decision that is kept is for a selected trial. -/
def AllRouted (d : Definition Random) (c : DecisionCache) : Prop :=
  ∀ key kept, c.get? key = some kept → Routed d kept

namespace AllRouted

variable {d : Definition Random} {c : DecisionCache}

theorem evict (h : AllRouted d c) (key : DecisionKey) : AllRouted d (c.evict key) := by
  intro key' kept hkept
  rw [DecisionCache.get?_evict] at hkept
  split at hkept
  · cases hkept
  · exact h key' kept hkept

theorem foldl_evict (h : AllRouted d c) (keys : List DecisionKey) :
    AllRouted d (keys.foldl DecisionCache.evict c) := by
  induction keys generalizing c with
  | nil => exact h
  | cons key keys ih => exact ih (h.evict key)

theorem insert (h : AllRouted d c) (key : DecisionKey) {decision : Decision}
    (hrouted : Routed d decision) : AllRouted d (c.insert key decision) := by
  intro key' kept hkept
  rw [DecisionCache.get?_insert] at hkept
  split at hkept
  · exact Option.some.inj hkept ▸ hrouted
  · exact h key' kept hkept

theorem track (h : AllRouted d c) (key : DecisionKey) : AllRouted d (c.track key) := by
  intro key' kept hkept
  rw [DecisionCache.get?_track] at hkept
  exact h key' kept hkept

end AllRouted

/-- The reports of a request that starts with a trial, is replayed on others, and ends. -/
def requestReports (info : InvocationStart) (name source : String) (replays : List TrialKey)
    (result : Except DispatchError String) : List TelemetryCall :=
  .start info :: .variant name source ::
    (replays.map .fallback ++ [Dispatcher.closingReport result, .dispose])

namespace Stage

variable {s : Settings} {disp : Dispatcher Random} {d : Definition Random}

/-- **The decision of a request** is found or made, and neither reported nor written down. -/
theorem exists_run_decide (h : Stage s disp d) {ctx : Context} {identity : String}
    (hidentity : ctx.identity = some identity) {session : Session Random}
    (hcache : AllRouted d session.cache) :
    ∃ decision session' notes,
      (disp.decide d ctx).run .live session = ⟨some decision, .live, session', notes⟩ ∧
      Routed d decision ∧ AllRouted d session'.cache ∧ reports notes = [] ∧ journal notes = [] := by
  cases hkept : session.cache.get? ⟨d.contract, ctx.scope⟩ with
  | some kept =>
      exact ⟨kept, _, _, h.run_decide_of_kept hkept, hcache _ _ hkept, hcache.track _, rfl, rfl⟩
  | none =>
      obtain ⟨key, hkey, r, -, hrun⟩ := h.exists_run_decide_of_none hidentity hkept
      have hrouted : Routed d (.selected key d.strategy.candidates) := ⟨key, hkey, rfl⟩
      exact ⟨_, _, _, hrun, hrouted, (hcache.insert _ hrouted).track _, rfl, rfl⟩

/-- What follows the decision for a trial, with calls that answer as the trials do.  The trials are
attempted one after the other; what is reported, what it comes to and what it leaves is the same
whatever the calls write down. -/
theorem exists_request_of_decided (h : Stage s disp d) (ctx : Context)
    (hcontract : ctx.contract = contract) {key : TrialKey} (hkey : key ∈ d.trials.keys)
    {session decided : Session Random} {deciding : List Note}
    (hdecide : (disp.decide d ctx).run .live session =
      ⟨some (.selected key d.strategy.candidates), .live, decided, deciding⟩) :
    let info : InvocationStart :=
      ⟨d.contract, ctx.method, ctx.scope, d.strategy.kind, key, d.strategy.candidates⟩
    ∃ calls result r, d.Walks [] key calls result ∧ ∀ call tell, Answers s.failureRate call tell →
      ∃ notes, (disp.invoke .text call ctx).run .live session =
          ⟨result, .live, { decided with state := r }, deciding ++ notes⟩ ∧
        reports notes = requestReports info d.strategy.name d.strategy.kind.name
          (calls.tail.map Prod.fst) result ∧
        journal notes = calls.flatMap (fun c => tell c.1 c.2) ∧
        ∀ n ∈ notes, n.selection? = none := by
  obtain ⟨calls, result, r, hwalks, hruns⟩ := h.exists_walk ctx [] hkey decided
  refine ⟨calls, result, r, hwalks, fun call tell hcall => ?_⟩
  obtain ⟨tried, hrun, hreports, hjournal⟩ := hruns call tell hcall
  have hget : disp.registry.get? ctx.contract = some d := hcontract ▸ h.get?
  have hmade := run_createDecorators ctx s .live decided
  rw [← h.builds.decorators] at hmade
  have hquiet := Program.notes_run_of_plain (disp.plain_invokeDecided .text call d ctx
    (.selected key d.strategy.candidates)) .live decided
  rw [Dispatcher.run_invoke_of_get? hget, hdecide]
  simp only [Dispatcher.run_invokeDecided, hmade, Decision.selected, hrun] at hquiet ⊢
  refine ⟨_, rfl, ?_, ?_, hquiet⟩
  · have hcreating : reports [.creating "timing", .creating "error_logging"] = [] := rfl
    have hclosing : reports (Dispatcher.resultNotes d ctx result) =
        [Dispatcher.closingReport result] := by
      cases result <;> rfl
    have hdispose : reports [.telemetry .dispose] = [.dispose] := rfl
    simp only [reports_append, Dispatcher.reports_openingReports, hcreating, hreports,
      hclosing, hdispose, List.nil_append, List.append_assoc]
    rfl
  · have hcreating : journal [.creating "timing", .creating "error_logging"] = [] := rfl
    have hclosing : journal (Dispatcher.resultNotes d ctx result) = [] := by
      cases result <;> rfl
    have hdispose : journal [.telemetry .dispose] = [] := rfl
    simp only [journal_append, journal_map_telemetry, hcreating, hjournal, hclosing,
      hdispose, List.nil_append, List.append_nil]

/-- **One request** with calls that answer as the trials do.  It starts on a registered trial and
attempts one trial after the other; what it reports, what it comes to and what it leaves is the
same whatever the calls write down. -/
theorem exists_request (h : Stage s disp d) (ctx : Context) (hcontract : ctx.contract = contract)
    {identity : String} (hidentity : ctx.identity = some identity) (session : Session Random)
    (hcache : AllRouted d session.cache) :
    ∃ info calls result session', d.Walks [] info.trial calls result ∧
      AllRouted d session'.cache ∧
      ∀ call tell, Answers s.failureRate call tell →
        ∃ notes, (disp.invoke .text call ctx).run .live session = ⟨result, .live, session', notes⟩ ∧
          reports notes = requestReports info d.strategy.name d.strategy.kind.name
            (calls.tail.map Prod.fst) result ∧
          journal notes = calls.flatMap fun c => tell c.1 c.2 := by
  obtain ⟨decision, decided, deciding, hdecide, ⟨key, hkey, rfl⟩, hcache', hreports, hjournal⟩ :=
    h.exists_run_decide hidentity hcache
  obtain ⟨calls, result, r, hwalks, hruns⟩ :=
    h.exists_request_of_decided ctx hcontract hkey hdecide
  refine ⟨⟨d.contract, ctx.method, ctx.scope, d.strategy.kind, key, d.strategy.candidates⟩, calls,
    result, { decided with state := r }, hwalks, hcache', fun call tell hcall => ?_⟩
  obtain ⟨notes, hrun, hreports', hjournal', -⟩ := hruns call tell hcall
  refine ⟨_, hrun, ?_, ?_⟩
  · rw [reports_append, hreports, hreports', List.nil_append]
  · rw [journal_append, hjournal, hjournal', List.nil_append]

end Stage

end Simulation

end TrialRouting
