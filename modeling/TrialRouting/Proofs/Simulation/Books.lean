import TrialRouting.Proofs.Simulation
import TrialRouting.Proofs.Tally

/-!
# TrialRouting.Proofs.Simulation.Books

The books of a simulation.  A simulation counts in two places: what telemetry
reports of a request, and how the request ends.  The calls of the trials are
counted by neither.  To see them, the same simulation is run once more with
calls that write themselves down (`written`, `runWith`): both runs find the
same, and the entries tell how often each trial was called and how often one
declined.

The counts then balance (`Balanced`).  Every request keeps the balance and goes
the same way in both runs (`Accounts.request`), since its reports, its result
and its calls all come from one walk through the trials; a whole simulation
keeps it by induction on its requests (`accounts_requestsWith`), whatever the
cache drops in between.
-/

namespace TrialRouting

/-! ## What a walk comes to -/

namespace Definition.Walks

variable {σ : Type} {d : Definition σ} {before : List TrialKey} {current : TrialKey}
  {calls : List (TrialKey × Bool)} {result : Except DispatchError String}

/-- A request that succeeds was served by a trial that was called, after all others had failed. -/
theorem of_ok {name : String} (h : d.Walks before current calls (.ok name)) :
    calls.countP (fun c => !c.2) + 1 = calls.length ∧ ⟨name⟩ ∈ calls.map Prod.fst := by
  generalize hresult : Except.ok name = result at h
  induction h with
  | served before current =>
      cases hresult
      exact ⟨rfl, List.mem_cons_self⟩
  | failed error hnone => cases hresult
  | onward hnext _ ih =>
      obtain ⟨hcount, hmem⟩ := ih hresult
      exact ⟨by simpa using hcount, List.mem_cons_of_mem _ hmem⟩

/-- A request that fails has called trials in vain only, and has failed for it. -/
theorem of_error {e : DispatchError} (h : d.Walks before current calls (.error e)) :
    calls.countP (fun c => !c.2) = calls.length ∧ (e.kind = "failed" ∨
      e.kind = "fallback_exhausted" ∧
        (d.policy = .replayAny ∨ ∃ keys, d.policy = .replayOrdered keys)) := by
  generalize hresult : Except.error e = result at h
  induction h with
  | served before current => cases hresult
  | @failed before current error hnone =>
      obtain rfl := Except.error.inj hresult
      refine ⟨rfl, ?_⟩
      unfold exhausted
      split
      · next hreports => exact .inr ⟨rfl, ErrorPolicy.reportsExhaustion_iff.mp hreports.1⟩
      · exact .inl rfl
  | onward hnext _ ih =>
      obtain ⟨hcount, hkind⟩ := ih hresult
      exact ⟨by simpa using hcount, hkind⟩

/-- Each trial that is called later is one that the error policy offers. -/
theorem mem_replayOrder (h : d.Walks before current calls result) :
    ∀ c ∈ calls.tail, ∃ failed, c.1 ∈ d.replayOrder failed := by
  induction h with
  | served before current => exact List.forall_mem_nil _
  | failed error hnone => exact List.forall_mem_nil _
  | onward hnext hwalks ih =>
      obtain ⟨ok, later, rfl⟩ := hwalks.exists_cons
      exact List.forall_mem_cons.mpr ⟨⟨_, List.mem_of_find?_eq_some hnext⟩, ih⟩

theorem tail_eq_nil_of_throw (h : d.Walks before current calls result) (hp : d.policy = .throw) :
    calls.tail = [] := by
  refine List.eq_nil_iff_forall_not_mem.mpr fun c hc => ?_
  obtain ⟨failed, hmem⟩ := h.mem_replayOrder c hc
  simp [replayOrder, hp] at hmem

theorem eq_defaultKey_of_replayDefault (h : d.Walks before current calls result)
    (hp : d.policy = .replayDefault) : ∀ c ∈ calls.tail, c.1 = d.trials.defaultKey := by
  intro c hc
  obtain ⟨failed, hmem⟩ := h.mem_replayOrder c hc
  simp only [replayOrder, hp] at hmem
  split at hmem
  · cases hmem
  · exact List.mem_singleton.mp hmem

end Definition.Walks

namespace Simulation

/-! ## Calls that are written down -/

/-- What is written down of a call: the trial, and then the error that it ended with, if any. -/
def entriesOf (key : TrialKey) (ok : Bool) : List Entry :=
  [.call key none,
    .after "serve" key (if ok then none else some s!"{key.text} declined the request")]

/-- A call that writes down which trial it calls, and how that ends. -/
def written (call : Implementation → Work Random Yield) : Implementation → Work Random Yield
  | .text name => do
    Work.note (.call ⟨name⟩ none)
    let y ← call (.text name)
    Work.note (.after "serve" ⟨name⟩ y.error?)
    return y
  | i => call i

theorem answers_written (rate : Binary64) : Answers rate (written (serve rate)) entriesOf where
  instant key :=
    Work.instant_bind (w := Work.note _) trivial fun _ =>
      Work.instant_bind ((answers_serve rate).instant key) fun _ => trivial
  alone key r := by
    have hwritten : written (serve rate) (.text key.text) =
        .remark (.entry (.call key none)) ((serve rate (.text key.text)).bind fun y =>
          .remark (.entry (.after "serve" key y.error?)) (.done y)) := rfl
    simp only [hwritten, Work.alone, Work.alone_bind, (answers_serve rate).alone, answer]
    cases (r.chance rate).1 <;> rfl

/-- How often a trial was called. -/
def callsTo (key : TrialKey) (entries : List Entry) : Nat :=
  entries.count (.call key none)

/-- The entry tells that a trial has declined. -/
def isDecline : Entry → Bool
  | .after _ _ error => error.isSome
  | _ => false

/-- How often a trial that was called has declined. -/
def declines (entries : List Entry) : Nat :=
  entries.countP isDecline

/-- Each call that is written down is one more call of its trial. -/
theorem callsTo_append (key : TrialKey) (entries : List Entry) (calls : List (TrialKey × Bool)) :
    callsTo key (entries ++ calls.flatMap fun c => entriesOf c.1 c.2) =
      callsTo key entries + (calls.map Prod.fst).count key := by
  unfold callsTo
  rw [List.count_append, Nat.add_right_inj]
  induction calls with
  | nil => rfl
  | cons c calls ih =>
      rw [List.flatMap_cons, List.count_append, ih, List.map_cons, List.count_cons]
      simp [entriesOf, List.count_cons, Nat.add_comm]

theorem declines_append (entries : List Entry) (calls : List (TrialKey × Bool)) :
    declines (entries ++ calls.flatMap fun c => entriesOf c.1 c.2) =
      declines entries + calls.countP fun c => !c.2 := by
  unfold declines
  rw [List.countP_append, Nat.add_right_inj]
  induction calls with
  | nil => rfl
  | cons c calls ih =>
      obtain ⟨key, ok⟩ := c
      rw [List.flatMap_cons, List.countP_append, ih]
      cases ok <;> simp [entriesOf, isDecline, Nat.add_comm]

/-! ## What is counted of a request -/

/-- The name of the trial with which an invocation starts. -/
def started? : TelemetryCall → Option String
  | .start info => some info.trial.text
  | _ => none

/-- The name of the trial on which an invocation is replayed. -/
def replayed? : TelemetryCall → Option String
  | .fallback trial => some trial.text
  | _ => none

/-- Of what is noted only the reports are counted. -/
theorem foldl_noted (p : Progress) (ns : List Note) :
    ns.foldl Progress.noted p =
      { p with selected := p.selected.addAll ((reports ns).filterMap started?)
               fallbacks := p.fallbacks.addAll ((reports ns).filterMap replayed?) } := by
  induction ns generalizing p with
  | nil => rfl
  | cons n ns ih =>
      rw [List.foldl_cons, ih]
      cases n with
      | telemetry call => cases call <;> rfl
      | _ => rfl

/-- Metrics are moved by reports only. -/
theorem metrics_follow (k : TelemetryKind) (l : Ledger) (place : Nat) (ns : List Note) :
    (k.follow l (ns.map (place, ·))).metrics =
      (k.follow l ((reports ns).map fun c => (place, .telemetry c))).metrics := by
  induction ns generalizing l with
  | nil => rfl
  | cons n ns ih =>
      cases n with
      | remark r => cases r <;> exact ih l
      | telemetry call =>
          have hreports : reports (.telemetry call :: ns) = call :: reports ns := rfl
          simp only [hreports, List.map_cons, TelemetryKind.follow]
          cases l.get? place with
          | none => exact ih _
          | some scope => exact congrArg (k.metricsOf scope call ++ ·) (ih _)
      | _ => exact ih l

/-- What is known after a request that leaves the session, reports so much and ends so. -/
def Progress.after (p : Progress) (k : TelemetryKind) (session : Session Random)
    (calls : List TelemetryCall) (result : Except DispatchError String) : Progress :=
  let moved := (k.trace (calls.map fun c => (0, .telemetry c))).metrics
  Progress.ended
    { p with session, metrics := moved ++ p.metrics
             selected := p.selected.addAll (calls.filterMap started?)
             fallbacks := p.fallbacks.addAll (calls.filterMap replayed?) } result

section

variable (p : Progress) (k : TelemetryKind) (session : Session Random) (calls : List TelemetryCall)
  (result : Except DispatchError String)

@[simp] theorem selected_after : (p.after k session calls result).selected =
    p.selected.addAll (calls.filterMap started?) := by
  cases result <;> rfl

@[simp] theorem fallbacks_after : (p.after k session calls result).fallbacks =
    p.fallbacks.addAll (calls.filterMap replayed?) := by
  cases result <;> rfl

@[simp] theorem session_after : (p.after k session calls result).session = session := by
  cases result <;> rfl

end

/-! ## Simulations with other calls -/

/-- One more request as in `request`, but with the given call of the trials, and the journal of
it. -/
def requestWith (call : Implementation → Work Random Yield) (s : Settings)
    (disp : Dispatcher Random) (drops : Nat → List DecisionKey) (p : Progress) (i : Nat) :
    Progress × List Entry :=
  let cache := (drops i).foldl DecisionCache.evict p.session.cache
  let course := disp.invoke .text call (context (i % s.scopeCount))
  let run := course.run .live { p.session with cache }
  let metrics := (s.dispatch.telemetry.trace (run.notes.map (0, ·))).metrics
  ((run.notes.foldl Progress.noted
    { p with session := run.session, metrics := metrics ++ p.metrics }).ended run.value,
    journal run.notes)

/-- So many requests, one after the other, and the journal of them all. -/
def requestsWith (call : Implementation → Work Random Yield) (s : Settings)
    (disp : Dispatcher Random) (drops : Nat → List DecisionKey) (p : Progress) :
    Nat → Progress × List Entry
  | 0 => (p, [])
  | n + 1 =>
    let (p, entries) := requestsWith call s disp drops p n
    let (p, more) := requestWith call s disp drops p n
    (p, entries ++ more)

/-- A simulation as in `runOn`, but with the given call of the trials, and its journal. -/
def runWith (call : Implementation → Work Random Yield) (random : Random)
    (drops : Nat → List DecisionKey) (s : Settings) : Except Refusal (Findings × List Entry) := do
  if !s.failureRate.isUnitInterval then throw (.failureRate s.failureRate)
  let disp ← dispatcher s
  let (p, entries) := requestsWith call s disp drops (.start ⟨0, disp.newCache, random⟩)
    s.requests.toNat
  return (findings s p, entries)

theorem foldl_request (s : Settings) (disp : Dispatcher Random) (drops : Nat → List DecisionKey)
    (p : Progress) (n : Nat) :
    (List.range n).foldl (request s disp drops) p =
      (requestsWith (serve s.failureRate) s disp drops p n).1 := by
  induction n with
  | zero => rfl
  | succ n ih =>
      rw [List.range_succ, List.foldl_append, ih]
      rfl

/-- With the calls of `runOn` a simulation is that of `runOn`. -/
theorem map_runWith_serve (random : Random) (drops : Nat → List DecisionKey) (s : Settings) :
    (runWith (serve s.failureRate) random drops s).map Prod.fst = runOn random drops s := by
  unfold runWith runOn
  simp only [foldl_request]
  cases s.failureRate.isUnitInterval with
  | false => rfl
  | true => cases dispatcher s <;> rfl

theorem requestWith_eq {call : Implementation → Work Random Yield} {s : Settings}
    {disp : Dispatcher Random} {drops : Nat → List DecisionKey} {p : Progress} {i : Nat}
    {result : Except DispatchError String} {session : Session Random} {notes : List Note}
    (hrun : (disp.invoke .text call (context (i % s.scopeCount))).run .live
      { p.session with cache := (drops i).foldl DecisionCache.evict p.session.cache } =
        ⟨result, .live, session, notes⟩) :
    requestWith call s disp drops p i =
      (p.after s.dispatch.telemetry session (reports notes) result, journal notes) := by
  simp only [requestWith, hrun, foldl_noted, TelemetryKind.trace, metrics_follow, Progress.after]

/-! ## The balance -/

/-- The books of so many requests balance: the counts of the report agree with each other, and with
the calls that are written down. -/
structure Balanced (policy : ErrorPolicy) (requests : Nat) (r : Report) (entries : List Entry) :
    Prop where
  ended : r.succeeded + r.failed = requests
  selected : r.selected.total = requests
  served : r.served.total = r.succeeded
  failures : r.failures.total = r.failed
  kinds : ∀ x ∈ r.failures, x.1 = "failed" ∨
    x.1 = "fallback_exhausted" ∧ (policy = .replayAny ∨ ∃ keys, policy = .replayOrdered keys)
  called : ∀ key, callsTo key entries = r.selected.count key.text + r.fallbacks.count key.text
  answered : ∀ key : TrialKey,
    r.served.count key.text ≤ r.selected.count key.text + r.fallbacks.count key.text
  declined : declines entries + r.succeeded = requests + r.fallbacks.total
  throw : policy = .throw → r.fallbacks = []
  replayDefault : policy = .replayDefault → ∀ x ∈ r.fallbacks, x.1 = "control"

/-- What is true of a simulation after so many requests. -/
structure Accounts (s : Settings) (d : Definition Random) (n : Nat) (p : Progress)
    (entries : List Entry) : Prop where
  balanced : Balanced s.policy n (findings s p).report entries
  selected : p.selected.Ascending
  served : p.served.Ascending
  fallbacks : p.fallbacks.Ascending
  routed : AllRouted d p.session.cache

theorem accounts_start (s : Settings) (d : Definition Random) (session : Session Random)
    (h : AllRouted d session.cache) : Accounts s d 0 (.start session) [] where
  balanced :=
    { ended := rfl
      selected := rfl
      served := rfl
      failures := rfl
      kinds := nofun
      called := fun _ => rfl
      answered := fun _ => Nat.le_refl 0
      declined := rfl
      throw := fun _ => rfl
      replayDefault := nofun }
  selected := Tally.ascending_nil
  served := Tally.ascending_nil
  fallbacks := Tally.ascending_nil
  routed := h

theorem filterMap_started_requestReports (info : InvocationStart) (name source : String)
    (replays : List TrialKey) (result : Except DispatchError String) :
    (requestReports info name source replays result).filterMap started? = [info.trial.text] := by
  have hreplays : (replays.map TelemetryCall.fallback).filterMap started? = [] := by
    rw [List.filterMap_map]
    exact List.filterMap_eq_nil_iff.mpr fun _ _ => rfl
  have hclosing : [Dispatcher.closingReport result, .dispose].filterMap started? = [] := by
    cases result <;> rfl
  have hopening : (requestReports info name source replays result).filterMap started? =
      info.trial.text :: (replays.map TelemetryCall.fallback ++
        [Dispatcher.closingReport result, .dispose]).filterMap started? := rfl
  rw [hopening, List.filterMap_append, hreplays, hclosing, List.append_nil]

theorem filterMap_replayed_requestReports (info : InvocationStart) (name source : String)
    (replays : List TrialKey) (result : Except DispatchError String) :
    (requestReports info name source replays result).filterMap replayed? =
      replays.map TrialKey.text := by
  have hreplays : (replays.map TelemetryCall.fallback).filterMap replayed? =
      replays.map TrialKey.text := by
    rw [List.filterMap_map]
    exact congrFun (List.filterMap_eq_map (f := TrialKey.text)) replays
  have hclosing : [Dispatcher.closingReport result, .dispose].filterMap replayed? = [] := by
    cases result <;> rfl
  have hopening : (requestReports info name source replays result).filterMap replayed? =
      (replays.map TelemetryCall.fallback ++
        [Dispatcher.closingReport result, .dispose]).filterMap replayed? := rfl
  rw [hopening, List.filterMap_append, hreplays, hclosing, List.append_nil]

/-- Names are counted as often as their trials are listed. -/
theorem count_map_text (keys : List TrialKey) (key : TrialKey) :
    (keys.map TrialKey.text).count key.text = keys.count key :=
  List.count_map_of_injective keys TrialKey.text (fun ⟨_⟩ ⟨_⟩ h => congrArg TrialKey.mk h) key

namespace Accounts

variable {s : Settings} {disp : Dispatcher Random} {d : Definition Random} {n : Nat} {p : Progress}
  {entries : List Entry}

/-- The counts of a trial after a request that starts with a trial and is replayed on others. -/
theorem counts_after (ha : Accounts s d n p entries) (first : TrialKey) (replays : List TrialKey)
    (key : TrialKey) :
    (p.selected.addAll [first.text]).count key.text +
        (p.fallbacks.addAll (replays.map TrialKey.text)).count key.text =
      p.selected.count key.text + p.fallbacks.count key.text + (first :: replays).count key := by
  have hfirst : [first.text].count key.text = [first].count key := count_map_text [first] key
  have hsplit : (first :: replays).count key = [first].count key + replays.count key := by
    rw [← List.singleton_append, List.count_append]
  rw [Tally.count_addAll ha.selected, Tally.count_addAll ha.fallbacks, count_map_text, hfirst,
    hsplit]
  omega

/-- A trial that serves a request is one that is called in it. -/
theorem answered_after (ha : Accounts s d n p entries) {name : String} {called : List TrialKey}
    (hname : ⟨name⟩ ∈ called) (key : TrialKey) :
    (p.served.increment name).count key.text ≤
      p.selected.count key.text + p.fallbacks.count key.text + called.count key := by
  have hbefore : p.served.count key.text ≤
      p.selected.count key.text + p.fallbacks.count key.text := ha.balanced.answered key
  have hone : (if name = key.text then 1 else 0) ≤ called.count key := by
    split
    · next heq =>
        subst heq
        exact List.count_pos_iff.mpr hname
    · exact Nat.zero_le _
  rw [Tally.increment, Tally.count_add ha.served]
  omega

/-- A request that fails is counted under one of two kinds. -/
theorem kinds_after (ha : Accounts s d n p entries) {kind : String}
    (hkind : kind = "failed" ∨ kind = "fallback_exhausted" ∧
      (s.policy = .replayAny ∨ ∃ keys, s.policy = .replayOrdered keys)) :
    ∀ x ∈ p.failures.increment kind, x.1 = "failed" ∨ x.1 = "fallback_exhausted" ∧
      (s.policy = .replayAny ∨ ∃ keys, s.policy = .replayOrdered keys) := by
  intro x hx
  obtain heq | ⟨m, hm⟩ := Tally.mem_of_mem_add hx
  · exact heq ▸ hkind
  · exact ha.balanced.kinds (x.1, m) hm

/-- Without replays there are no fallbacks. -/
theorem fallbacks_after_of_throw (ha : Accounts s d n p entries) (h : Stage s disp d)
    (hp : s.policy = .throw) {first : TrialKey} {calls : List (TrialKey × Bool)}
    {result : Except DispatchError String} (hwalks : d.Walks [] first calls result) :
    p.fallbacks.addAll ((calls.tail.map Prod.fst).map TrialKey.text) = [] := by
  rw [hwalks.tail_eq_nil_of_throw (h.policy_eq.trans hp)]
  exact ha.balanced.throw hp

/-- Where only the default trial is replayed on, it is the only fallback. -/
theorem fallbacks_after_of_replayDefault (ha : Accounts s d n p entries)
    (h : Stage s disp d) (hp : s.policy = .replayDefault) {first : TrialKey}
    {calls : List (TrialKey × Bool)} {result : Except DispatchError String}
    (hwalks : d.Walks [] first calls result) :
    ∀ x ∈ p.fallbacks.addAll ((calls.tail.map Prod.fst).map TrialKey.text), x.1 = "control" := by
  intro x hx
  obtain hx | ⟨m, hm⟩ := Tally.mem_of_mem_addAll hx
  · obtain ⟨key, hkey, hname⟩ := List.mem_map.mp hx
    obtain ⟨c, hc, rfl⟩ := List.mem_map.mp hkey
    have hdefault := hwalks.eq_defaultKey_of_replayDefault (h.policy_eq.trans hp) c hc
    rw [← hname, hdefault, h.defaultKey_eq]
  · exact ha.balanced.replayDefault hp (x.1, m) hm

/-- The balance after a request, from the balance before it and from its walk. -/
theorem balanced_after (ha : Accounts s d n p entries) (h : Stage s disp d)
    {info : InvocationStart} {calls : List (TrialKey × Bool)}
    {result : Except DispatchError String} (hwalks : d.Walks [] info.trial calls result)
    (session : Session Random) (name source : String) :
    Balanced s.policy (n + 1)
      (findings s (p.after s.dispatch.telemetry session
        (requestReports info name source (calls.tail.map Prod.fst) result) result)).report
      (entries ++ calls.flatMap fun c => entriesOf c.1 c.2) := by
  obtain ⟨ok, later, rfl⟩ := hwalks.exists_cons
  let replays := later.map Prod.fst
  let p' := p.after s.dispatch.telemetry session (requestReports info name source replays result)
    result
  have hselected : p'.selected = p.selected.addAll [info.trial.text] := by
    rw [selected_after, filterMap_started_requestReports]
  have hfallbacks : p'.fallbacks = p.fallbacks.addAll (replays.map TrialKey.text) := by
    rw [fallbacks_after, filterMap_replayed_requestReports]
  have hcounts (key : TrialKey) := ha.counts_after info.trial replays key
  rw [← hselected, ← hfallbacks] at hcounts
  have hcalled (key : TrialKey) : callsTo key (entries ++ ((info.trial, ok) :: later).flatMap
      fun c => entriesOf c.1 c.2) = p'.selected.count key.text + p'.fallbacks.count key.text := by
    rw [hcounts, callsTo_append, ha.balanced.called key]
    rfl
  have hselectedTotal : p'.selected.total = n + 1 := by
    rw [hselected, Tally.total_addAll]
    exact congrArg (· + 1) ha.balanced.selected
  have hfallbacksTotal : p'.fallbacks.total = p.fallbacks.total + later.length := by
    rw [hfallbacks, Tally.total_addAll, List.length_map, List.length_map]
  have hdeclines := declines_append entries ((info.trial, ok) :: later)
  have hthrow (hp : s.policy = .throw) : p'.fallbacks = [] :=
    hfallbacks ▸ ha.fallbacks_after_of_throw h hp hwalks
  have hdefault (hp : s.policy = .replayDefault) : ∀ x ∈ p'.fallbacks, x.1 = "control" :=
    hfallbacks ▸ ha.fallbacks_after_of_replayDefault h hp hwalks
  -- What is left depends on the result: a request that succeeds has one call that did not fail.
  have hended : p.succeeded + p.failed = n := ha.balanced.ended
  have hdeclined : declines entries + p.succeeded = n + p.fallbacks.total := ha.balanced.declined
  cases result with
  | ok name =>
      obtain ⟨hcount, hmem⟩ := hwalks.of_ok
      have hsucceeded : p'.succeeded = p.succeeded + 1 := rfl
      have hserved : p'.served = p.served.increment name := rfl
      rw [List.length_cons] at hcount
      exact {
        ended := show p.succeeded + 1 + p.failed = n + 1 by omega
        selected := hselectedTotal
        served := (Tally.total_add 1 p.served name).trans (congrArg (· + 1) ha.balanced.served)
        failures := ha.balanced.failures
        kinds := ha.balanced.kinds
        called := hcalled
        answered := fun key => (ha.answered_after hmem key).trans_eq (hcounts key).symm
        declined := show declines _ + (p.succeeded + 1) = n + 1 + p'.fallbacks.total by omega
        throw := hthrow
        replayDefault := hdefault }
  | error e =>
      obtain ⟨hcount, hkind⟩ := hwalks.of_error
      rw [List.length_cons] at hcount
      exact {
        ended := show p.succeeded + (p.failed + 1) = n + 1 by omega
        selected := hselectedTotal
        served := ha.balanced.served
        failures := (Tally.total_add 1 p.failures e.kind).trans
          (congrArg (· + 1) ha.balanced.failures)
        kinds := ha.kinds_after (h.policy_eq ▸ hkind)
        called := hcalled
        answered := fun key =>
          (ha.balanced.answered key).trans ((Nat.le_add_right _ _).trans_eq (hcounts key).symm)
        declined := show declines _ + p.succeeded = n + 1 + p'.fallbacks.total by omega
        throw := hthrow
        replayDefault := hdefault }

/-- **One request keeps the books.**  It goes the same way whether its calls are written down or
not. -/
theorem request (ha : Accounts s d n p entries) (h : Stage s disp d)
    (drops : Nat → List DecisionKey) (i : Nat) :
    let x := requestWith (written (serve s.failureRate)) s disp drops p i
    (requestWith (serve s.failureRate) s disp drops p i).1 = x.1 ∧
      Accounts s d (n + 1) x.1 (entries ++ x.2) := by
  obtain ⟨info, calls, result, session, hwalks, hrouted, hruns⟩ :=
    h.exists_request (context (i % s.scopeCount)) rfl rfl
      { p.session with cache := (drops i).foldl DecisionCache.evict p.session.cache }
      (ha.routed.foldl_evict (drops i))
  obtain ⟨notes, hrun, hreports, -⟩ := hruns _ _ (answers_serve s.failureRate)
  obtain ⟨notes', hrun', hreports', hjournal'⟩ := hruns _ _ (answers_written s.failureRate)
  rw [requestWith_eq hrun, requestWith_eq hrun', hreports, hreports', hjournal']
  refine ⟨rfl, ?_⟩
  exact {
    balanced := ha.balanced_after h hwalks session _ _
    selected := by
      rw [selected_after]
      exact ha.selected.addAll _
    served := by
      cases result with
      | ok name => exact ha.served.add
      | error e => exact ha.served
    fallbacks := by
      rw [fallbacks_after]
      exact ha.fallbacks.addAll _
    routed := by
      rw [session_after]
      exact hrouted }

end Accounts

/-- **So many requests keep the books**, and go the same way whether their calls are written down or
not. -/
theorem accounts_requestsWith {s : Settings} {disp : Dispatcher Random} {d : Definition Random}
    (h : Stage s disp d) (drops : Nat → List DecisionKey) {p : Progress}
    (ha : Accounts s d 0 p []) (n : Nat) :
    let x := requestsWith (written (serve s.failureRate)) s disp drops p n
    (requestsWith (serve s.failureRate) s disp drops p n).1 = x.1 ∧ Accounts s d n x.1 x.2 := by
  induction n with
  | zero => exact ⟨rfl, ha⟩
  | succ n ih =>
      obtain ⟨hsame, hbefore⟩ := ih
      obtain ⟨hnext, hafter⟩ := hbefore.request h drops n
      refine ⟨?_, hafter⟩
      simp only [requestsWith]
      rw [hsame]
      exact hnext

/-- **The books of every simulation balance.**  Let the failure rate be a probability and let the
error policy name no trial but those of the simulation.  Then, for every stream of random words and
whatever decisions the cache drops between requests, the simulation comes to a report; it is that of
the simulation whose calls are written down; and the counts of the report agree with each other and
with these calls.  The streams include those on which a draw gives up (`Random.below`): whatever
number is drawn, it is that of a trial. -/
theorem simulation_balances (random : Random) (drops : Nat → List DecisionKey) (s : Settings)
    (hrate : s.failureRate.isUnitInterval = true) (hpolicy : s.NamesTrials) :
    ∃ found entries, runOn random drops s = .ok found ∧
      runWith (written (serve s.failureRate)) random drops s = .ok (found, entries) ∧
      found.report.requests = s.requests.toNat ∧
      Balanced s.policy s.requests.toNat found.report entries := by
  obtain ⟨disp, d, hdisp, h⟩ := exists_dispatcher hpolicy
  have hnone : AllRouted d disp.newCache := by
    intro key kept hkept
    cases hkept
  obtain ⟨hsame, haccounts⟩ := accounts_requestsWith h drops
    (accounts_start s d ⟨0, disp.newCache, random⟩ hnone) s.requests.toNat
  refine ⟨_, _, ?_, ?_, rfl, haccounts.balanced⟩
  · rw [← map_runWith_serve]
    simp only [runWith, hrate, hdisp]
    exact congrArg (fun p => Except.ok (findings s p)) hsame
  · simp only [runWith, hrate, hdisp]
    rfl

/-! ### Four requests -/

/-- Four requests in two scopes, replayed on all trials but the default one. -/
def fourRequests : Settings where
  requests := 4
  scopes := 2
  failureRate := .ofDecimal false 5 (-1)
  policy := .replayOrdered [⟨"express"⟩, ⟨"one_click"⟩]

/-- Random words with which one of the requests succeeds at once, two after a replay, and one
never. -/
def fourRequestsRandom : Random :=
  let words : List UInt64 := [0x1, 0x1, 0xe, 0xe, 0x1, 0x1, 0x6, 0xe, 0x1, 0xe]
  ⟨fun i => words.getD i 0 <<< 60, 0⟩

/-- The decision of the first scope is dropped before the third request. -/
def fourRequestsDrops (i : Nat) : List DecisionKey :=
  if i = 2 then [⟨contract, .generated 0⟩] else []

theorem fourRequests_balances :
    fourRequests.failureRate.isUnitInterval = true ∧ fourRequests.NamesTrials ∧
      ∃ found entries, runOn fourRequestsRandom fourRequestsDrops fourRequests = .ok found ∧
        found.report.selected = [("control", 1), ("express", 1), ("one_click", 2)] ∧
        found.report.fallbacks = [("express", 3)] ∧
        found.report.failures = [("fallback_exhausted", 1)] ∧
        Balanced fourRequests.policy 4 found.report entries := by
  have hrate : fourRequests.failureRate.isUnitInterval = true := by decide +kernel
  have hpolicy : fourRequests.NamesTrials := by decide
  refine ⟨hrate, hpolicy, ?_⟩
  obtain ⟨found, entries, hrun, -, -, hbalanced⟩ :=
    simulation_balances fourRequestsRandom fourRequestsDrops fourRequests hrate hpolicy
  have hreport : (runOn fourRequestsRandom fourRequestsDrops fourRequests).map
      (fun f => (f.report.selected, f.report.fallbacks, f.report.failures)) =
        .ok ([("control", 1), ("express", 1), ("one_click", 2)], [("express", 3)],
          [("fallback_exhausted", 1)]) := by
    decide +kernel
  rw [hrun] at hreport
  simp only [Except.map, Except.ok.injEq, Prod.mk.injEq] at hreport
  exact ⟨found, entries, hrun, hreport.1, hreport.2.1, hreport.2.2, hbalanced⟩

end Simulation

end TrialRouting
