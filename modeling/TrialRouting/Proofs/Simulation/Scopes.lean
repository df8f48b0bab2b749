import Mathlib.Algebra.BigOperators.Group.Finset.Basic
import TrialRouting.Proofs.Cache.Sequential
import TrialRouting.Proofs.Simulation.Books
import TrialRouting.Proofs.Sticky

/-!
# TrialRouting.Proofs.Simulation.Scopes

Simulations whose cache has room for all scopes and drops nothing on its own.
The requests walk over the scopes in turn, so the first round of requests meets
each scope once.

* `ScopeId.generated_inj` — the scopes are distinct;
* `Settled` — the invariant of the requests: each scope that has been met keeps
  the trial that was selected for it, in the order in which they were met, and
  each request was counted for the trial of its scope;
* `Decided` — the decision of a request: one of the first round selects a trial
  (`Settled.exists_decided_of_lt`), a later one finds what its scope keeps
  (`Settled.exists_decided_of_le`);
* `settled_request` — one request keeps the invariant, however often it is
  replayed meanwhile;
* `scope_stable` — the main theorem.
-/

namespace TrialRouting

/-! ## Generated scopes -/

namespace ScopeId

theorem length_alphabet : alphabet.length = 32 := by decide +kernel

theorem nodup_alphabet : alphabet.Nodup := by decide +kernel

theorem digit_inj {n m : Nat} (hn : n < 32) (hm : m < 32)
    (h : alphabet.getD n '0' = alphabet.getD m '0') : n = m := by
  rw [← length_alphabet] at hn hm
  simp only [List.getD_eq_getElem?_getD, List.getElem?_eq_getElem hn, List.getElem?_eq_getElem hm,
    Option.getD_some] at h
  exact nodup_alphabet.getElem_inj_iff.mp h

/-- Numbers that have enough digits are told apart by them. -/
theorem digits_inj {width n m : Nat} (hn : n < 32 ^ width) (hm : m < 32 ^ width)
    (h : digits width n = digits width m) : n = m := by
  induction width generalizing n m with
  | zero => rw [Nat.lt_one_iff.mp hn, Nat.lt_one_iff.mp hm]
  | succ width ih =>
      obtain ⟨hleading, hlast⟩ := List.append_inj' h rfl
      rw [Nat.pow_succ'] at hn hm
      have hdiv : n / 32 = m / 32 :=
        ih (Nat.div_lt_of_lt_mul hn) (Nat.div_lt_of_lt_mul hm) hleading
      have hmod : n % 32 = m % 32 :=
        digit_inj (Nat.mod_lt n (by decide)) (Nat.mod_lt m (by decide)) (List.cons.inj hlast).1
      rw [← Nat.div_add_mod n 32, hdiv, hmod, Nat.div_add_mod]

theorem generated_inj {n m : Nat} (hn : n < 2 ^ 130) (hm : m < 2 ^ 130)
    (h : generated n = generated m) : n = m := by
  have hsize : 2 ^ 130 = 32 ^ 26 := Nat.pow_mul 2 5 26
  rw [hsize] at hn hm
  exact digits_inj hn hm (String.ofList_injective (ScopeId.mk.inj h))

end ScopeId

namespace Simulation

/-! ## Simulations that are run -/

/-- A simulation has a dispatcher only if its policy names no trial but its own. -/
theorem namesTrials_of_dispatcher {s : Settings} {disp : Dispatcher Random}
    (h : dispatcher s = .ok disp) : s.NamesTrials := by
  cases hbuild : (draft s).build with
  | error e =>
      simp only [dispatcher, hbuild] at h
      cases h
  | ok d =>
      have hsound : (draft s).Sound := (Draft.builds_of_build hbuild).sound
      intro key hkey
      have hregistered : key ∈ trialNames.map TrialKey.mk := keys_draft s ▸ hsound.policy key hkey
      obtain ⟨name, hname, rfl⟩ := List.mem_map.mp hregistered
      exact hname

/-- A simulation comes to a report just if its failure rate is a probability and its error policy
names no trial but its own. -/
theorem exists_runOn_iff {random : Random} {drops : Nat → List DecisionKey} {s : Settings} :
    (∃ found, runOn random drops s = .ok found) ↔
      s.failureRate.isUnitInterval = true ∧ s.NamesTrials := by
  cases hrate : s.failureRate.isUnitInterval with
  | false =>
      constructor
      · rintro ⟨found, hfound⟩
        simp only [runOn, hrate] at hfound
        cases hfound
      · rintro ⟨hfalse, -⟩
        cases hfalse
  | true =>
      constructor
      · rintro ⟨found, hfound⟩
        cases hdisp : dispatcher s with
        | error e =>
            simp only [runOn, hrate, hdisp] at hfound
            cases hfound
        | ok disp => exact ⟨rfl, namesTrials_of_dispatcher hdisp⟩
      · rintro ⟨-, hpolicy⟩
        obtain ⟨disp, -, hdisp, -⟩ := exists_dispatcher hpolicy
        simp only [runOn, hrate, hdisp]
        exact ⟨_, rfl⟩

/-! ## The scopes of a simulation -/

theorem Settings.scopeCount_pos (s : Settings) : 0 < s.scopeCount := Nat.le_max_right _ _

theorem Settings.scopeCount_lt (s : Settings) : s.scopeCount < 2 ^ 130 := by
  have hscopes : s.scopes.toNat < 2 ^ 64 := s.scopes.toNat_lt
  unfold scopeCount
  omega

/-- How many scopes are met by the requests of a simulation. -/
def Settings.scopesMet (s : Settings) : Nat :=
  min s.requests.toNat s.scopeCount

/-- The key for which the decision of a scope is kept. -/
def scopeKey (index : Nat) : DecisionKey :=
  ⟨contract, .generated index⟩

theorem scopeKey_inj {i j : Nat} (hi : i < 2 ^ 130) (hj : j < 2 ^ 130)
    (h : scopeKey i = scopeKey j) : i = j :=
  ScopeId.generated_inj hi hj (DecisionKey.mk.inj h).2

/-- The decisions for the first scopes, each for the trial of its scope. -/
def decisions (d : Definition Random) (trialOf : Nat → TrialKey) (n : Nat) :
    List (DecisionKey × Decision) :=
  (List.range n).map fun j => (scopeKey j, .selected (trialOf j) d.strategy.candidates)

theorem decisions_succ (d : Definition Random) (trialOf : Nat → TrialKey) (n : Nat) :
    decisions d trialOf (n + 1) =
      decisions d trialOf n ++ [(scopeKey n, .selected (trialOf n) d.strategy.candidates)] := by
  rw [decisions, List.range_succ, List.map_append]
  rfl

theorem get?_of_decisions {d : Definition Random} {trialOf : Nat → TrialKey} {c : DecisionCache}
    {n j : Nat} (hc : c.entries = decisions d trialOf n) (hn : n < 2 ^ 130) (hj : j < 2 ^ 130) :
    c.get? (scopeKey j) =
      if j < n then some (.selected (trialOf j) d.strategy.candidates) else none := by
  have hother {i : Nat} (hi : i < n) (hne : i ≠ j) : (scopeKey i == scopeKey j) = false :=
    beq_false_of_ne fun h => hne (scopeKey_inj (hi.trans hn) hj h)
  rw [DecisionCache.get?, hc, decisions, List.find?_map]
  simp only [Function.comp_def]
  split
  · next hlt =>
      have hfound : (List.range n).find? (fun i => scopeKey i == scopeKey j) = some j := by
        refine List.find?_range_eq_some.mpr ⟨beq_self_eq_true _, List.mem_range.mpr hlt, ?_⟩
        intro i hi
        rw [hother (hi.trans hlt) hi.ne]
        rfl
      rw [hfound]
      rfl
  · next hge =>
      have hnone : (List.range n).find? (fun i => scopeKey i == scopeKey j) = none := by
        refine List.find?_range_eq_none.mpr fun i hi => ?_
        rw [hother hi (fun h => hge (h ▸ hi))]
        rfl
      rw [hnone]
      rfl

/-! ## Requests without evictions -/

section

variable (random : Random) (s : Settings) (disp : Dispatcher Random)

/-- What is known when the request of a number comes, if the cache has dropped nothing. -/
def progressBefore (n : Nat) : Progress :=
  (List.range n).foldl (request s disp fun _ => []) (.start ⟨0, disp.newCache, random⟩)

/-- The run of the request of a number. -/
def requestRun (n : Nat) : Run Random (Except DispatchError String) :=
  (disp.invoke .text (serve s.failureRate) (context (n % s.scopeCount))).run .live
    (progressBefore random s disp n).session

/-- The keys for which the selection was consulted in the first requests, in order. -/
def selections (n : Nat) : List DecisionKey :=
  (List.range n).flatMap fun i => (requestRun random s disp i).notes.filterMap Note.selection?

variable {random s disp}

theorem progressBefore_succ {n : Nat} {result : Except DispatchError String}
    {session : Session Random} {notes : List Note}
    (hrun : requestRun random s disp n = ⟨result, .live, session, notes⟩) :
    let p := progressBefore random s disp n
    progressBefore random s disp (n + 1) =
      p.after s.dispatch.telemetry session (reports notes) result := by
  intro p
  have hnext : requestWith (serve s.failureRate) s disp (fun _ => []) p n =
      (p.after s.dispatch.telemetry session (reports notes) result, journal notes) :=
    requestWith_eq hrun
  have hlast : progressBefore random s disp (n + 1) =
      (requestWith (serve s.failureRate) s disp (fun _ => []) p n).1 := by
    rw [progressBefore, List.range_succ, List.foldl_append]
    rfl
  rw [hlast, hnext]

end

/-! ## What is kept and counted -/

/-- After so many requests, each scope that has been met keeps the trial that was selected for it,
and each request was counted for the trial of its scope. -/
structure Settled (s : Settings) (d : Definition Random) (trialOf : Nat → TrialKey) (n : Nat)
    (p : Progress) : Prop where
  capacity : p.session.cache.capacity = s.dispatch.decisionCache.capacity.toNat
  entries : p.session.cache.entries = decisions d trialOf (min n s.scopeCount)
  selected : p.selected = Tally.addAll []
    ((List.range n).map fun i => (trialOf (i % s.scopeCount)).text)

/-- What is noted of a request: it starts on the trial of its scope, and that trial was selected if
the scope is met for the first time. -/
structure Turn (s : Settings) (trialOf : Nat → TrialKey) (i : Nat) (notes : List Note) : Prop where
  starts : (reports notes).filterMap started? = [(trialOf (i % s.scopeCount)).text]
  selects : notes.filterMap Note.selection? = if i < s.scopeCount then [scopeKey i] else []
  selected : i < s.scopeCount →
    .event (.trialSelected contract (.generated i) (trialOf i)) ∈ notes

variable {random : Random} {s : Settings} {disp : Dispatcher Random} {d : Definition Random}
  {trialOf : Nat → TrialKey} {n : Nat} {p : Progress}

/-- The decision of a request: it is for the trial of its scope, which is kept from then on, and it
is made only if the scope is met for the first time. -/
structure Decided (s : Settings) (disp : Dispatcher Random) (d : Definition Random)
    (trialOf : Nat → TrialKey) (n : Nat) (session decided : Session Random) (deciding : List Note) :
    Prop where
  run : (disp.decide d (context (n % s.scopeCount))).run .live session =
    ⟨some (.selected (trialOf (n % s.scopeCount)) d.strategy.candidates), .live, decided, deciding⟩
  capacity : decided.cache.capacity = session.cache.capacity
  entries : decided.cache.entries = decisions d trialOf (min (n + 1) s.scopeCount)
  unreported : reports deciding = []
  selects : deciding.filterMap Note.selection? = if n < s.scopeCount then [scopeKey n] else []
  selected : n < s.scopeCount →
    .event (.trialSelected contract (.generated n) (trialOf n)) ∈ deciding

theorem Stage.scopeKey_eq (h : Stage s disp d) (j : Nat) :
    (⟨d.contract, (context j).scope⟩ : DecisionKey) = scopeKey j := by
  rw [h.contract_eq]
  rfl

/-- In the first round, a request makes the decision of its scope. -/
theorem Settled.exists_decided_of_lt (hp : Settled s d trialOf n p) (h : Stage s disp d)
    (hlt : n < s.scopeCount) {r : Random}
    (hresolve : (d.strategy.resolve (context n)).alone p.session.state = (.ok (trialOf n), r, [])) :
    ∃ decided deciding, Decided s disp d trialOf n p.session decided deciding := by
  have hn : min n s.scopeCount = n := Nat.min_eq_left hlt.le
  have hword : n < 2 ^ 130 := hlt.trans s.scopeCount_lt
  have hnone : p.session.cache.get? (scopeKey n) = none := by
    rw [get?_of_decisions (hn ▸ hp.entries) hword hword]
    exact if_neg (Nat.lt_irrefl n)
  obtain ⟨key, -, r', hgiven, hrun⟩ :=
    h.exists_run_decide_of_none rfl ((congrArg _ (h.scopeKey_eq n)).trans hnone)
  obtain rfl : trialOf n = key := Except.ok.inj (congrArg Prod.fst (hresolve.symm.trans hgiven))
  rw [h.scopeKey_eq] at hrun
  exact ⟨_, _, {
    run := by
      rw [Nat.mod_eq_of_lt hlt]
      exact hrun
    capacity := DecisionCache.capacity_track _ _
    entries := by
      rw [DecisionCache.entries_track, DecisionCache.entries_insert_of_none hnone, hp.entries, hn,
        Nat.min_eq_left hlt, decisions_succ]
    unreported := rfl
    selects := by
      rw [if_pos hlt]
      rfl
    selected := fun _ => by
      rw [h.contract_eq]
      exact List.mem_cons_of_mem _ List.mem_cons_self }⟩

/-- Later requests find what their scopes keep. -/
theorem Settled.exists_decided_of_le (hp : Settled s d trialOf n p) (h : Stage s disp d)
    (hle : s.scopeCount ≤ n) :
    ∃ decided deciding, Decided s disp d trialOf n p.session decided deciding := by
  have hn : min n s.scopeCount = s.scopeCount := Nat.min_eq_right hle
  have hmod : n % s.scopeCount < s.scopeCount := Nat.mod_lt n s.scopeCount_pos
  have hkept : p.session.cache.get? (scopeKey (n % s.scopeCount)) =
      some (.selected (trialOf (n % s.scopeCount)) d.strategy.candidates) := by
    rw [get?_of_decisions (hn ▸ hp.entries) s.scopeCount_lt (hmod.trans s.scopeCount_lt)]
    exact if_pos hmod
  have hrun := h.run_decide_of_kept ((congrArg _ (h.scopeKey_eq _)).trans hkept)
  exact ⟨_, _, {
    run := hrun
    capacity := DecisionCache.capacity_track _ _
    entries := by
      rw [DecisionCache.entries_track, hp.entries, hn, Nat.min_eq_right (Nat.le_succ_of_le hle)]
    unreported := rfl
    selects := by
      rw [if_neg hle.not_gt]
      rfl
    selected := fun hlt => absurd hlt hle.not_gt }⟩

/-- The trials are those that the strategy gives when the requests of their numbers come. -/
def Given (random : Random) (s : Settings) (disp : Dispatcher Random) (d : Definition Random)
    (trialOf : Nat → TrialKey) : Prop :=
  ∀ j, trialOf j ∈ d.trials.keys ∧ ∃ r, (d.strategy.resolve (context j)).alone
    (progressBefore random s disp j).session.state = (.ok (trialOf j), r, [])

theorem Stage.exists_given (h : Stage s disp d) (random : Random) :
    ∃ trialOf, Given random s disp d trialOf := by
  have hgives (j : Nat) := (h.resolve_spec (show (context j).identity = some _ from rfl)).2
    (progressBefore random s disp j).session.state
  choose trialOf hkeys hresolve using hgives
  exact ⟨trialOf, fun j => ⟨hkeys j, hresolve j⟩⟩

/-- **One request** starts on the trial of its scope, and keeps what is known settled. -/
theorem settled_request (h : Stage s disp d) (hgiven : Given random s disp d trialOf)
    (hp : Settled s d trialOf n (progressBefore random s disp n)) :
    Turn s trialOf n (requestRun random s disp n).notes ∧
      Settled s d trialOf (n + 1) (progressBefore random s disp (n + 1)) := by
  obtain ⟨decided, deciding, hdecided⟩ :
      ∃ decided deciding, Decided s disp d trialOf n (progressBefore random s disp n).session
        decided deciding := by
    obtain hlt | hle := Nat.lt_or_ge n s.scopeCount
    · obtain ⟨-, r, hr⟩ := hgiven n
      exact hp.exists_decided_of_lt h hlt hr
    · exact hp.exists_decided_of_le h hle
  obtain ⟨calls, result, r, -, hruns⟩ := h.exists_request_of_decided
    (context (n % s.scopeCount)) rfl (hgiven (n % s.scopeCount)).1 hdecided.run
  -- The attempts draw from the stream too, but they leave the decisions as they are.
  obtain ⟨notes, hrun, hreports, -, hquiet⟩ := hruns _ _ (answers_serve s.failureRate)
  have hrun : requestRun random s disp n = _ := hrun
  have hstarts : (reports (deciding ++ notes)).filterMap started? =
      [(trialOf (n % s.scopeCount)).text] := by
    rw [reports_append, hdecided.unreported, hreports, List.nil_append,
      filterMap_started_requestReports]
  constructor
  · rw [hrun]
    exact {
      starts := hstarts
      selects := by
        rw [List.filterMap_append, hdecided.selects, List.filterMap_eq_nil_iff.mpr hquiet,
          List.append_nil]
      selected := fun hlt => List.mem_append_left notes (hdecided.selected hlt) }
  · rw [progressBefore_succ hrun]
    exact {
      capacity := by
        rw [session_after]
        exact hdecided.capacity.trans hp.capacity
      entries := by
        rw [session_after]
        exact hdecided.entries
      selected := by
        rw [selected_after, hstarts, hp.selected, List.range_succ, List.map_append]
        exact (List.foldl_append ..).symm }

/-- **So many requests**, one after the other. -/
theorem settled_requests (h : Stage s disp d) (hgiven : Given random s disp d trialOf) (n : Nat) :
    Settled s d trialOf n (progressBefore random s disp n) ∧
      ∀ i < n, Turn s trialOf i (requestRun random s disp i).notes := by
  induction n with
  | zero =>
      refine ⟨⟨?_, ?_, rfl⟩, nofun⟩
      · rw [← h.config]
        rfl
      · rw [Nat.zero_min]
        rfl
  | succ n ih =>
      obtain ⟨hp, hturns⟩ := ih
      obtain ⟨hturn, hnext⟩ := settled_request h hgiven hp
      refine ⟨hnext, fun i hi => ?_⟩
      obtain hlt | rfl := Nat.lt_succ_iff_lt_or_eq.mp hi
      · exact hturns i hlt
      · exact hturn

/-! ## The report -/

/-- The selection is consulted once for each scope that has been met. -/
theorem selections_eq {n : Nat}
    (h : ∀ i < n, Turn s trialOf i (requestRun random s disp i).notes) :
    selections random s disp n = (List.range (min n s.scopeCount)).map scopeKey := by
  induction n with
  | zero =>
      rw [Nat.zero_min]
      rfl
  | succ n ih =>
      have hlast : selections random s disp (n + 1) = selections random s disp n ++
          (requestRun random s disp n).notes.filterMap Note.selection? := by
        rw [selections, List.range_succ, List.flatMap_append, List.flatMap_singleton]
        rfl
      rw [hlast, ih fun i hi => h i (Nat.lt_succ_of_lt hi), (h n (Nat.lt_succ_self n)).selects]
      split
      · next hlt =>
          rw [Nat.min_eq_left hlt.le, Nat.min_eq_left hlt, List.range_succ, List.map_append]
          rfl
      · next hge =>
          rw [List.append_nil, Nat.min_eq_right (Nat.le_of_not_lt hge),
            Nat.min_eq_right (Nat.le_succ_of_le (Nat.le_of_not_lt hge))]

/-- As long as there is room for every scope, maintenance drops no decision. -/
theorem Settled.entryCount_maintain (hp : Settled s d trialOf n p)
    (hroom : s.scopeCount ≤ s.dispatch.decisionCache.capacity.toNat) :
    p.session.cache.maintain.entryCount = min n s.scopeCount := by
  have hcount : p.session.cache.entries.length = min n s.scopeCount := by
    rw [hp.entries, decisions, List.length_map, List.length_range]
  have hfits : p.session.cache.entries.length ≤ p.session.cache.capacity := by
    rw [hcount, hp.capacity]
    exact (Nat.min_le_right _ _).trans hroom
  rw [DecisionCache.maintain, List.drop_eq_nil_of_le hfits]
  exact hcount

/-- A trial is counted for the requests whose scope has it. -/
theorem Settled.count_eq_card (hp : Settled s d trialOf n p) (key : TrialKey) :
    p.selected.count key.text =
      ((Finset.range n).filter fun i => trialOf (i % s.scopeCount) = key).card := by
  let started (i : Nat) := trialOf (i % s.scopeCount)
  calc
    p.selected.count key.text
        = ((List.range n).map fun i => (started i).text).count key.text := by
          rw [hp.selected, Tally.count_addAll Tally.ascending_nil]
          exact Nat.zero_add _
    _ = ((List.range n).map started).count key := by
          rw [← count_map_text, List.map_map]
          rfl
    _ = ((List.range n).filter fun i => started i = key).length := by
          rw [List.count, List.countP_map, List.countP_eq_length_filter]
          rfl
    _ = ((Finset.range n).filter fun i => started i = key).card := rfl

/-- So a trial is counted for all requests of the scopes that it was selected for. -/
theorem Settled.count_selected (hp : Settled s d trialOf n p) (key : TrialKey) :
    p.selected.count key.text =
      ∑ j ∈ (Finset.range (min n s.scopeCount)).filter (trialOf · = key),
        ((Finset.range n).filter (· % s.scopeCount = j)).card := by
  let scope (i : Nat) := i % s.scopeCount
  let served := (Finset.range n).filter fun i => trialOf (scope i) = key
  let selected := (Finset.range (min n s.scopeCount)).filter fun j => trialOf j = key
  have hmaps : ∀ i ∈ served, scope i ∈ selected := by
    intro i hi
    obtain ⟨hlt, hkey⟩ := Finset.mem_filter.mp hi
    refine Finset.mem_filter.mpr ⟨Finset.mem_range.mpr (Nat.lt_min.mpr ⟨?_, ?_⟩), hkey⟩
    · exact (Nat.mod_le i s.scopeCount).trans_lt (Finset.mem_range.mp hlt)
    · exact Nat.mod_lt i s.scopeCount_pos
  have hfiber : ∀ j ∈ selected,
      served.filter (scope · = j) = (Finset.range n).filter (scope · = j) := by
    intro j hj
    rw [Finset.filter_filter]
    refine Finset.filter_congr fun i _ => ⟨fun h => h.2, fun h => ⟨?_, h⟩⟩
    rw [h]
    exact (Finset.mem_filter.mp hj).2
  calc
    p.selected.count key.text = served.card := hp.count_eq_card key
    _ = ∑ j ∈ selected, (served.filter (scope · = j)).card :=
      Finset.card_eq_sum_card_fiberwise hmaps
    _ = ∑ j ∈ selected, ((Finset.range n).filter (scope · = j)).card :=
      Finset.sum_congr rfl fun j hj => congrArg Finset.card (hfiber j hj)

/-- Sticky selection gives the trial at the bucket of the caller. -/
theorem Stage.bucket_of_resolve (h : Stage s disp d) (hsticky : s.routing = .sticky) {j : Nat}
    {key : TrialKey} {r r' : Random} {remarks : List Remark}
    (hresolve : (d.strategy.resolve (context j)).alone r = (.ok key, r', remarks)) :
    (TrialKey.sort (draft s).others)[Sticky.bucket "checkout/checkout.sticky" s!"customer-{j}" 2]? =
      some key := by
  have hmode : (draft s).selection = some (.stickyRouting "checkout.sticky") := by
    show some s.routing.mode = _
    rw [hsticky]
    rfl
  obtain ⟨hsome, hstrategy⟩ := h.builds.exists_buckets hmode
  have hlength : (TrialKey.sort (draft s).others).length = 2 :=
    (TrialKey.sort_perm (draft s).others).length_eq
  have hothers : d.trials.nonDefaultKeys = (draft s).others := Draft.others_eq h.builds.trials
  simp only [hothers] at hsome hstrategy
  rw [hstrategy, Strategy.resolve_stickyRouting] at hresolve
  have hkey := Except.ok.inj (congrArg Prod.fst hresolve)
  have hbucket := Sticky.getElem?_bucket "checkout/checkout.sticky" hsome s!"customer-{j}"
  rw [hlength] at hbucket
  rw [hbucket, ← hkey]
  rfl

theorem Stage.ne_control_of_resolve (h : Stage s disp d) (hsticky : s.routing = .sticky) {j : Nat}
    {key : TrialKey} {r r' : Random} {remarks : List Remark}
    (hresolve : (d.strategy.resolve (context j)).alone r = (.ok key, r', remarks)) :
    key.text ≠ "control" := by
  have hkey : key ∈ (draft s).others :=
    TrialKey.mem_sort.mp (List.mem_of_getElem? (h.bucket_of_resolve hsticky hresolve))
  have hothers : ∀ other ∈ [TrialKey.mk "express", ⟨"one_click"⟩], other.text ≠ "control" := by
    decide
  exact hothers key hkey

theorem Settled.control_notMem (hp : Settled s d trialOf n p)
    (hother : ∀ j, (trialOf j).text ≠ "control") : "control" ∉ p.selected.map Prod.fst := by
  intro hmem
  rw [hp.selected, Tally.addAll_eq_addEach] at hmem
  obtain hname | hnone := Tally.mem_names_addEach.mp hmem
  · obtain ⟨i, -, hi⟩ := List.mem_map.mp hname
    exact hother _ hi
  · cases hnone

/-- What is reported of a simulation in which each scope is decided once, for the trial that the
selection gives when the first request of the scope comes. -/
structure ScopeStable (random : Random) (s : Settings) (disp : Dispatcher Random)
    (d : Definition Random) (trialOf : Nat → TrialKey) (r : Report) : Prop where
  given : ∀ j < s.scopesMet, ((d.strategy.resolve (context j)).alone
    (progressBefore random s disp j).session.state).1 = .ok (trialOf j)
  inTurn : selections random s disp s.requests.toNat = (List.range s.scopesMet).map scopeKey
  consulted : (selections random s disp s.requests.toNat).length = s.scopesMet
  selected : ∀ j < s.scopesMet, .event (.trialSelected contract (.generated j) (trialOf j)) ∈
    (requestRun random s disp j).notes
  starts : ∀ i < s.requests.toNat, (reports (requestRun random s disp i).notes).filterMap started? =
    [(trialOf (i % s.scopeCount)).text]
  decisions : r.decisions = s.scopesMet
  counted : ∀ key : TrialKey, r.selected.count key.text =
    ∑ j ∈ (Finset.range s.scopesMet).filter (trialOf · = key),
      ((Finset.range s.requests.toNat).filter (· % s.scopeCount = j)).card
  bucket : s.routing = .sticky → ∀ j < s.scopesMet, (TrialKey.sort (draft s).others)[
    Sticky.bucket "checkout/checkout.sticky" s!"customer-{j}" 2]? = some (trialOf j)
  notControl : s.routing = .sticky → "control" ∉ r.selected.map Prod.fst

/-- **Simulations are stable within scopes.**  Let the cache have room for every scope and drop
nothing on its own.  Then, for every stream of random words, a simulation whose failure rate is a
probability and whose error policy names no trial but its own comes to a report, and any other is
refused; and in each that comes to one, a scope that is met is decided once, whatever fails and is
replayed in between.  This is so on streams on which a draw gives up as well (`Random.below`), since
such a draw, too, selects a trial. -/
theorem scope_stable (random : Random) (s : Settings)
    (hroom : s.scopeCount ≤ s.dispatch.decisionCache.capacity.toNat) :
    ((∃ found, runOn random (fun _ => []) s = .ok found) ↔
      s.failureRate.isUnitInterval = true ∧ s.NamesTrials) ∧
    ∀ found, runOn random (fun _ => []) s = .ok found →
      ∃ disp d trialOf, dispatcher s = .ok disp ∧ disp.registry.get? contract = some d ∧
        found = findings s (progressBefore random s disp s.requests.toNat) ∧
        ScopeStable random s disp d trialOf found.report := by
  refine ⟨exists_runOn_iff, fun found hfound => ?_⟩
  obtain ⟨hrate, hpolicy⟩ := exists_runOn_iff.mp ⟨found, hfound⟩
  obtain ⟨disp, d, hdisp, h⟩ := exists_dispatcher hpolicy
  have hrun : runOn random (fun _ => []) s =
      .ok (findings s (progressBefore random s disp s.requests.toNat)) := by
    simp only [runOn, hrate, hdisp]
    rfl
  obtain rfl := Except.ok.inj (hfound.symm.trans hrun)
  obtain ⟨trialOf, hgiven⟩ := h.exists_given random
  obtain ⟨hp, hturns⟩ := settled_requests h hgiven s.requests.toNat
  have hinTurn := selections_eq hturns
  have hmet {j : Nat} (hj : j < s.scopesMet) : j < s.requests.toNat ∧ j < s.scopeCount :=
    Nat.lt_min.mp hj
  refine ⟨disp, d, trialOf, hdisp, h.get?, rfl, ?_⟩
  exact {
    given := fun j _ => by
      obtain ⟨-, r, hr⟩ := hgiven j
      exact congrArg Prod.fst hr
    inTurn := hinTurn
    consulted := by
      rw [hinTurn, List.length_map, List.length_range]
      rfl
    selected := fun j hj => (hturns j (hmet hj).1).selected (hmet hj).2
    starts := fun i hi => (hturns i hi).starts
    decisions := hp.entryCount_maintain hroom
    counted := hp.count_selected
    bucket := fun hsticky j _ => by
      obtain ⟨-, r, hr⟩ := hgiven j
      exact h.bucket_of_resolve hsticky hr
    notControl := fun hsticky => hp.control_notMem fun j => by
      obtain ⟨-, r, hr⟩ := hgiven j
      exact h.ne_control_of_resolve hsticky hr }

/-! ### Five sticky requests -/

/-- Five requests in three scopes, so that two of the callers come back. -/
def fiveRequests : Settings where
  requests := 5
  scopes := 3
  failureRate := .ofDecimal false 5 (-1)
  policy := .replayAny
  routing := .sticky

/-- The first caller is sent to another trial than the other two, and both of its requests start
there. -/
theorem fiveRequests_stable :
    fiveRequests.scopeCount ≤ fiveRequests.dispatch.decisionCache.capacity.toNat ∧
      ∃ disp d trialOf found, runOn fourRequestsRandom (fun _ => []) fiveRequests = .ok found ∧
        trialOf 0 = ⟨"express"⟩ ∧ trialOf 1 = ⟨"one_click"⟩ ∧ trialOf 2 = ⟨"one_click"⟩ ∧
        found.report.selected.count "express" = 2 ∧ found.report.decisions = 3 ∧
        ScopeStable fourRequestsRandom fiveRequests disp d trialOf found.report := by
  have hrate : fiveRequests.failureRate.isUnitInterval = true := by decide +kernel
  have hpolicy : fiveRequests.NamesTrials := by decide
  have hroom : fiveRequests.scopeCount ≤ fiveRequests.dispatch.decisionCache.capacity.toNat := by
    decide
  obtain ⟨hstarts, hreports⟩ := scope_stable fourRequestsRandom fiveRequests hroom
  obtain ⟨found, hrun⟩ := hstarts.mpr ⟨hrate, hpolicy⟩
  obtain ⟨disp, d, trialOf, -, -, -, hstable⟩ := hreports found hrun
  have hmet : fiveRequests.scopesMet = 3 := by decide
  have hsorted : TrialKey.sort (draft fiveRequests).others = [⟨"express"⟩, ⟨"one_click"⟩] :=
    List.mergeSort_of_pairwise (by decide +kernel)
  have hbucket := hstable.bucket rfl
  rw [hsorted, hmet] at hbucket
  have hindex₀ : Sticky.bucket "checkout/checkout.sticky" s!"customer-{0}" 2 = 0 := by
    decide +kernel
  have hindex₁ : Sticky.bucket "checkout/checkout.sticky" s!"customer-{1}" 2 = 1 := by
    decide +kernel
  have hindex₂ : Sticky.bucket "checkout/checkout.sticky" s!"customer-{2}" 2 = 1 := by
    decide +kernel
  have htrial₀ := hbucket 0 (by decide)
  have htrial₁ := hbucket 1 (by decide)
  have htrial₂ := hbucket 2 (by decide)
  rw [hindex₀] at htrial₀
  rw [hindex₁] at htrial₁
  rw [hindex₂] at htrial₂
  have htrial₀ : trialOf 0 = ⟨"express"⟩ := (Option.some.inj htrial₀).symm
  have htrial₁ : trialOf 1 = ⟨"one_click"⟩ := (Option.some.inj htrial₁).symm
  have htrial₂ : trialOf 2 = ⟨"one_click"⟩ := (Option.some.inj htrial₂).symm
  refine ⟨hroom, disp, d, trialOf, found, hrun, htrial₀, htrial₁, htrial₂, ?_, hstable.decisions,
    hstable⟩
  rw [hstable.counted ⟨"express"⟩, hmet, Finset.sum_filter, Finset.sum_range_succ,
    Finset.sum_range_succ, Finset.sum_range_one, htrial₀, htrial₁, htrial₂]
  decide

end Simulation

end TrialRouting
