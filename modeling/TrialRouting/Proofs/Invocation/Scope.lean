import TrialRouting.Proofs.Invocation
import TrialRouting.Proofs.Invocation.Disabled

/-!
# TrialRouting.Proofs.Invocation.Scope

What a contract keeps within a scope.  A history is what is done with one
dispatcher, one deed after another: invocations, ends of scopes, evictions,
and changes by anybody to the state that the parties share, the switches and
the sources of flags among it.

The main theorem says that a decision, once kept, stays the decision of its
contract and scope for as long as no deed removes it.  Every invocation
starts with it, or with the default trial where the switches say so, and
selects nothing.  What is kept is always what a selection came to: no deed
keeps what the switches put in its place, or a trial that is attempted later.
-/

namespace TrialRouting

variable {σ : Type}

/-! ## Deeds -/

/-- What is done with a dispatcher. -/
inductive Deed (σ : Type) where
  | invoke (type : ImplementationType) (call : Implementation → Work σ Yield) (ctx : Context)
    (token : Token)
  | change (f : σ → σ)
  | pass (ms : Nat)
  | endScope (scope : ScopeId)
  | evict (key : DecisionKey)

/-- The deed does not remove the decision of the key. -/
def Deed.Spares (key : DecisionKey) : Deed σ → Prop
  | .endScope scope => scope ≠ key.scope
  | .evict key' => key' ≠ key
  | _ => True

namespace Dispatcher

/-- The session after a deed. -/
def perform (disp : Dispatcher σ) (s : Session σ) : Deed σ → Session σ
  | .invoke type call ctx token => ((disp.invoke type call ctx).run token s).session
  | .change f => { s with state := f s.state }
  | .pass ms => { s with clock := s.clock + ms }
  | .endScope scope => { s with cache := s.cache.endScope scope }
  | .evict key => { s with cache := s.cache.evict key }

/-- The session after several deeds. -/
def history (disp : Dispatcher σ) (s : Session σ) (deeds : List (Deed σ)) : Session σ :=
  deeds.foldl disp.perform s

/-- The session of a dispatcher that is new. -/
def newSession (disp : Dispatcher σ) (clock : Nat) (state : σ) : Session σ :=
  ⟨clock, disp.newCache, state⟩

/-- The decision is what a selection for the key came to. -/
def Selected (disp : Dispatcher σ) (key : DecisionKey) (kept : Decision) : Prop :=
  ∃ d ctx, disp.registry.get? key.contract = some d ∧ key = ⟨ctx.contract, ctx.scope⟩ ∧
    (d.select ctx).Yields kept

variable {disp : Dispatcher σ} {s : Session σ} {deed : Deed σ} {deeds : List (Deed σ)}
  {key : DecisionKey} {kept : Decision}

/-! ## What a deed keeps -/

/-- A kept decision is lost only by a deed that removes it. -/
theorem get?_perform (hkept : s.cache.get? key = some kept) (hspares : deed.Spares key) :
    (disp.perform s deed).cache.get? key = some kept := by
  cases deed with
  | invoke type call ctx token =>
      obtain hsame | ⟨d, value, _, hlooked⟩ := disp.cache_run_invoke type call ctx token s
      · show ((disp.invoke type call ctx).run token s).session.cache.get? key = some kept
        rw [hsame]
        exact hkept
      · exact hlooked.get?_of_some hkept
  | change f => exact hkept
  | pass ms => exact hkept
  | endScope scope =>
      show (s.cache.endScope scope).get? key = some kept
      rw [DecisionCache.get?_endScope, if_neg fun h => hspares h.1.symm]
      exact hkept
  | evict key' =>
      show (s.cache.evict key').get? key = some kept
      rw [DecisionCache.get?_evict, if_neg fun h => hspares h.symm]
      exact hkept

/-- What is kept after a deed was kept before, or the deed was an invocation. -/
theorem get?_of_perform (h : (disp.perform s deed).cache.get? key = some kept) :
    s.cache.get? key = some kept ∨ ∃ type call ctx token,
      ((disp.invoke type call ctx).run token s).session.cache.get? key = some kept := by
  cases deed with
  | invoke type call ctx token => exact .inr ⟨type, call, ctx, token, h⟩
  | change f => exact .inl h
  | pass ms => exact .inl h
  | endScope scope =>
      have h : (s.cache.endScope scope).get? key = some kept := h
      rw [DecisionCache.get?_endScope] at h
      split at h
      · cases h
      · exact .inl h
  | evict key' =>
      have h : (s.cache.evict key').get? key = some kept := h
      rw [DecisionCache.get?_evict] at h
      split at h
      · cases h
      · exact .inl h

/-- What is kept after a history was kept before, or some invocation of it has kept it. -/
theorem get?_of_history (h : (disp.history s deeds).cache.get? key = some kept) :
    s.cache.get? key = some kept ∨ ∃ s' type call ctx token,
      s'.cache.get? key ≠ some kept ∧
        ((disp.invoke type call ctx).run token s').session.cache.get? key = some kept := by
  induction deeds generalizing s with
  | nil => exact .inl h
  | cons deed deeds ih =>
      obtain hperform | hlater := ih h
      · obtain hold | ⟨type, call, ctx, token, hrun⟩ := get?_of_perform hperform
        · exact .inl hold
        · by_cases hold : s.cache.get? key = some kept
          · exact .inl hold
          · exact .inr ⟨s, type, call, ctx, token, hold, hrun⟩
      · exact .inr hlater

/-- A kept decision outlasts a history of deeds that do not remove it. -/
theorem get?_history (hkept : s.cache.get? key = some kept)
    (hspares : ∀ deed ∈ deeds, deed.Spares key) :
    (disp.history s deeds).cache.get? key = some kept := by
  induction deeds generalizing s with
  | nil => exact hkept
  | cons deed deeds ih =>
      exact ih (get?_perform hkept (hspares deed List.mem_cons_self))
        fun deed' hdeed' => hspares deed' (List.mem_cons_of_mem deed hdeed')

/-- What is kept after a history was kept before, or is what a selection came to. -/
theorem selected_of_get?_history (h : (disp.history s deeds).cache.get? key = some kept) :
    s.cache.get? key = some kept ∨ disp.Selected key kept := by
  obtain hold | ⟨s', type, call, ctx, token, hnew, hrun⟩ := get?_of_history h
  · exact .inl hold
  · obtain hsame | ⟨d, value, hd, hlooked⟩ := disp.cache_run_invoke type call ctx token s'
    · rw [hsame] at hrun
      exact absurd hrun hnew
    · obtain hold | ⟨hkey, hyields⟩ := hlooked.of_get? hrun
      · exact absurd hold hnew
      · exact .inr ⟨d, ctx, by rw [hkey]; exact hd, hkey, hyields⟩

/-! ## Invocations where a decision is kept -/

/-- An invocation that opens a telemetry scope starts with the decision. -/
structure StartsWith (disp : Dispatcher σ) (type : ImplementationType)
    (call : Implementation → Work σ Yield) (d : Definition σ) (ctx : Context) (t : Token)
    (s : Session σ) (decision : Decision) : Prop where
  decides : ((disp.decide d ctx).run t s).value = some decision
  reports : ∃ later, reports ((disp.invoke type call ctx).run t s).notes =
    openingReports d ctx decision ++ later
  attempts : ∃ later, attempts ((disp.invoke type call ctx).run t s).notes =
    (decision.trial, 1) :: later

/-- An invocation where a decision is kept starts with it, or with what the switches make of it,
or it has been cancelled before. -/
theorem startsWith_of_kept {d : Definition σ} {ctx : Context} (type : ImplementationType)
    (call : Implementation → Work σ Yield) (t : Token)
    (hd : disp.registry.get? ctx.contract = some d)
    (hkept : s.cache.get? ⟨ctx.contract, ctx.scope⟩ = some kept) :
    let r := (disp.invoke type call ctx).run t s
    (t.cancelled = true ∧ disp.board.experimentDisabled s.state ctx.contract = false ∧
      r.value = .error (.cancelled none) ∧ TrialRouting.reports r.notes = []) ∨
    disp.StartsWith type call d ctx t s (disp.inForce d s.state kept) := by
  have hcontract := Registry.contract_of_get? hd
  rw [← hcontract] at hkept
  obtain ⟨hc, hon, hrun⟩ | ⟨hvalue, hinward⟩ := disp.run_decide_of_kept d ctx t s hkept
  · left
    rw [run_invoke_of_get? hd, hrun, ← hcontract]
    exact ⟨hc, hon, rfl, rfl⟩
  · right
    have hnotes : ((disp.invoke type call ctx).run t s).notes =
        ((disp.decide d ctx).run t s).notes ++
          ((disp.invokeDecided type call d ctx (disp.inForce d s.state kept)).run
            ((disp.decide d ctx).run t s).token ((disp.decide d ctx).run t s).session).notes := by
      rw [run_invoke_of_get? hd]
      simp only [hvalue]
    obtain ⟨⟨later, hreports⟩, later', hattempts⟩ := disp.opens_run_invokeDecided type call d ctx
      (disp.inForce d s.state kept) ((disp.decide d ctx).run t s).token
      ((disp.decide d ctx).run t s).session
    have hquiet : TrialRouting.reports ((disp.decide d ctx).run t s).notes = [] :=
      reports_eq_nil_of_forall fun n hn => (hinward n hn).report
    have hidle : TrialRouting.attempts ((disp.decide d ctx).run t s).notes = [] :=
      attempts_eq_nil_of_forall fun n hn => (hinward n hn).attempt
    constructor
    · exact hvalue
    · exact ⟨later, by rw [hnotes, reports_append, hquiet, hreports, List.nil_append]⟩
    · exact ⟨later', by rw [hnotes, attempts_append, hidle, hattempts, List.nil_append]⟩

/-- **A scope keeps its decision.**  Once a new dispatcher has come to keep a decision, and as long
as no deed removes it, the same decision is kept.  It is what a selection came to: a trial of the
experiment, or the default trial because of an error, but never because of a switch.  No invocation
selects for the key any more, and those for the key start with the decision, or with the default
trial where the switches say so; nothing that follows the start touches the cache. -/
theorem keeps_decision_within_scope (disp : Dispatcher σ) (clock : Nat) (state : σ)
    (before after : List (Deed σ)) (key : DecisionKey) (kept : Decision)
    (hkept : (disp.history (disp.newSession clock state) before).cache.get? key = some kept)
    (hspares : ∀ deed ∈ after, deed.Spares key) :
    let s := disp.history (disp.newSession clock state) (before ++ after)
    s.cache.get? key = some kept ∧
    disp.Selected key kept ∧
    ∃ d, disp.registry.get? key.contract = some d ∧ d.Selectable kept ∧
      ∀ type call ctx t,
        let r := (disp.invoke type call ctx).run t s
        Note.selecting key ∉ r.notes ∧
        (key = ⟨ctx.contract, ctx.scope⟩ →
          r.session.cache = ((disp.decide d ctx).run t s).session.cache ∧
          ((t.cancelled = true ∧ disp.board.experimentDisabled s.state ctx.contract = false ∧
            r.value = .error (.cancelled none) ∧ TrialRouting.reports r.notes = []) ∨
          disp.StartsWith type call d ctx t s (disp.inForce d s.state kept))) := by
  intro s
  have hselected : disp.Selected key kept := by
    obtain hnew | hselected := selected_of_get?_history hkept
    · cases hnew
    · exact hselected
  have hs : s.cache.get? key = some kept := by
    have happend : s = disp.history (disp.history (disp.newSession clock state) before) after :=
      List.foldl_append
    rw [happend]
    exact get?_history hkept hspares
  obtain ⟨d, ctx, hd, hkey, hyields⟩ := hselected
  have hselectable : d.Selectable kept := Definition.yields_select hyields
  refine ⟨hs, ⟨d, ctx, hd, hkey, hyields⟩, d, hd, hselectable, fun type call ctx t => ?_⟩
  constructor
  · intro hn
    obtain ⟨_, hnone⟩ := disp.selection_of_mem_run_invoke type call ctx t s hn rfl
    rw [hs] at hnone
    cases hnone
  · rintro rfl
    exact ⟨cache_run_invoke_of_get? hd type call t s, startsWith_of_kept type call t hd hs⟩

/-! ### The checkout within a request -/

def checkoutKey : DecisionKey :=
  ⟨⟨"checkout"⟩, ⟨"req-1"⟩⟩

/-- The first invocation for the request. -/
def checkoutOpened : List (Deed KillSwitch) :=
  [.invoke .word checkoutCall checkoutContext .live]

/-- The selected trial is switched off, and another request ends. -/
def checkoutTurned : List (Deed KillSwitch) :=
  [.change (·.apply (.disableTrial ⟨"checkout"⟩ ⟨"streamlined"⟩)), .endScope ⟨"req-2"⟩]

/-- The checkout keeps the trial that its first invocation selected, though the
next one starts with the default trial. -/
theorem checkout_keeps_streamlined :
    let streamlined := Decision.selected ⟨"streamlined"⟩ checkoutTrials.keys
    let start := checkoutDispatcher.newSession 0 .allOn
    let s := checkoutDispatcher.history start (checkoutOpened ++ checkoutTurned)
    (checkoutDispatcher.history start checkoutOpened).cache.get? checkoutKey = some streamlined ∧
      (∀ deed ∈ checkoutTurned, deed.Spares checkoutKey) ∧
      s.cache.get? checkoutKey = some streamlined ∧
      ((checkoutDispatcher.decide checkout checkoutContext).run .live s).value =
        some (.substituted ⟨"legacy"⟩ checkoutTrials.keys (.trialDisabled ⟨"streamlined"⟩)) := by
  intro streamlined start s
  have hkept : (checkoutDispatcher.history start checkoutOpened).cache.get? checkoutKey =
      some streamlined := by
    cbv
  have hspares : ∀ deed ∈ checkoutTurned, deed.Spares checkoutKey := by
    simp [checkoutTurned, Deed.Spares, checkoutKey]
  obtain ⟨hstill, _, d, hd, _, hinvoke⟩ := keeps_decision_within_scope checkoutDispatcher 0 .allOn
    checkoutOpened checkoutTurned checkoutKey streamlined hkept hspares
  have hcheckout : checkout = d := Option.some.inj hd
  subst hcheckout
  obtain ⟨_, hstart⟩ := hinvoke .word checkoutCall checkoutContext .live
  obtain ⟨_, ⟨hcancelled, _⟩ | hstarts⟩ := hstart rfl
  · cases hcancelled
  · refine ⟨hkept, hspares, hstill, hstarts.decides.trans ?_⟩
    cbv

end Dispatcher

end TrialRouting
