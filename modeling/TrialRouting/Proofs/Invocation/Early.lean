import TrialRouting.Proofs.Invocation.Disabled
import TrialRouting.Proofs.Replay.Closing
import TrialRouting.Proofs.Selection

/-!
# TrialRouting.Proofs.Invocation.Early

Invocations that end without a trial.  One has no experiment, or was cancelled
before there was a decision; an invocation that has its decision names a trial
in every error (`exists_trial_of_error`).  `EarlyEnd` lists the runs that end
so, and they are all of them (`earlyEnd_of_ends`).  They depend on the
experiments and the switches only, not on the implementations or the call
(`EarlyEnd.run_invoke`).

* `EarlyEnd.session` — the cache is as before, and the state as the selection
  has left it;
* `EarlyEnd.preliminary` — nothing is noted but remarks and the selection;
* `selects_of_not_kept` — where nothing is kept, the next invocation selects;
* `early_end_leaves_no_trace` — the main theorem.
-/

namespace TrialRouting

variable {σ α β : Type}

/-! ## Work that leaves a view of the state alone -/

/-- No change of the state that the work makes shows in the view. -/
def Work.Keeps (view : σ → β) : Work σ α → Prop
  | .done _ => True
  | .remark _ w => w.Keeps view
  | .act u k => ∀ s, view (u s) = view s ∧ (k s).Keeps view
  | .wait _ w => w.Keeps view
  | .cancel w => w.Keeps view

namespace Work

variable {γ : Type} {view : σ → β} {w : Work σ α} {f : α → Work σ γ}

theorem Keeps.bind (hw : w.Keeps view) (hf : ∀ a, (f a).Keeps view) : (w.bind f).Keeps view := by
  induction w with
  | done a => exact hf a
  | remark r w ih => exact ih hw
  | act u k ih => exact fun s => ⟨(hw s).1, ih s (hw s).2⟩
  | wait ms w ih => exact ih hw
  | cancel w ih => exact ih hw

theorem Keeps.view_run_guarded (hw : w.Keeps view) (t : Token) (s : Session σ) :
    view ((Program.guarded none w).run t s).session.state = view s.state := by
  induction w generalizing t s with
  | done a => rfl
  | remark r w ih => exact ih hw t s
  | act u k ih => exact (ih s.state (hw s.state).2 t _).trans (hw s.state).1
  | cancel w ih => exact ih hw _ s
  | wait ms w ih =>
      rw [Program.guarded]
      split
      · exact ih hw t s
      · simp only [Program.sleepGuarded, Program.unlessCancelled, Program.run]
        split
        · rfl
        · exact ih hw _ _

end Work

/-! ## Errors of decided invocations -/

namespace Dispatcher

variable {disp : Dispatcher σ} {type : ImplementationType} {call : Implementation → Work σ Yield}
  {ctx : Context} {t : Token} {s : Session σ}

/-- An invocation that has its decision names a trial in every error. -/
theorem exists_trial_of_error {d : Definition σ} {decision : Decision} {e : DispatchError}
    (he : ((disp.invokeDecided type call d ctx decision).run t s).value = .error e) :
    ∃ key, e.trial? = some key := by
  rw [run_invokeDecided] at he
  obtain ⟨later, hturns⟩ := Definition.turns_of_unfolds (he ▸ Program.unfolds_history _ _ _)
  obtain ⟨_, last, _, _, _, _, _, -, -, -, hcloses⟩ := hturns.exists_closes
  exact ⟨last, hcloses.trial?_eq⟩

end Dispatcher

/-! ## Early ends -/

/-- The run of the selection of an experiment for a caller, by itself. -/
abbrev Definition.selection (d : Definition σ) (ctx : Context) (t : Token) (s : Session σ) :
    Run σ (Program.Guarded Decision) :=
  (Program.guarded none (d.select ctx)).run t s

/-- How an invocation may end without a trial. -/
inductive EarlyEnd (registry : Registry σ) (board : Switchboard σ) (ctx : Context) (t : Token)
    (s : Session σ) : Run σ (Except DispatchError String) → Prop where
  | unregistered : registry.get? ctx.contract = none →
    EarlyEnd registry board ctx t s
      ⟨.error (.definitionNotFound ctx.contract), t, s, [.event (.experimentMissing ctx.contract)]⟩
  | before {d : Definition σ} : registry.get? ctx.contract = some d →
    board.experimentDisabled s.state ctx.contract = false → t.cancelled = true →
    EarlyEnd registry board ctx t s ⟨.error (.cancelled none), t, s, []⟩
  | meanwhile {d : Definition σ} : registry.get? ctx.contract = some d →
    board.experimentDisabled s.state ctx.contract = false → t.cancelled = false →
    s.cache.get? ⟨ctx.contract, ctx.scope⟩ = none →
    (∀ decision, (d.selection ctx t s).value ≠ .finished decision) →
    EarlyEnd registry board ctx t s
      ⟨.error (.cancelled none), (d.selection ctx t s).token, (d.selection ctx t s).session,
        .selecting ⟨ctx.contract, ctx.scope⟩ :: (d.selection ctx t s).notes⟩

/-- The result names no trial: there is no experiment, or the invocation was cancelled before there was
a decision. -/
def EndsEarly (result : Except DispatchError String) : Prop :=
  (∃ contract, result = .error (.definitionNotFound contract)) ∨ result = .error (.cancelled none)

theorem EndsEarly.trial?_eq_none {e : DispatchError} (h : EndsEarly (.error e)) : e.trial? = none := by
  obtain ⟨contract, h⟩ | h := h
  · cases h
    rfl
  · cases h
    rfl

namespace Dispatcher

variable {disp : Dispatcher σ} {type : ImplementationType} {call : Implementation → Work σ Yield}
  {ctx : Context} {t : Token} {s : Session σ}

/-- Deciding gives no decision only where the look-up gives none. -/
theorem run_decide_of_none {d : Definition σ} (h : ((disp.decide d ctx).run t s).value = none) :
    disp.board.experimentDisabled s.state d.contract = false ∧
      (disp.decide d ctx).run t s =
        (DecisionCache.getOrResolve ⟨d.contract, ctx.scope⟩ (d.select ctx)).run t s := by
  cases hon : disp.board.experimentDisabled s.state d.contract with
  | true =>
      rw [run_decide_of_disabled disp d ctx t s hon] at h
      cases h
  | false =>
      refine ⟨rfl, ?_⟩
      rw [run_decide_of_enabled disp d ctx t s hon] at h ⊢
      dsimp only at h ⊢
      split at h
      · next hnone => rw [← hnone]
      · cases h

theorem not_endsEarly_invokeDecided {d : Definition σ} {decision : Decision} :
    ¬ EndsEarly ((disp.invokeDecided type call d ctx decision).run t s).value := by
  intro hends
  cases hvalue : ((disp.invokeDecided type call d ctx decision).run t s).value with
  | ok value =>
      rw [hvalue] at hends
      obtain ⟨_, heq⟩ | heq := hends
      · cases heq
      · cases heq
  | error e =>
      obtain ⟨key, hkey⟩ := exists_trial_of_error hvalue
      rw [hvalue] at hends
      rw [hends.trial?_eq_none] at hkey
      cases hkey

/-- **An invocation that ends without a trial** ends in a way of `EarlyEnd`. -/
theorem earlyEnd_of_ends (hends : EndsEarly ((disp.invoke type call ctx).run t s).value) :
    EarlyEnd disp.registry disp.board ctx t s ((disp.invoke type call ctx).run t s) := by
  cases hd : disp.registry.get? ctx.contract with
  | none =>
      rw [invoke_of_get?_none hd]
      exact .unregistered hd
  | some d =>
      rw [run_invoke_of_get? hd] at hends ⊢
      cases hdecided : ((disp.decide d ctx).run t s).value with
      | some decision =>
          simp only [hdecided] at hends
          exact absurd hends not_endsEarly_invokeDecided
      | none =>
          obtain ⟨hon, hlooked⟩ := run_decide_of_none hdecided
          have hcontract := Registry.contract_of_get? hd
          simp only [hdecided]
          rw [hlooked] at hdecided ⊢
          rw [hcontract] at hon hdecided ⊢
          obtain hc | ⟨hc, hnone, hmade⟩ := DecisionCache.unfinished_of_run_getOrResolve hdecided
          · rw [DecisionCache.run_getOrResolve_of_cancelled hc]
            exact .before hd hon hc
          · rw [DecisionCache.run_getOrResolve_of_unfinished hc hnone hmade]
            exact .meanwhile hd hon hc hnone hmade

end Dispatcher

/-- A note of an invocation that has no decision yet: nothing is reported, made, looked up or attempted,
and if a selection begins it is for the key. -/
structure Note.Preliminary (key : DecisionKey) (n : Note) : Prop where
  report : n.report? = none
  attempt : n.attempt? = none
  creating : ∀ name, n ≠ .creating name
  resolving : ∀ contract trial, n ≠ .resolving contract trial
  selection : ∀ key', n.selection? = some key' → key' = key

theorem Note.preliminary_remark (key : DecisionKey) (r : Remark) : Preliminary key (.remark r) :=
  ⟨rfl, rfl, nofun, nofun, nofun⟩

theorem Note.preliminary_selecting (key : DecisionKey) : Preliminary key (.selecting key) :=
  ⟨rfl, rfl, nofun, nofun, fun _ heq => (Option.some.inj heq).symm⟩

namespace EarlyEnd

variable {registry : Registry σ} {board : Switchboard σ} {ctx : Context}
  {t : Token} {s : Session σ} {r : Run σ (Except DispatchError String)}

theorem cache (h : EarlyEnd registry board ctx t s r) : r.session.cache = s.cache := by
  cases h with
  | meanwhile _ _ _ _ _ =>
      exact Program.cache_run_of_plain (Program.plain_guarded Note.inward_remark none _) t s
  | _ => rfl

/-- The session is as it was, or as the selection by itself leaves it. -/
theorem session (h : EarlyEnd registry board ctx t s r) :
    r.session = s ∨
      ∃ d, registry.get? ctx.contract = some d ∧ r.session = (d.selection ctx t s).session := by
  cases h with
  | meanwhile hd _ _ _ _ => exact .inr ⟨_, hd, rfl⟩
  | _ => exact .inl rfl

theorem preliminary (h : EarlyEnd registry board ctx t s r) :
    ∀ n ∈ r.notes, n.Preliminary ⟨ctx.contract, ctx.scope⟩ := by
  cases h with
  | unregistered _ =>
      intro n hn
      obtain rfl := List.mem_singleton.mp hn
      exact Note.preliminary_remark _ _
  | before _ _ _ => exact nofun
  | meanwhile _ _ _ _ _ =>
      refine List.forall_mem_cons.mpr ⟨Note.preliminary_selecting _, ?_⟩
      exact Program.notes_run_of_plain
        (Program.plain_guarded (Note.preliminary_remark _) none _) t s

/-- An early end depends on the experiments and the switches only. -/
theorem run_invoke (disp : Dispatcher σ) (h : EarlyEnd disp.registry disp.board ctx t s r)
    (type : ImplementationType) (call : Implementation → Work σ Yield) :
    (disp.invoke type call ctx).run t s = r := by
  cases h with
  | unregistered hd =>
      rw [Dispatcher.invoke_of_get?_none hd]
      rfl
  | before hd hon hc =>
      rw [← Registry.contract_of_get? hd] at hon
      rw [Dispatcher.run_invoke_of_get? hd, Dispatcher.run_decide_of_enabled disp _ ctx t s hon,
        DecisionCache.run_getOrResolve_of_cancelled hc]
  | meanwhile hd hon hc hnone hmade =>
      rw [← Registry.contract_of_get? hd] at hon hnone ⊢
      rw [Dispatcher.run_invoke_of_get? hd, Dispatcher.run_decide_of_enabled disp _ ctx t s hon,
        DecisionCache.run_getOrResolve_of_unfinished hc hnone hmade]

end EarlyEnd

/-! ## The next invocation -/

namespace Dispatcher

variable {disp : Dispatcher σ} {ctx : Context} {t : Token} {s : Session σ} {d : Definition σ}

/-- Where nothing is kept, an invocation that is not cancelled selects, while its experiment is on. -/
theorem selects_of_not_kept (type : ImplementationType) (call : Implementation → Work σ Yield)
    (hd : disp.registry.get? ctx.contract = some d)
    (hon : disp.board.experimentDisabled s.state ctx.contract = false) (hc : t.cancelled = false)
    (hnone : s.cache.get? ⟨ctx.contract, ctx.scope⟩ = none) :
    .selecting ⟨ctx.contract, ctx.scope⟩ :: (d.selection ctx t s).notes <+:
      ((disp.invoke type call ctx).run t s).notes := by
  rw [← Registry.contract_of_get? hd] at hon hnone ⊢
  let looked := (DecisionCache.getOrResolve ⟨d.contract, ctx.scope⟩ (d.select ctx)).run t s
  let decided := (disp.decide d ctx).run t s
  have hlooked : .selecting ⟨d.contract, ctx.scope⟩ :: (d.selection ctx t s).notes <+:
      looked.notes := by
    simp only [looked, DecisionCache.run_getOrResolve_of_miss hc hnone]
    exact ⟨_, rfl⟩
  have hdecided : looked.notes <+: decided.notes := by
    simp only [decided, run_decide_of_enabled disp d ctx t s hon]
    split
    · exact ⟨[], List.append_nil _⟩
    · exact ⟨_, rfl⟩
  have hinvoked : decided.notes <+: ((disp.invoke type call ctx).run t s).notes := by
    rw [run_invoke_of_get? hd]
    dsimp only
    split
    · exact ⟨[], List.append_nil _⟩
    · exact ⟨_, rfl⟩
  exact hlooked.trans (hdecided.trans hinvoked)

end Dispatcher

/-- How all switches are set in a state. -/
def Switchboard.positions (board : Switchboard σ) (s : σ) :
    (ContractId → Bool) × (ContractId → TrialKey → Bool) :=
  (board.experimentDisabled s, board.trialDisabled s)

namespace Dispatcher

/-- **Early ends leave no trace.**  An invocation that has the session for itself, and ends because it has
no experiment or was cancelled before there was a decision, leaves the cache as it is, its index included.
The state it leaves as it is, or as the selection by itself leaves it; the switches are set as before
unless the strategy itself operates them.  Nothing is noted but remarks and the selection: no report is
made, no decorator created, no implementation looked up and no trial attempted, so any other
implementations and any other call would have come to the same.

After such a cancellation, where nothing is kept, the next invocation of the contract within the scope
selects anew, whoever calls and whatever has become of the state, unless it is cancelled from the start
or the experiment is off. -/
theorem early_end_leaves_no_trace {disp : Dispatcher σ} {type : ImplementationType}
    {call : Implementation → Work σ Yield} {ctx : Context} {t : Token} {s : Session σ}
    (hends : EndsEarly ((disp.invoke type call ctx).run t s).value) :
    let r := (disp.invoke type call ctx).run t s
    let key : DecisionKey := ⟨ctx.contract, ctx.scope⟩
    r.session.cache = s.cache ∧
    (r.session = s ∨ ∃ d, disp.registry.get? ctx.contract = some d ∧
      r.session = (d.selection ctx t s).session) ∧
    ((∀ d, disp.registry.get? ctx.contract = some d →
        (d.strategy.resolve ctx).Keeps disp.board.positions) →
      disp.board.positions r.session.state = disp.board.positions s.state) ∧
    (∀ n ∈ r.notes, n.Preliminary key) ∧
    (∀ (resolver : Resolver σ) (config : Config) (type' : ImplementationType)
      (call' : Implementation → Work σ Yield),
      (({ disp with resolver, config } : Dispatcher σ).invoke type' call' ctx).run t s = r) ∧
    (r.value = .error (.cancelled none) → s.cache.get? key = none →
      ∃ d, disp.registry.get? ctx.contract = some d ∧
        ∀ (ctx' : Context) (t' : Token) (s' : Session σ) (type' : ImplementationType)
          (call' : Implementation → Work σ Yield),
          ctx'.contract = ctx.contract → ctx'.scope = ctx.scope → t'.cancelled = false →
          s'.cache = r.session.cache →
          disp.board.experimentDisabled s'.state ctx.contract = false →
          .selecting key :: (d.selection ctx' t' s').notes <+:
            ((disp.invoke type' call' ctx').run t' s').notes) := by
  intro r key
  have hend : EarlyEnd disp.registry disp.board ctx t s r := earlyEnd_of_ends hends
  refine ⟨hend.cache, hend.session, fun hkeeps => ?_, hend.preliminary, ?_, ?_⟩
  · obtain hsame | ⟨d, hd, hsession⟩ := hend.session
    · rw [hsame]
    · rw [hsession]
      refine Work.Keeps.view_run_guarded ?_ t s
      rw [Definition.select_eq]
      exact (hkeeps d hd).bind fun _ => trivial
  · intro resolver config type' call'
    exact EarlyEnd.run_invoke { disp with resolver, config } hend type' call'
  · intro hcancelled hnone
    cases hd : disp.registry.get? ctx.contract with
    | none =>
        have hvalue : r.value = .error (.definitionNotFound ctx.contract) := by
          show ((disp.invoke type call ctx).run t s).value = _
          rw [invoke_of_get?_none hd]
          rfl
        rw [hvalue] at hcancelled
        cases hcancelled
    | some d =>
        refine ⟨d, rfl, ?_⟩
        rintro ctx' t' s' type' call' hcontract hscope hc hcache hon
        -- the cancelled selection has kept nothing, so nothing is found for the pair
        rw [← hcontract] at hd hon
        have hnone' : s'.cache.get? ⟨ctx'.contract, ctx'.scope⟩ = none := by
          rw [hcontract, hscope, hcache, hend.cache]
          exact hnone
        have hselects := selects_of_not_kept type' call' hd hon hc hnone'
        rw [hcontract, hscope] at hselects
        exact hselects

/-! ### A checkout that takes its time -/

/-- The checkout with a selector that waits for ten milliseconds. -/
def slowCheckout : Definition KillSwitch :=
  { checkout with
    strategy := .custom "slow" (fun _ _ => .wait 10 (.done (.ok ⟨"streamlined"⟩)))
      checkoutTrials.keys }

def slowDispatcher : Dispatcher KillSwitch :=
  { checkoutDispatcher with registry := ⟨[slowCheckout], by decide⟩ }

/-- A checkout that is cancelled while its selector waits leaves nothing behind, and the next one
selects anew. -/
theorem early_end_slowCheckout :
    let r := (slowDispatcher.invoke .word checkoutCall checkoutContext).run ⟨false, some 4⟩ checkoutOn
    r.value = .error (.cancelled none) ∧ r.session.clock = 4 ∧ r.session.cache = checkoutOn.cache ∧
      .selecting ⟨⟨"checkout"⟩, ⟨"req-1"⟩⟩ ∈
        ((slowDispatcher.invoke .word checkoutCall checkoutContext).run .live r.session).notes := by
  intro r
  have hvalue : r.value = .error (.cancelled none) := by decide +kernel
  obtain ⟨hcache, -, -, -, -, hnext⟩ := early_end_leaves_no_trace (.inr hvalue)
  obtain ⟨d, -, hselects⟩ := hnext hvalue rfl
  refine ⟨hvalue, by decide +kernel, hcache, ?_⟩
  exact (hselects checkoutContext .live r.session .word checkoutCall rfl rfl rfl rfl
    (by decide +kernel)).subset List.mem_cons_self

end Dispatcher

end TrialRouting
