import TrialRouting.Proofs.Invocation.Scope
import TrialRouting.Proofs.Invocation.Unfolding
import TrialRouting.Proofs.Unfolding.Crowd

/-!
# TrialRouting.Proofs.Invocation.Kept

Where the decisions that are found come from.  A decision is kept by nobody but
an invocation that has made it (`Dispatcher.Kept`), and an invocation keeps
nothing but what its selection came to (`selected_of_kept`), whatever others do
meanwhile.  So an invocation that finds none but kept decisions starts with a
registered trial (`mem_keys_of_decide`).

All decisions that a run finds after a history of deeds are of this kind
(`kept_of_hit`), and so are all that invocations find which run at the same time
(`exists_history_of_crowd`).  What is proved of invocations that find kept
decisions holds of these runs without further assumptions.
-/

namespace TrialRouting

variable {σ : Type}

/-! ## Runs and the cache -/

namespace Program

variable {α : Type} {key : DecisionKey} {kept : Decision}

/-- What a run finds or leaves kept was kept before, or the run has settled it. -/
theorem settled_of_met {p : Program σ α} {t : Token} {s : Session σ}
    (hmet : .claimed key (.hit kept) ∈ p.history t s ∨
      (p.run t s).session.cache.get? key = some kept) :
    s.cache.get? key = some kept ∨ .settled key (some kept) ∈ p.history t s := by
  induction p generalizing t s with
  | done a => exact .inl (hmet.resolve_left List.not_mem_nil)
  | note n p ih => simpa [history] using ih (by simpa [history, run] using hmet)
  | act u k ih =>
      simpa [history] using ih s.state (s := { s with state := u s.state })
        (by simpa [history, run] using hmet)
  | sleep ms p ih =>
      simpa [history] using ih (s := { s with clock := (t.sleep s.clock ms).2 })
        (by simpa [history, run] using hmet)
  | cancelled k ih => simpa [history] using ih t.cancelled (by simpa [history, run] using hmet)
  | cancel p ih => simpa [history] using ih (by simpa [history, run] using hmet)
  | claim key' k ih =>
      simp only [run, history] at hmet ⊢
      cases hfound : s.cache.get? key' with
      | none =>
          simp only [hfound] at hmet ⊢
          simpa using ih .won (by simpa using hmet)
      | some d =>
          simp only [hfound, List.mem_cons, or_assoc] at hmet ⊢
          obtain hhere | hlater := hmet
          · cases hhere
            exact .inl hfound
          · simpa using ih (.hit d) hlater
  | settle key' d p ih =>
      cases d with
      | none => simpa [history] using ih (by simpa [history, run] using hmet)
      | some d =>
          obtain hold | hsettled := ih (s := { s with cache := s.cache.insert key' d })
            (by simpa [history, run] using hmet)
          · rw [DecisionCache.get?_insert] at hold
            split at hold
            · next hkey =>
                cases hold
                exact .inr (hkey ▸ List.mem_cons_self)
            · exact .inl hold
          · exact .inr (List.mem_cons_of_mem _ hsettled)
  | track key' p ih =>
      simpa [history] using ih (s := { s with cache := s.cache.track key' })
        (by simpa [history, run] using hmet)

end Program

/-! ## What an invocation keeps -/

namespace DecisionCache

/-- A look-up settles nothing but what its resolver yields, for its own key. -/
theorem Looks.yields_of_settled {key key' : DecisionKey} {resolve : Work σ Decision}
    {h : History σ} {value : Option Decision} {kept : Decision} (hlooks : Looks key resolve h value)
    (hsettled : .settled key' (some kept) ∈ h) : key' = key ∧ resolve.Yields kept := by
  have hplain : (Program.unlessCancelled (Program.guarded none resolve)).Plain Note.Inward := by
    intro c
    cases c with
    | true => trivial
    | false => exact Program.plain_guarded Note.inward_remark none resolve
  have htried {tried : History σ} {g : Program.Guarded Decision}
      (hu : (Program.unlessCancelled (Program.guarded none resolve)).Unfolds tried g) :
      .settled key' (some kept) ∉ tried := Program.apart_of_plain hplain hu _
  cases hlooks with
  | cancelled => simp at hsettled
  | abandoned => simp at hsettled
  | found _ => simp at hsettled
  | unmade hu => simp [htried hu] at hsettled
  | made hu =>
      obtain ⟨rfl, rfl⟩ : key' = key ∧ kept = _ := by simpa [htried hu] using hsettled
      exact ⟨rfl, yields_of_unfolds_unlessCancelled hu⟩

end DecisionCache

theorem Definition.Selectable.mem_keys {d : Definition σ} {decision : Decision}
    (h : d.Selectable decision) : decision.trial ∈ d.trials.keys := by
  obtain ⟨trial, hmem, rfl⟩ | ⟨error, rfl⟩ := h
  · exact hmem
  · exact d.trials.defaultKey_mem_keys

namespace Dispatcher

variable {disp : Dispatcher σ} {d : Definition σ} {ctx : Context} {h : History σ}
  {key : DecisionKey} {kept : Decision}

/-- Some invocation of the dispatcher may have kept the decision. -/
def Kept (disp : Dispatcher σ) (key : DecisionKey) (kept : Decision) : Prop :=
  ∃ type call ctx h result, (disp.invoke type call ctx).Unfolds h result ∧
    .settled key (some kept) ∈ h

/-- Deciding settles nothing but what a selection yields. -/
theorem Decides.yields_of_settled {value : Option Decision} (hdecides : disp.Decides d ctx h value)
    (hsettled : .settled key (some kept) ∈ h) :
    key = ⟨d.contract, ctx.scope⟩ ∧ (d.select ctx).Yields kept := by
  cases hdecides with
  | disabled s _ => simp at hsettled
  | undecided s _ hlooks => exact hlooks.yields_of_settled (by simpa using hsettled)
  | @decided s looked replaced _ _ _ hlooks hreplaces =>
      have hreplaced : .settled key (some kept) ∉ replaced := by
        cases hreplaces <;> simp
      exact hlooks.yields_of_settled (by simpa [hreplaced] using hsettled)

/-- **What is kept was selected**, whatever others did meanwhile. -/
theorem selected_of_kept (hkept : disp.Kept key kept) : disp.Selected key kept := by
  obtain ⟨type, call, ctx, h, result, hu, hsettled⟩ := hkept
  cases hd : disp.registry.get? ctx.contract with
  | none =>
      rw [invoke_of_get?_none hd] at hu
      cases hu with
      | note _ hu =>
          cases hu
          simp at hsettled
  | some d =>
      rw [invoke_of_get? hd] at hu
      obtain ⟨value, decided, rest, rfl, hdecided, hrest⟩ := Program.unfolds_bind hu
      have hapart : .settled key (some kept) ∉ rest := by
        cases value with
        | none =>
            cases hrest
            exact List.not_mem_nil
        | some decision =>
            exact Program.apart_of_plain (disp.plain_invokeDecided type call d ctx decision) hrest _
      have hdecidedMem := (List.mem_append.mp hsettled).resolve_right hapart
      obtain ⟨rfl, hyields⟩ := (decides_of_unfolds hdecided).yields_of_settled hdecidedMem
      have hcontract := Registry.contract_of_get? hd
      exact ⟨d, ctx, hcontract ▸ hd, by rw [hcontract], hyields⟩

/-- An invocation that finds none but kept decisions decides for a registered trial. -/
theorem mem_keys_of_decide {decision : Decision}
    (hd : disp.registry.get? ctx.contract = some d)
    (hu : (disp.decide d ctx).Unfolds h (some decision))
    (hhits : ∀ key kept, .claimed key (.hit kept) ∈ h → disp.Kept key kept) :
    decision.trial ∈ d.trials.keys := by
  cases decides_of_unfolds hu with
  | disabled s _ => exact d.trials.defaultKey_mem_keys
  | @decided s looked replaced kept _ _ hlooks hreplaces =>
      have hselectable : d.Selectable kept := by
        cases hlooks with
        | made hmade =>
            exact Definition.yields_select (DecisionCache.yields_of_unfolds_unlessCancelled hmade)
        | found _ =>
            obtain ⟨d', ctx', hd', hkey, hyields⟩ :=
              selected_of_kept (hhits ⟨d.contract, ctx.scope⟩ kept (by simp))
            have hcontract := Registry.contract_of_get? hd
            obtain rfl : d = d' := by
              rw [← hcontract] at hd
              exact Option.some.inj (hd.symm.trans hd')
            exact Definition.yields_select hyields
      cases hreplaces with
      | default _ => exact hselectable.mem_keys
      | on _ _ _ => exact hselectable.mem_keys
      | off _ _ _ => exact d.trials.defaultKey_mem_keys

/-! ## Histories of deeds -/

variable {s : Session σ} {deeds : List (Deed σ)}

/-- After a history of deeds nothing is kept but what was kept before or by an invocation. -/
theorem kept_of_get?_history (h : (disp.history s deeds).cache.get? key = some kept) :
    s.cache.get? key = some kept ∨ disp.Kept key kept := by
  obtain hold | ⟨s', type, call, ctx, token, hnew, hrun⟩ := get?_of_history h
  · exact .inl hold
  · have hsettled := (Program.settled_of_met (.inr hrun)).resolve_left hnew
    exact .inr ⟨type, call, ctx, _, _, Program.unfolds_history _ token s', hsettled⟩

/-- **What a run finds is kept**, if the dispatcher was new once. -/
theorem kept_of_hit {clock : Nat} {state : σ} {type : ImplementationType}
    {call : Implementation → Work σ Yield} {token : Token}
    (hhit : .claimed key (.hit kept) ∈ (disp.invoke type call ctx).history token
      (disp.history (disp.newSession clock state) deeds)) : disp.Kept key kept := by
  obtain hold | hsettled := Program.settled_of_met (.inl hhit)
  · obtain hnew | hkept := kept_of_get?_history hold
    · cases hnew
    · exact hkept
  · exact ⟨type, call, ctx, _, _, Program.unfolds_history _ token _, hsettled⟩

/-! ## Invocations at the same time -/

/-- **Invocations that run at the same time**, after a history of deeds of a dispatcher that was new
once, unfold to their results and find none but kept decisions. -/
theorem exists_history_of_crowd {clock : Nat} {state : σ} {i : Nat}
    {entrants : List (Crowd.Entrant σ (Except DispatchError String))}
    {e : Crowd.Entrant σ (Except DispatchError String)}
    (hinvoke : ∀ e ∈ entrants, ∃ type call ctx, e.program = disp.invoke type call ctx)
    (he : entrants[i]? = some e) :
    let crowd := (Crowd.gather (disp.history (disp.newSession clock state) deeds) entrants).run
    ∃ m, crowd.members[i]? = some m ∧ ∀ result time, m.result? = some (result, time) →
      ∃ h, e.program.Unfolds h result ∧ attempts (crowd.notesOf i) = attempts h.notes ∧
        reports (crowd.notesOf i) = reports h.notes ∧
        ∀ key kept, .claimed key (.hit kept) ∈ h → disp.Kept key kept := by
  intro crowd
  obtain ⟨past, hpast⟩ :=
    Crowd.exists_histories (disp.history (disp.newSession clock state) deeds) entrants
  obtain ⟨m, hm, _, hends, hnotes, hhits⟩ := hpast i e he
  refine ⟨m, hm, fun result time hresult => ⟨past i, hends result time hresult, ?_, ?_, ?_⟩⟩
  · rw [← attempts_withoutRetries, hnotes, attempts_withoutRetries]
  · rw [← reports_withoutRetries, hnotes, reports_withoutRetries]
  · intro key kept hhit
    obtain hold | ⟨j, e', he', hsettled⟩ := hhits key kept hhit
    · obtain hnew | hkept := kept_of_get?_history hold
      · cases hnew
      · exact hkept
    · obtain ⟨_, _, ⟨rest, result', hu⟩, _⟩ := hpast j e' he'
      obtain ⟨type, call, ctx, hprogram⟩ := hinvoke e' (List.mem_of_getElem? he')
      rw [hprogram] at hu
      exact ⟨type, call, ctx, _, result', hu, List.mem_append_left _ hsettled⟩

end Dispatcher

end TrialRouting
