import TrialRouting.Proofs.Cache
import TrialRouting.Proofs.Plain
import TrialRouting.Proofs.Yields

/-!
# TrialRouting.Proofs.Lookup

A look-up that has the cache for itself.  It finds the decision of its key, or
makes one that its resolver yields, or is cancelled (`Looked`); nothing else
becomes of the cache, and no decision that was there is lost.

`yields_select` says what a selection may come to: a registered trial, or the
default in place of it with the error for a reason.
-/

namespace TrialRouting

variable {σ : Type}

/-! ## Looking a decision up -/

namespace DecisionCache

/-- How a look-up ends that nobody interferes with: its value, and the cache that it leaves. -/
inductive Looked (c : DecisionCache) (key : DecisionKey) (resolve : Work σ Decision) :
    Option Decision → DecisionCache → Prop where
  | cancelled : Looked c key resolve none c
  | found {d : Decision} : c.get? key = some d → Looked c key resolve (some d) (c.track key)
  | made {d : Decision} : c.get? key = none → resolve.Yields d →
    Looked c key resolve (some d) ((c.insert key d).track key)

variable {c c' : DecisionCache} {key : DecisionKey} {resolve : Work σ Decision}
  {value : Option Decision}

/-- A look-up loses no decision. -/
theorem Looked.get?_of_some {key' : DecisionKey} {kept : Decision}
    (h : Looked c key resolve value c') (hkept : c.get? key' = some kept) :
    c'.get? key' = some kept := by
  cases h with
  | cancelled => exact hkept
  | found _ => rw [get?_track, hkept]
  | made hnone _ =>
      have hne : key' ≠ key := by
        rintro rfl
        rw [hnone] at hkept
        cases hkept
      rw [get?_track, get?_insert, if_neg hne, hkept]

/-- A look-up keeps no decision but one that its resolver yields. -/
theorem Looked.of_get? {key' : DecisionKey} {kept : Decision}
    (h : Looked c key resolve value c') (hkept : c'.get? key' = some kept) :
    c.get? key' = some kept ∨ key' = key ∧ resolve.Yields kept := by
  cases h with
  | cancelled => exact .inl hkept
  | found _ =>
      rw [get?_track] at hkept
      exact .inl hkept
  | made _ hyields =>
      rw [get?_track, get?_insert] at hkept
      split at hkept
      · next hkey =>
          cases hkept
          exact .inr ⟨hkey, hyields⟩
      · exact .inl hkept

theorem run_getOrResolve_of_cancelled {t : Token} {s : Session σ} (hc : t.cancelled = true) :
    (getOrResolve key resolve).run t s = ⟨none, t, s, []⟩ := by
  simp only [getOrResolve, Program.run, hc]

theorem run_getOrResolve_of_hit {t : Token} {s : Session σ} {d : Decision}
    (hc : t.cancelled = false) (hd : s.cache.get? key = some d) :
    (getOrResolve key resolve).run t s =
      ⟨some d, t, { s with cache := s.cache.track key }, []⟩ := by
  simp only [getOrResolve, Program.run, hc, hd, answered]

/-- The end of a claim that was won. -/
theorem run_conclude (outcome : Program.Guarded Decision) (t : Token) (s : Session σ) :
    (conclude key outcome : Program σ _).run t s =
      match outcome with
      | .finished d => ⟨some d, t, { s with cache := (s.cache.insert key d).track key }, []⟩
      | _ => ⟨none, t, s, []⟩ := by
  cases outcome <;> rfl

theorem run_getOrResolve_of_miss {t : Token} {s : Session σ} (hc : t.cancelled = false)
    (hnone : s.cache.get? key = none) :
    (getOrResolve key resolve).run t s =
      let made := (Program.guarded none resolve).run t s
      let r := (conclude key made.value : Program σ _).run made.token made.session
      { r with notes := .selecting key :: (made.notes ++ r.notes) } := by
  simp only [getOrResolve, Program.run, hc, hnone, answered, resolveClaimed,
    Program.unlessCancelled, Program.bind]
  exact congrArg (fun r : Run σ _ => { r with notes := Note.selecting key :: r.notes })
    (Program.run_bind _ _ t s)

/-- A look-up whose resolver does not come to its end. -/
theorem run_getOrResolve_of_unfinished {t : Token} {s : Session σ} (hc : t.cancelled = false)
    (hnone : s.cache.get? key = none)
    (hmade : ∀ d, ((Program.guarded none resolve).run t s).value ≠ .finished d) :
    (getOrResolve key resolve).run t s =
      let made := (Program.guarded none resolve).run t s
      ⟨none, made.token, made.session, .selecting key :: made.notes⟩ := by
  rw [run_getOrResolve_of_miss hc hnone]
  dsimp only
  rw [run_conclude]
  split
  · next d hvalue => exact absurd hvalue (hmade d)
  · simp

/-- A look-up without a value was cancelled from the start, or its resolver has not come to its end. -/
theorem unfinished_of_run_getOrResolve {t : Token} {s : Session σ}
    (h : ((getOrResolve key resolve).run t s).value = none) :
    t.cancelled = true ∨ t.cancelled = false ∧ s.cache.get? key = none ∧
      ∀ d, ((Program.guarded none resolve).run t s).value ≠ .finished d := by
  cases hc : t.cancelled with
  | true => exact .inl rfl
  | false =>
      cases hd : s.cache.get? key with
      | some d =>
          rw [run_getOrResolve_of_hit hc hd] at h
          cases h
      | none =>
          refine .inr ⟨rfl, rfl, fun d hvalue => ?_⟩
          rw [run_getOrResolve_of_miss hc hd] at h
          dsimp only at h
          rw [hvalue] at h
          cases h

/-- **A look-up on its own** ends in one of three ways. -/
theorem looked_run_getOrResolve (key : DecisionKey) (resolve : Work σ Decision) (t : Token)
    (s : Session σ) :
    let r := (getOrResolve key resolve).run t s
    Looked s.cache key resolve r.value r.session.cache := by
  cases hc : t.cancelled with
  | true =>
      rw [run_getOrResolve_of_cancelled hc]
      exact .cancelled
  | false =>
      cases hd : s.cache.get? key with
      | some d =>
          rw [run_getOrResolve_of_hit hc hd]
          exact .found hd
      | none =>
          have hcache : ((Program.guarded none resolve).run t s).session.cache = s.cache :=
            Program.cache_run_of_plain
              (Program.plain_guarded Note.inward_remark none resolve) t s
          rw [run_getOrResolve_of_miss hc hd]
          dsimp only
          rw [run_conclude]
          split
          · next d hvalue =>
              dsimp only
              rw [hcache]
              exact .made hd (Program.yields_of_run_guarded hvalue)
          · dsimp only
            rw [hcache]
            exact .cancelled

/-- A selection that is noted during a look-up is for its key, of which no decision is kept. -/
theorem selection_of_mem_run_getOrResolve {key : DecisionKey} {resolve : Work σ Decision}
    {t : Token} {s : Session σ} {n : Note} {key' : DecisionKey}
    (hn : n ∈ ((getOrResolve key resolve).run t s).notes) (hkey : n.selection? = some key') :
    key' = key ∧ s.cache.get? key' = none := by
  cases hc : t.cancelled with
  | true =>
      rw [run_getOrResolve_of_cancelled hc] at hn
      cases hn
  | false =>
      cases hd : s.cache.get? key with
      | some d =>
          rw [run_getOrResolve_of_hit hc hd] at hn
          cases hn
      | none =>
          rw [run_getOrResolve_of_miss hc hd] at hn
          dsimp only at hn
          rcases List.mem_cons.mp hn with rfl | hn
          · cases hkey
            exact ⟨rfl, hd⟩
          · have hnone : n.selection? = none := by
              rcases List.mem_append.mp hn with hn | hn
              · exact (Program.notes_run_of_plain
                  (Program.plain_guarded Note.inward_remark none resolve) t s n hn).selection
              · rw [run_conclude] at hn
                split at hn <;> cases hn
            rw [hnone] at hkey
            cases hkey

end DecisionCache

/-! ## Selecting a trial -/

namespace Definition

/-- A trial of the experiment that was selected, or the default trial because of an error. -/
def Selectable (d : Definition σ) (decision : Decision) : Prop :=
  (∃ trial ∈ d.trials.keys, decision = .selected trial d.strategy.candidates) ∨
    ∃ error, decision = .substituted d.trials.defaultKey d.strategy.candidates (.selection error)

theorem yields_substituteDefault {d : Definition σ} {ctx : Context} {error : SelectionError}
    {decision : Decision} (h : (d.substituteDefault ctx error).Yields decision) :
    decision = .substituted d.trials.defaultKey d.strategy.candidates (.selection error) := by
  obtain ⟨_, _, h⟩ := Work.yields_bind h
  cases h
  rfl

/-- What a selection may come to. -/
theorem yields_select {d : Definition σ} {ctx : Context} {decision : Decision}
    (h : (d.select ctx).Yields decision) : d.Selectable decision := by
  obtain ⟨answer, _, h⟩ := Work.yields_bind h
  cases answer with
  | error error => exact .inr ⟨error, yields_substituteDefault h⟩
  | ok trial =>
      dsimp only at h
      split at h
      · next hmem =>
          obtain ⟨_, _, h⟩ := Work.yields_bind h
          cases h
          exact .inl ⟨trial, d.trials.contains_iff.1 hmem, rfl⟩
      · exact .inr ⟨_, yields_substituteDefault h⟩

end Definition

end TrialRouting
