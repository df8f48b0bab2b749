import TrialRouting.Proofs.Cache.Index
import TrialRouting.Proofs.Traffic.SingleFlight

/-!
# TrialRouting.Proofs.Traffic.Upkeep

What a choice does to the cache.  An `Upkeep` is one operation of the cache,
and every choice is one (`Traffic.cache_next`).  A decision is inserted by one
operation and its key is listed by another one; of the removals only the
dropping of a decision takes the key off the index as well.

* `inserts_or_kept`, `tracks_or_listed` — whence an entry and a listing are;
* `exists_last_tracks` — a listed key was tracked, and has not been unlisted since;
* `Doomed.succ`, `doomed_of_detaches` — a key that is taken off the index with
  its scope is doomed until it is removed;
* `exists_endScope_of_invalidates` — no other key is removed by the end of a scope.
-/

namespace TrialRouting

open DecisionCache

variable {σ : Type}

/-! ## Operations of the cache -/

/-- What a step does to the cache. -/
inductive Upkeep where
  | inserts (key : DecisionKey) (d : Decision)
  | tracks (key : DecisionKey)
  | evicts (key : DecisionKey)
  | detaches (scope : ScopeId)
  | invalidates (key : DecisionKey)
  | nothing

namespace Upkeep

/-- The cache after the operation. -/
def apply : Upkeep → DecisionCache → DecisionCache
  | .inserts key d, c => c.insert key d
  | .tracks key, c => c.track key
  | .evicts key, c => c.evict key
  | .detaches scope, c => c.detach scope
  | .invalidates key, c => c.invalidate key
  | .nothing, c => c

/-- The decision of a key after the operation. -/
def entry : Upkeep → DecisionKey → Option Decision → Option Decision
  | .inserts key d, key', former => if key' = key then some d else former
  | .evicts key, key', former => if key' = key then none else former
  | .invalidates key, key', former => if key' = key then none else former
  | _, _, former => former

/-- Whether a key is listed after the operation. -/
def Lists : Upkeep → DecisionKey → Prop → Prop
  | .tracks key, key', former => key' = key ∨ former
  | .evicts key, key', former => key' ≠ key ∧ former
  | .detaches scope, key', former => key'.scope ≠ scope ∧ former
  | _, _, former => former

theorem get?_apply (u : Upkeep) (c : DecisionCache) (key : DecisionKey) :
    (u.apply c).get? key = u.entry key (c.get? key) := by
  cases u with
  | inserts key' d => exact get?_insert c key' d key
  | tracks key' => exact get?_track c key' key
  | evicts key' => exact get?_evict c key' key
  | detaches scope => rfl
  | invalidates key' => exact get?_invalidate c key' key
  | nothing => rfl

theorem lists_apply (u : Upkeep) (c : DecisionCache) (key : DecisionKey) :
    (u.apply c).Lists key ↔ u.Lists key (c.Lists key) := by
  cases u with
  | inserts key' d => exact lists_insert c key' key d
  | tracks key' => exact lists_track c key' key
  | evicts key' => exact lists_evict c key' key
  | detaches scope => exact lists_detach c scope key
  | invalidates key' => exact lists_invalidate c key' key
  | nothing => rfl

theorem tidy_apply {c : DecisionCache} (u : Upkeep) (h : c.Tidy) : (u.apply c).Tidy := by
  cases u with
  | inserts key d => exact h.insert key d
  | tracks key => exact h.track key
  | evicts key => exact h.evict key
  | detaches scope => exact h.detach scope
  | invalidates key => exact h.invalidate key
  | nothing => exact h

theorem capacity_apply (u : Upkeep) (c : DecisionCache) : (u.apply c).capacity = c.capacity := by
  cases u with
  | tracks key =>
      unfold apply track
      dsimp only
      split <;> rfl
  | _ => rfl

end Upkeep

/-- What a step of the member does to the cache. -/
def Member.upkeep (m : Member σ (Option Decision)) : Upkeep :=
  match m.standing, m.program with
  | .ready, .settle key (some d) _ => .inserts key d
  | .ready, .track key _ => .tracks key
  | _, _ => .nothing

namespace Traffic

/-- What the choice does to the cache. -/
def upkeep (t : Traffic σ) : Choice σ → Upkeep
  | .go i => (t.caller? i).elim .nothing Member.upkeep
  | .evict key => if (t.entry key).isSome then .evicts key else .nothing
  | .endScope scope => .detaches scope
  | .invalidate n =>
    match t.endings[n]? with
    | some ⟨scope, contract :: _⟩ => .invalidates ⟨contract, scope⟩
    | _ => .nothing
  | _ => .nothing

variable {t : Traffic σ} {ch : Choice σ} {i : Nat} {m : Member σ (Option Decision)}
  {key : DecisionKey}

theorem upkeep_go (h : t.caller? i = some m) : t.upkeep (.go i) = m.upkeep := by
  simp only [upkeep, h, Option.elim_some]

/-- The step of a member that is ready. -/
theorem cache_afterReady (c : Crowd σ (Option Decision)) (p : Crowd.Place c.members)
    (hst : p.element.standing = .ready) :
    (c.afterReady p).session.cache = p.element.upkeep.apply c.session.cache := by
  unfold Crowd.afterReady Member.upkeep
  rw [hst]
  dsimp only
  cases p.element.program with
  | claim key k =>
      dsimp only
      split
      · rfl
      · split <;> rfl
  | settle key d q => cases d <;> rfl
  | _ => rfl

/-- A member that is called leaves the cache as it is. -/
theorem cache_afterCalled (c : Crowd σ (Option Decision)) (p : Crowd.Place c.members)
    (d : Option Decision) : (c.afterCalled p d).session.cache = c.session.cache := by
  unfold Crowd.afterCalled
  dsimp only
  split
  · split
    · rfl
    · split <;> rfl
  · rfl

theorem upkeep_of_not_ready (hst : m.standing ≠ .ready) : m.upkeep = .nothing := by
  unfold Member.upkeep
  split
  · next hready _ => exact absurd hready hst
  · next hready _ => exact absurd hready hst
  · rfl

/-- **The cache changes by the operation of the choice.** -/
theorem cache_next (t : Traffic σ) (ch : Choice σ) :
    (t.next ch).crowd.session.cache = (t.upkeep ch).apply t.crowd.session.cache := by
  cases ch with
  | go i =>
      cases hm : t.caller? i with
      | none =>
          rw [next_go_of_none hm, upkeep, hm]
          rfl
      | some m =>
          show (t.crowd.go i).session.cache = _
          rw [upkeep_go hm]
          by_cases hready : m.standing = .ready
          · obtain ⟨p, rfl, rfl, hgo⟩ := Crowd.go_of_ready hm hready
            rw [hgo, cache_afterReady t.crowd p hready]
          · rw [upkeep_of_not_ready hready]
            by_cases hcalled : ∃ n d, m.standing = .called n d
            · obtain ⟨n, d, hcalled⟩ := hcalled
              obtain ⟨p, -, -, hgo⟩ := Crowd.go_of_called hm hcalled
              rw [hgo, cache_afterCalled t.crowd p d]
              rfl
            · rw [Crowd.go_of_resting hm hready fun n d h => hcalled ⟨n, d, h⟩]
              rfl
  | evict key =>
      rw [next, upkeep]
      split <;> rfl
  | invalidate n =>
      cases hn : t.endings[n]? with
      | none => simp only [next, upkeep, hn, Upkeep.apply]
      | some e =>
          obtain ⟨scope, contracts⟩ := e
          cases contracts with
          | nil => simp only [next, upkeep, hn, Upkeep.apply]
          | cons contract rest =>
              simp only [next, upkeep, hn]
              rfl
  | _ => rfl

/-- What it takes for a choice to be the operation. -/
def Allows (t : Traffic σ) (ch : Choice σ) : Upkeep → Prop
  | .inserts key d => ∃ i m rest, ch = .go i ∧ t.caller? i = some m ∧ m.standing = .ready ∧
      m.program = .settle key (some d) rest
  | .tracks key => ∃ i m rest, ch = .go i ∧ t.caller? i = some m ∧ m.standing = .ready ∧
      m.program = .track key rest
  | .evicts key => ch = .evict key ∧ (t.entry key).isSome
  | .detaches scope => ch = .endScope scope
  | .invalidates _ => ∃ n, ch = .invalidate n
  | .nothing => True

theorem allows_upkeep (t : Traffic σ) (ch : Choice σ) : t.Allows ch (t.upkeep ch) := by
  cases ch with
  | go i =>
      cases hm : t.caller? i with
      | none =>
          rw [upkeep, hm]
          trivial
      | some m =>
          rw [upkeep_go hm, Member.upkeep]
          split
          · next hst hprog => exact ⟨i, m, _, rfl, hm, hst, hprog⟩
          · next hst hprog => exact ⟨i, m, _, rfl, hm, hst, hprog⟩
          · trivial
  | evict key =>
      rw [upkeep]
      split
      · next hsome => exact ⟨rfl, hsome⟩
      · trivial
  | endScope scope => rfl
  | invalidate n =>
      rw [upkeep]
      split
      · exact ⟨n, rfl⟩
      · trivial
  | _ => trivial

theorem allows_of_upkeep {u : Upkeep} (h : t.upkeep ch = u) : t.Allows ch u :=
  h ▸ t.allows_upkeep ch

/-! ## Ends of scopes -/

/-- The key is on the list of an end of its scope that is under way. -/
def Doomed (t : Traffic σ) (key : DecisionKey) : Prop :=
  ∃ e ∈ t.endings, e.scope = key.scope ∧ key.contract ∈ e.contracts

/-- A doomed key stays so until it is removed. -/
theorem Doomed.next (h : t.Doomed key) (hne : t.upkeep ch ≠ .invalidates key) :
    (t.next ch).Doomed key := by
  obtain ⟨e, he, hscope, hcontract⟩ := h
  cases ch with
  | endScope scope => exact ⟨e, List.mem_append_left _ he, hscope, hcontract⟩
  | evict key' =>
      rw [Traffic.next]
      split <;> exact ⟨e, he, hscope, hcontract⟩
  | invalidate n =>
      rw [Traffic.next]
      split
      · next scope contract rest hn =>
          have hkey : key ≠ ⟨contract, scope⟩ := by
            rintro rfl
            exact hne (by simp [upkeep, hn])
          obtain ⟨j, hj⟩ := List.mem_iff_getElem?.1 he
          by_cases hjn : n = j
          · subst hjn
            obtain rfl : e = ⟨scope, contract :: rest⟩ := Option.some.inj (hj.symm.trans hn)
            have hne : key.contract ≠ contract := fun h => hkey (key_eq_iff.2 ⟨hscope.symm, h⟩)
            refine ⟨⟨scope, rest⟩, List.mem_iff_getElem?.2 ⟨n, ?_⟩, hscope, ?_⟩
            · exact List.getElem?_set_self (List.getElem?_eq_some_iff.1 hn).1
            · exact (List.mem_cons.1 hcontract).resolve_left hne
          · refine ⟨e, List.mem_iff_getElem?.2 ⟨j, ?_⟩, hscope, hcontract⟩
            exact (List.getElem?_set_ne hjn).trans hj
      · exact ⟨e, he, hscope, hcontract⟩
  | _ => exact ⟨e, he, hscope, hcontract⟩

/-- A listed key is doomed when its scope is taken out of the index. -/
theorem doomed_of_detaches (h : t.upkeep ch = .detaches key.scope)
    (hlists : t.crowd.session.cache.Lists key) : (t.next ch).Doomed key := by
  obtain rfl : ch = .endScope key.scope := allows_of_upkeep h
  exact ⟨_, List.mem_append_right _ List.mem_cons_self, rfl, hlists⟩

/-- A key that an end of its scope removes is doomed. -/
theorem doomed_of_invalidates (h : t.upkeep ch = .invalidates key) : t.Doomed key := by
  obtain ⟨n, rfl⟩ := allows_of_upkeep h
  rw [upkeep] at h
  split at h
  · next scope contract rest hn =>
      obtain rfl : ⟨contract, scope⟩ = key := Upkeep.invalidates.inj h
      exact ⟨_, List.mem_of_getElem? hn, rfl, List.mem_cons_self⟩
  · cases h

/-- A doomed key was so before, unless it has just been taken off the index with its scope. -/
theorem doomed_of_next (h : (t.next ch).Doomed key) :
    t.Doomed key ∨ ch = .endScope key.scope ∧ t.crowd.session.cache.Lists key := by
  obtain ⟨e, he, hscope, hcontract⟩ := h
  cases ch with
  | endScope scope =>
      obtain he | he := List.mem_append.1 he
      · exact .inl ⟨e, he, hscope, hcontract⟩
      · obtain rfl := List.mem_singleton.1 he
        obtain rfl : scope = key.scope := hscope
        exact .inr ⟨rfl, hcontract⟩
  | evict key' =>
      rw [next] at he
      split at he <;> exact .inl ⟨e, he, hscope, hcontract⟩
  | invalidate n =>
      left
      rw [next] at he
      split at he
      · next scope contract rest hn =>
          obtain he | rfl := List.mem_or_eq_of_mem_set he
          · exact ⟨e, he, hscope, hcontract⟩
          · exact ⟨_, List.mem_of_getElem? hn, hscope, List.mem_cons_of_mem _ hcontract⟩
      · exact ⟨e, he, hscope, hcontract⟩
  | _ => exact .inl ⟨e, he, hscope, hcontract⟩

end Traffic

namespace Interleaving

variable (H : Interleaving σ)

/-! ## One moment to the next -/

/-- The cache at the moment. -/
def cache (n : Nat) : DecisionCache :=
  (H.traffic n).crowd.session.cache

/-- What is done to the cache at the moment. -/
def upkeep (n : Nat) : Upkeep :=
  (H.traffic n).upkeep (H.choices n)

/-- The index lists the key at the moment. -/
def Listed (key : DecisionKey) (n : Nat) : Prop :=
  (H.cache n).Lists key

/-- At the moment the key is taken off the index: its decision is dropped, or its scope ends. -/
def Unlists (key : DecisionKey) (n : Nat) : Prop :=
  H.upkeep n = .evicts key ∨ H.choices n = .endScope key.scope

/-- At the moment an end of the scope of the key has yet to remove its decision. -/
def Doomed (key : DecisionKey) (n : Nat) : Prop :=
  (H.traffic n).Doomed key

/-- At the moment an end of the scope has decisions to remove. -/
def Ending (scope : ScopeId) (n : Nat) : Prop :=
  ∃ e ∈ (H.traffic n).endings, e.scope = scope ∧ e.contracts ≠ []

theorem cache_succ (n : Nat) : H.cache (n + 1) = (H.upkeep n).apply (H.cache n) :=
  (H.traffic n).cache_next (H.choices n)

theorem entry_succ_eq (key : DecisionKey) (n : Nat) :
    H.entry key (n + 1) = (H.upkeep n).entry key (H.entry key n) := by
  show (H.cache (n + 1)).get? key = _
  rw [cache_succ, Upkeep.get?_apply]
  rfl

theorem listed_succ (key : DecisionKey) (n : Nat) :
    H.Listed key (n + 1) ↔ (H.upkeep n).Lists key (H.Listed key n) := by
  unfold Listed
  rw [cache_succ, Upkeep.lists_apply]

theorem not_listed_zero (key : DecisionKey) : ¬ H.Listed key 0 :=
  not_lists_empty H.capacity key

theorem tidy (n : Nat) : (H.cache n).Tidy := by
  induction n with
  | zero => exact tidy_empty H.capacity
  | succ n ih =>
      rw [cache_succ]
      exact Upkeep.tidy_apply _ ih

theorem capacity_cache (n : Nat) : (H.cache n).capacity = H.capacity := by
  induction n with
  | zero => rfl
  | succ n ih => rw [cache_succ, Upkeep.capacity_apply, ih]

variable {H} {i l n : Nat} {key : DecisionKey} {resolve : Work σ Decision} {d : Decision}

/-- Insertions are what callers do. -/
theorem exists_inserts_of_upkeep (h : H.upkeep n = .inserts key d) :
    ∃ i, H.event n = .inserts i key d := by
  obtain ⟨i, m, rest, hch, hm, hst, hprog⟩ := Traffic.allows_of_upkeep h
  refine ⟨i, ?_⟩
  unfold event
  rw [hch, Traffic.occurrence_go hm]
  simp only [Traffic.stepOf, hst, hprog]

/-- An entry was inserted by the last operation, or it was there and was left where it is. -/
theorem inserts_or_kept (h : H.entry key (n + 1) = some d) :
    H.upkeep n = .inserts key d ∨ H.entry key n = some d ∧
      H.upkeep n ≠ .evicts key ∧ H.upkeep n ≠ .invalidates key := by
  rw [entry_succ_eq] at h
  cases hu : H.upkeep n with
  | inserts key' d' =>
      rw [hu] at h
      by_cases hk : key = key'
      · subst hk
        exact .inl (congrArg (Upkeep.inserts key) (Option.some.inj ((if_pos rfl).symm.trans h)))
      · exact .inr ⟨(if_neg hk).symm.trans h, nofun, nofun⟩
  | evicts key' =>
      rw [hu] at h
      by_cases hk : key = key'
      · cases (if_pos hk).symm.trans h
      · exact .inr ⟨(if_neg hk).symm.trans h, by simpa using Ne.symm hk, nofun⟩
  | invalidates key' =>
      rw [hu] at h
      by_cases hk : key = key'
      · cases (if_pos hk).symm.trans h
      · exact .inr ⟨(if_neg hk).symm.trans h, nofun, by simpa using Ne.symm hk⟩
  | _ =>
      rw [hu] at h
      exact .inr ⟨h, nofun, nofun⟩

/-- A decision is gone because it was dropped or because its scope ends. -/
theorem evicts_or_invalidates (h : H.entry key n = some d) (hgone : H.entry key (n + 1) = none) :
    H.upkeep n = .evicts key ∨ H.upkeep n = .invalidates key := by
  rw [entry_succ_eq, h] at hgone
  cases hu : H.upkeep n with
  | inserts key' d' =>
      rw [hu] at hgone
      by_cases hk : key = key'
      · cases (if_pos hk).symm.trans hgone
      · cases (if_neg hk).symm.trans hgone
  | evicts key' =>
      rw [hu] at hgone
      by_cases hk : key = key'
      · exact .inl (by rw [hk])
      · cases (if_neg hk).symm.trans hgone
  | invalidates key' =>
      rw [hu] at hgone
      by_cases hk : key = key'
      · exact .inr (by rw [hk])
      · cases (if_neg hk).symm.trans hgone
  | _ =>
      rw [hu] at hgone
      cases hgone

/-- A listed key was listed by the last operation, or it was listed before. -/
theorem tracks_or_listed (h : H.Listed key (n + 1)) :
    H.upkeep n = .tracks key ∨ H.Listed key n := by
  rw [listed_succ] at h
  cases hu : H.upkeep n with
  | tracks key' =>
      rw [hu] at h
      obtain rfl | h := h
      · exact .inl rfl
      · exact .inr h
  | evicts key' =>
      rw [hu] at h
      exact .inr h.2
  | detaches scope =>
      rw [hu] at h
      exact .inr h.2
  | _ =>
      rw [hu] at h
      exact .inr h

/-- A listed key stays so, unless its decision is dropped or its scope is taken out of the index. -/
theorem Listed.succ (h : H.Listed key n) (hevicts : H.upkeep n ≠ .evicts key)
    (hdetaches : H.upkeep n ≠ .detaches key.scope) : H.Listed key (n + 1) := by
  rw [listed_succ]
  cases hu : H.upkeep n with
  | tracks key' => exact .inr h
  | evicts key' =>
      refine ⟨?_, h⟩
      rintro rfl
      exact hevicts hu
  | detaches scope =>
      refine ⟨?_, h⟩
      rintro rfl
      exact hdetaches hu
  | _ => exact h

theorem listed_of_tracks (h : H.upkeep n = .tracks key) : H.Listed key (n + 1) := by
  rw [listed_succ, h]
  exact .inl rfl

theorem not_listed_of_evicts (h : H.upkeep n = .evicts key) : ¬ H.Listed key (n + 1) := by
  rw [listed_succ, h]
  exact fun hlisted => hlisted.1 rfl

theorem not_listed_of_detaches (h : H.upkeep n = .detaches key.scope) :
    ¬ H.Listed key (n + 1) := by
  rw [listed_succ, h]
  exact fun hlisted => hlisted.1 rfl

theorem upkeep_of_endScope {scope : ScopeId} (h : H.choices n = .endScope scope) :
    H.upkeep n = .detaches scope := by
  unfold upkeep
  rw [h]
  rfl

theorem not_listed_of_unlists (h : H.Unlists key n) : ¬ H.Listed key (n + 1) :=
  h.elim not_listed_of_evicts fun hend => not_listed_of_detaches (upkeep_of_endScope hend)

/-- A listed key stays so until it is unlisted. -/
theorem Listed.of_le {a b : Nat} (h : H.Listed key a) (hab : a ≤ b)
    (hkept : ∀ k, a ≤ k → k < b → ¬ H.Unlists key k) : H.Listed key b := by
  induction hab with
  | refl => exact h
  | @step b hle ih =>
      have hlisted := ih fun k hk hk' => hkept k hk (Nat.lt_succ_of_lt hk')
      have hb := hkept b hle (Nat.lt_succ_self b)
      exact hlisted.succ (fun hevicts => hb (.inl hevicts))
        fun hdetaches => hb (.inr (Traffic.allows_of_upkeep hdetaches))

/-- A key that has come to be listed was tracked, and has not been unlisted since. -/
theorem exists_last_tracks {a b : Nat} (hnot : ¬ H.Listed key a) (hab : a ≤ b)
    (hlisted : H.Listed key b) : ∃ t, a ≤ t ∧ t < b ∧ H.upkeep t = .tracks key ∧
      ∀ k, t < k → k < b → ¬ H.Unlists key k := by
  induction hab with
  | refl => exact absurd hlisted hnot
  | @step b hle ih =>
      obtain htracks | hbefore := tracks_or_listed hlisted
      · exact ⟨b, hle, Nat.lt_succ_self b, htracks, fun k hk hk' => by omega⟩
      · obtain ⟨t, hat, htb, htracks, hkept⟩ := ih hbefore
        refine ⟨t, hat, Nat.lt_succ_of_lt htb, htracks, fun k hk hk' => ?_⟩
        obtain hlt | rfl := Nat.lt_succ_iff_lt_or_eq.1 hk'
        · exact hkept k hk hlt
        · exact fun hunlists => not_listed_of_unlists hunlists hlisted

theorem Doomed.succ (h : H.Doomed key n) (hne : H.upkeep n ≠ .invalidates key) :
    H.Doomed key (n + 1) :=
  Traffic.Doomed.next h hne

theorem doomed_of_detaches (h : H.upkeep n = .detaches key.scope) (hlisted : H.Listed key n) :
    H.Doomed key (n + 1) :=
  Traffic.doomed_of_detaches h hlisted

/-- A doomed key was taken off the index with its scope. -/
theorem Doomed.exists_endScope (h : H.Doomed key n) :
    ∃ b < n, H.choices b = .endScope key.scope ∧ H.Listed key b := by
  induction n with
  | zero =>
      obtain ⟨e, he, -, -⟩ := h
      cases he
  | succ n ih =>
      obtain hbefore | ⟨hend, hlisted⟩ := Traffic.doomed_of_next h
      · obtain ⟨b, hb, hends⟩ := ih hbefore
        exact ⟨b, Nat.lt_succ_of_lt hb, hends⟩
      · exact ⟨n, Nat.lt_succ_self n, hend, hlisted⟩

/-- What the end of a scope removes was listed when it began. -/
theorem exists_endScope_of_invalidates (h : H.upkeep n = .invalidates key) :
    ∃ b < n, H.choices b = .endScope key.scope ∧ H.Listed key b :=
  Doomed.exists_endScope (Traffic.doomed_of_invalidates h)

theorem Doomed.ending (h : H.Doomed key n) : H.Ending key.scope n := by
  obtain ⟨e, he, hscope, hcontract⟩ := h
  exact ⟨e, he, hscope, List.ne_nil_of_mem hcontract⟩

end Interleaving

end TrialRouting
