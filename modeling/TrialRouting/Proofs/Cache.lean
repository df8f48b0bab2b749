import TrialRouting.Cache
import TrialRouting.Proofs.Register

/-!
# TrialRouting.Proofs.Cache

The decisions of the cache as a map.  `get?` is the view; every operation has
one lemma that says what it does to the view:

* `get?_insert` — the key has the new decision, the other keys keep theirs;
* `get?_invalidate`, `get?_evict` — the key has none, the others keep theirs;
* `get?_track`, `get?_detach` — nothing: the index is no part of the view;
* `get?_endScope` — the listed contracts of the scope have none any more.
-/

namespace TrialRouting.DecisionCache

variable {c : DecisionCache}

/-! ## The view of the entries -/

@[simp] theorem get?_empty (capacity : Nat) (key : DecisionKey) :
    (empty capacity).get? key = none := rfl

/-! ## Decisions -/

theorem get?_invalidate (c : DecisionCache) (key key' : DecisionKey) :
    (c.invalidate key).get? key' = if key' = key then none else c.get? key' := by
  unfold get? invalidate
  rw [Register.find?_filter_ne]
  split <;> rfl

theorem get?_insert (c : DecisionCache) (key : DecisionKey) (d : Decision) (key' : DecisionKey) :
    (c.insert key d).get? key' = if key' = key then some d else c.get? key' := by
  unfold get? insert
  rw [List.find?_append, Register.find?_filter_ne]
  by_cases hk : key' = key
  · simp [hk]
  · have hne : (key == key') = false := by simpa using fun h => hk h.symm
    simp [hk, hne]

/-- After a claim is settled, with a decision or without, a decision is kept that was kept before, or
this one. -/
theorem get?_settle {key key' : DecisionKey} {d : Option Decision} {kept : Decision}
    (h : ((d.map (c.insert key)).getD c).get? key' = some kept) :
    c.get? key' = some kept ∨ key = key' ∧ d = some kept := by
  cases d with
  | none => exact .inl h
  | some d =>
      have h : (c.insert key d).get? key' = some kept := h
      rw [get?_insert] at h
      split at h
      · next hkey => exact .inr ⟨hkey.symm, h⟩
      · exact .inl h

/-! ## The index -/

@[simp] theorem get?_setContracts (c : DecisionCache) (scope : ScopeId)
    (contracts : List ContractId) (key : DecisionKey) :
    (c.setContracts scope contracts).get? key = c.get? key := rfl

@[simp] theorem get?_track (c : DecisionCache) (key key' : DecisionKey) :
    (c.track key).get? key' = c.get? key' := by
  unfold track
  dsimp only
  split <;> rfl

@[simp] theorem get?_detach (c : DecisionCache) (scope : ScopeId) (key : DecisionKey) :
    (c.detach scope).get? key = c.get? key := rfl

theorem get?_evict (c : DecisionCache) (key key' : DecisionKey) :
    (c.evict key).get? key' = if key' = key then none else c.get? key' := by
  unfold evict
  rw [get?_setContracts, get?_invalidate]

/-! ## Ending a scope -/

theorem get?_invalidateAll (c : DecisionCache) (scope : ScopeId) (contracts : List ContractId)
    (key : DecisionKey) :
    (c.invalidateAll scope contracts).get? key =
      if key.scope = scope ∧ key.contract ∈ contracts then none else c.get? key := by
  induction contracts generalizing c with
  | nil => simp [invalidateAll]
  | cons contract rest ih =>
      have hcons : c.invalidateAll scope (contract :: rest) =
          (c.invalidate ⟨contract, scope⟩).invalidateAll scope rest := rfl
      have hkey : key = ⟨contract, scope⟩ ↔ key.scope = scope ∧ key.contract = contract := by
        obtain ⟨keyContract, keyScope⟩ := key
        simp [and_comm]
      rw [hcons, ih, get?_invalidate]
      by_cases hs : key.scope = scope
      · by_cases hc : key.contract = contract
        · simp [hs, hc, hkey]
        · simp [hs, hc, hkey]
      · simp [hs, hkey]

theorem get?_endScope (c : DecisionCache) (scope : ScopeId) (key : DecisionKey) :
    (c.endScope scope).get? key =
      if key.scope = scope ∧ key.contract ∈ c.contracts scope then none else c.get? key := by
  unfold endScope
  rw [get?_invalidateAll, get?_detach]

end TrialRouting.DecisionCache
