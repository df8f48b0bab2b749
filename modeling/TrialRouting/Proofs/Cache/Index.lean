import Mathlib.Data.List.Dedup
import Mathlib.Data.List.Perm.Subperm
import TrialRouting.Proofs.Cache

/-!
# TrialRouting.Proofs.Cache.Index

The index of the cache as a set of keys.  `Lists` is the view; every operation
has one lemma that says what it does to the view:

* `lists_track` — the key is listed, the others are as before;
* `lists_detach` — no key of the scope is listed, the others are as before;
* `lists_evict` — the key is not listed, the others are as before;
* `lists_insert`, `lists_invalidate` — nothing: the decisions are no part of
  the view.

An index is `Tidy` if it has one list for a scope, each contract once in it, and
no list for no contracts.  A tidy index is larger than the cache by no more than
the keys that it lists without a decision, its `phantoms`
(`length_listing_le`, `scopeCount_le`).  Maintenance makes no phantoms
(`length_phantoms_maintain_le`), and leaves no more decisions than the cache is to
hold (`entryCount_maintain_le`).
-/

namespace TrialRouting.DecisionCache

variable {c : DecisionCache}

/-! ## The lists of the index -/

theorem contracts_setContracts (c : DecisionCache) (scope scope' : ScopeId)
    (contracts : List ContractId) :
    (c.setContracts scope contracts).contracts scope' =
      if scope' = scope then contracts else c.contracts scope' :=
  Register.lookup_replace c.index scope scope' contracts

/-! ## The view of the index -/

/-- The index lists the contract of the key under its scope. -/
def Lists (c : DecisionCache) (key : DecisionKey) : Prop :=
  key.contract ∈ c.contracts key.scope

theorem not_lists_empty (capacity : Nat) (key : DecisionKey) : ¬ (empty capacity).Lists key :=
  List.not_mem_nil

@[simp] theorem lists_insert (c : DecisionCache) (key key' : DecisionKey) (d : Decision) :
    (c.insert key d).Lists key' ↔ c.Lists key' := Iff.rfl

@[simp] theorem lists_invalidate (c : DecisionCache) (key key' : DecisionKey) :
    (c.invalidate key).Lists key' ↔ c.Lists key' := Iff.rfl

theorem lists_setContracts (c : DecisionCache) (scope : ScopeId) (contracts : List ContractId)
    (key : DecisionKey) :
    (c.setContracts scope contracts).Lists key ↔
      if key.scope = scope then key.contract ∈ contracts else c.Lists key := by
  unfold Lists
  rw [contracts_setContracts]
  split <;> rfl

theorem key_eq_iff {key key' : DecisionKey} :
    key' = key ↔ key'.scope = key.scope ∧ key'.contract = key.contract := by
  obtain ⟨contract, scope⟩ := key
  obtain ⟨contract', scope'⟩ := key'
  simp [and_comm]

theorem lists_track (c : DecisionCache) (key key' : DecisionKey) :
    (c.track key).Lists key' ↔ key' = key ∨ c.Lists key' := by
  unfold track
  dsimp only
  split
  · next hlisted =>
      have hlisted : c.Lists key := by simpa [Lists] using hlisted
      constructor
      · exact .inr
      · rintro (rfl | h)
        · exact hlisted
        · exact h
  · rw [lists_setContracts, key_eq_iff]
    by_cases hs : key'.scope = key.scope
    · simp [hs, Lists, or_comm]
    · simp [hs]

theorem lists_detach (c : DecisionCache) (scope : ScopeId) (key : DecisionKey) :
    (c.detach scope).Lists key ↔ key.scope ≠ scope ∧ c.Lists key := by
  unfold detach
  rw [lists_setContracts]
  by_cases hs : key.scope = scope
  · simp [hs]
  · simp [hs]

theorem lists_evict (c : DecisionCache) (key key' : DecisionKey) :
    (c.evict key).Lists key' ↔ key' ≠ key ∧ c.Lists key' := by
  unfold evict
  rw [lists_setContracts, lists_invalidate, ne_eq, key_eq_iff]
  by_cases hs : key'.scope = key.scope
  · simp [hs, Lists, and_comm]
  · simp [hs]

/-! ## Tidy indexes -/

/-- A scope has one list, which has a contract once, and no list is kept for no contracts. -/
structure Tidy (c : DecisionCache) : Prop where
  nodup : (c.index.map (·.1)).Nodup
  distinct : ∀ e ∈ c.index, e.2.Nodup
  nonempty : ∀ e ∈ c.index, e.2 ≠ []

theorem tidy_empty (capacity : Nat) : (empty capacity).Tidy :=
  ⟨List.nodup_nil, fun _ he => absurd he List.not_mem_nil, fun _ he => absurd he List.not_mem_nil⟩

theorem Tidy.register (h : c.Tidy) : Register.Tidy c.index :=
  ⟨h.nodup, h.distinct, h.nonempty⟩

theorem Tidy.nodup_contracts (h : c.Tidy) (scope : ScopeId) : (c.contracts scope).Nodup :=
  h.register.nodup_lookup scope

theorem Tidy.insert (h : c.Tidy) (key : DecisionKey) (d : Decision) : (c.insert key d).Tidy :=
  ⟨h.nodup, h.distinct, h.nonempty⟩

theorem Tidy.invalidate (h : c.Tidy) (key : DecisionKey) : (c.invalidate key).Tidy :=
  ⟨h.nodup, h.distinct, h.nonempty⟩

theorem Tidy.setContracts (h : c.Tidy) (scope : ScopeId) {contracts : List ContractId}
    (hcontracts : contracts.Nodup) : (c.setContracts scope contracts).Tidy :=
  have hreplaced := h.register.replace scope hcontracts
  ⟨hreplaced.nodup, hreplaced.distinct, hreplaced.nonempty⟩

theorem Tidy.track (h : c.Tidy) (key : DecisionKey) : (c.track key).Tidy := by
  unfold DecisionCache.track
  dsimp only
  split
  · exact h
  · next hlisted =>
      have hfresh : key.contract ∉ c.contracts key.scope := by simpa using hlisted
      refine h.setContracts _ ((h.nodup_contracts _).append (List.nodup_singleton _) ?_)
      exact List.disjoint_singleton.2 hfresh

theorem Tidy.detach (h : c.Tidy) (scope : ScopeId) : (c.detach scope).Tidy :=
  h.setContracts scope List.nodup_nil

theorem Tidy.evict (h : c.Tidy) (key : DecisionKey) : (c.evict key).Tidy :=
  (h.invalidate key).setContracts _ ((h.nodup_contracts _).filter _)

/-- What is listed for a scope of a tidy index is found there. -/
theorem Tidy.contracts_of_mem (h : c.Tidy) {e : ScopeId × List ContractId} (he : e ∈ c.index) :
    c.contracts e.1 = e.2 :=
  h.register.lookup_of_mem he

/-! ## The size of the index -/

/-- The keys that the index lists. -/
def listing (c : DecisionCache) : List DecisionKey :=
  c.index.flatMap fun e => e.2.map fun contract => ⟨contract, e.1⟩

/-- The listed keys that have no decision. -/
def phantoms (c : DecisionCache) : List DecisionKey :=
  c.listing.filter fun key => (c.get? key).isNone

/-- The scopes in which some decision is kept, each once. -/
def openScopes (c : DecisionCache) : List ScopeId :=
  (c.entries.map (·.1.scope)).dedup

theorem Tidy.mem_listing (h : c.Tidy) {key : DecisionKey} : key ∈ c.listing ↔ c.Lists key := by
  constructor
  · intro hkey
    obtain ⟨e, he, hkey⟩ := List.mem_flatMap.1 hkey
    obtain ⟨contract, hcontract, rfl⟩ := List.mem_map.1 hkey
    show contract ∈ c.contracts e.1
    rwa [h.contracts_of_mem he]
  · intro hlists
    have hmem : (key.scope, c.contracts key.scope) ∈ c.index :=
      h.register.mem_iff.2 ⟨List.ne_nil_of_mem hlists, rfl⟩
    exact List.mem_flatMap.2 ⟨_, hmem, List.mem_map.2 ⟨key.contract, hlists, rfl⟩⟩

theorem Tidy.mem_phantoms (h : c.Tidy) {key : DecisionKey} :
    key ∈ c.phantoms ↔ c.Lists key ∧ c.get? key = none := by
  rw [phantoms, List.mem_filter, h.mem_listing, Option.isNone_iff_eq_none]

theorem Tidy.nodup_listing (h : c.Tidy) : c.listing.Nodup := by
  refine List.nodup_flatMap.2 ⟨fun e he => ?_, ?_⟩
  · refine (h.distinct e he).map fun contract contract' heq => ?_
    exact congrArg DecisionKey.contract heq
  · refine (List.pairwise_map.1 h.nodup).imp fun hne key hkey hkey' => ?_
    obtain ⟨contract, -, rfl⟩ := List.mem_map.1 hkey
    obtain ⟨contract', -, heq⟩ := List.mem_map.1 hkey'
    exact hne (congrArg DecisionKey.scope heq).symm

theorem mem_keys_of_get? {key : DecisionKey} (h : (c.get? key).isSome) :
    key ∈ c.entries.map (·.1) := by
  obtain ⟨e, he⟩ := Option.isSome_iff_exists.1 (Option.isSome_map ▸ h)
  have hkey : e.1 = key := by simpa using List.find?_some he
  exact List.mem_map.2 ⟨e, List.mem_of_find?_eq_some he, hkey⟩

/-- The listed keys that have a decision are no more than the decisions. -/
theorem length_listing_le (h : c.Tidy) :
    c.listing.length ≤ c.entryCount + c.phantoms.length := by
  have hsub : c.listing ⊆ c.entries.map (·.1) ++ c.phantoms := by
    intro key hkey
    cases hget : c.get? key with
    | none => exact List.mem_append_right _ (h.mem_phantoms.2 ⟨h.mem_listing.1 hkey, hget⟩)
    | some d => exact List.mem_append_left _ (mem_keys_of_get? (Option.isSome_of_eq_some hget))
  simpa [entryCount] using (List.subperm_of_subset h.nodup_listing hsub).length_le

/-- A listed scope is that of a decision or that of a phantom. -/
theorem scopeCount_le (h : c.Tidy) : c.scopeCount ≤ c.openScopes.length + c.phantoms.length := by
  have hsub : c.index.map (·.1) ⊆ c.openScopes ++ c.phantoms.map DecisionKey.scope := by
    intro scope hscope
    obtain ⟨e, he, rfl⟩ := List.mem_map.1 hscope
    obtain ⟨contract, hcontract⟩ := List.exists_mem_of_ne_nil _ (h.nonempty e he)
    have hlists : c.Lists ⟨contract, e.1⟩ := by
      show contract ∈ c.contracts e.1
      rwa [h.contracts_of_mem he]
    cases hget : c.get? ⟨contract, e.1⟩ with
    | none =>
        have hphantom := h.mem_phantoms.2 ⟨hlists, hget⟩
        exact List.mem_append_right _ (List.mem_map.2 ⟨_, hphantom, rfl⟩)
    | some d =>
        obtain ⟨e', he', heq⟩ := List.mem_map.1 (mem_keys_of_get? (Option.isSome_of_eq_some hget))
        have hopen : e.1 ∈ c.entries.map (·.1.scope) :=
          List.mem_map.2 ⟨e', he', congrArg DecisionKey.scope heq⟩
        exact List.mem_append_left _ (List.mem_dedup.2 hopen)
  simpa [scopeCount] using (List.subperm_of_subset h.nodup hsub).length_le

theorem length_openScopes_le (c : DecisionCache) : c.openScopes.length ≤ c.entryCount := by
  simpa [openScopes, entryCount] using
    (List.dedup_sublist (c.entries.map (·.1.scope))).length_le

/-! ## Maintenance -/

theorem Tidy.maintain (h : c.Tidy) : c.maintain.Tidy :=
  List.foldlRecOn _ DecisionCache.evict h fun _ h key _ => h.evict key

theorem Tidy.phantoms_evict_subset (h : c.Tidy) (key : DecisionKey) :
    (c.evict key).phantoms ⊆ c.phantoms := by
  intro key' hphantom
  obtain ⟨hlists, hget⟩ := (h.evict key).mem_phantoms.1 hphantom
  obtain ⟨hne, hlists⟩ := (lists_evict c key key').1 hlists
  rw [get?_evict, if_neg hne] at hget
  exact h.mem_phantoms.2 ⟨hlists, hget⟩

theorem Tidy.phantoms_maintain_subset (h : c.Tidy) : c.maintain.phantoms ⊆ c.phantoms :=
  (List.foldlRecOn (motive := fun c' => c'.Tidy ∧ c'.phantoms ⊆ c.phantoms) _
    DecisionCache.evict ⟨h, List.Subset.refl _⟩ fun _ h' key _ =>
      ⟨h'.1.evict key, List.Subset.trans (h'.1.phantoms_evict_subset key) h'.2⟩).2

/-- A decision that is dropped leaves no phantom. -/
theorem length_phantoms_maintain_le (h : c.Tidy) :
    c.maintain.phantoms.length ≤ c.phantoms.length :=
  (List.subperm_of_subset (h.maintain.nodup_listing.filter _)
    h.phantoms_maintain_subset).length_le

/-- What is left when several decisions are dropped one after the other. -/
theorem entries_foldl_evict (c : DecisionCache) (keys : List DecisionKey) :
    (keys.foldl DecisionCache.evict c).entries = c.entries.filter (·.1 ∉ keys) := by
  induction keys generalizing c with
  | nil => simp
  | cons key rest ih =>
      have hevict : (c.evict key).entries = c.entries.filter (·.1 != key) := rfl
      rw [List.foldl_cons, ih, hevict, List.filter_filter]
      refine List.filter_congr fun e _ => ?_
      by_cases hk : e.1 = key
      · simp [hk]
      · simp [hk]

/-- After maintenance no more decisions are kept than the cache is to hold. -/
theorem entryCount_maintain_le (c : DecisionCache) : c.maintain.entryCount ≤ c.capacity := by
  let dropped := (c.entries.drop c.capacity).map (·.1)
  have hdropped : (c.entries.drop c.capacity).filter (·.1 ∉ dropped) = [] := by
    refine List.filter_eq_nil_iff.2 fun e he => ?_
    have hmem : e.1 ∈ dropped := List.mem_map_of_mem he
    simp [hmem]
  have hkept : c.maintain.entries = (c.entries.take c.capacity).filter (·.1 ∉ dropped) := by
    have hsplit := congrArg (List.filter (·.1 ∉ dropped))
      (List.take_append_drop c.capacity c.entries)
    rw [List.filter_append, hdropped, List.append_nil] at hsplit
    exact (entries_foldl_evict c dropped).trans hsplit.symm
  calc c.maintain.entryCount
      = ((c.entries.take c.capacity).filter (·.1 ∉ dropped)).length := congrArg List.length hkept
    _ ≤ (c.entries.take c.capacity).length := List.length_filter_le _ _
    _ ≤ c.capacity := List.length_take_le _ _

end TrialRouting.DecisionCache
