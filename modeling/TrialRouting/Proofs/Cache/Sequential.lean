import Mathlib.Data.Set.Card
import TrialRouting.Proofs.Cache.Index
import TrialRouting.Proofs.Lookup

/-!
# TrialRouting.Proofs.Cache.Sequential

A cache whose users take turns.  A `Use` is a look-up that comes to its end or
is cancelled, a reading of what is kept, the end of a scope, or an eviction; it
is over before the next one begins.  What a use does to the cache (`perform`) it
does to a plain map (`onMap`), and `get?` is the map that the cache stands for.

* `InStep` — the index lists the keys of the decisions and no others; every use
  keeps it so (`InStep.perform`);
* `InStep.onMap_get?` — one use of the cache is one use of the map;
* `sequential_uses` — the main theorem.
-/

namespace TrialRouting

variable {σ α : Type}

namespace DecisionCache

variable {c : DecisionCache} {key : DecisionKey}

/-! ## What is kept -/

theorem isSome_get?_iff : (c.get? key).isSome ↔ key ∈ c.entries.map (·.1) := by
  refine ⟨mem_keys_of_get?, fun hkey => ?_⟩
  obtain ⟨e, he, rfl⟩ := List.mem_map.mp hkey
  rw [get?, Option.isSome_map, List.find?_isSome]
  exact ⟨e, he, beq_self_eq_true e.1⟩

@[simp] theorem entries_track (c : DecisionCache) (key : DecisionKey) :
    (c.track key).entries = c.entries := by
  unfold track
  dsimp only
  split <;> rfl

@[simp] theorem capacity_track (c : DecisionCache) (key : DecisionKey) :
    (c.track key).capacity = c.capacity := by
  unfold track
  dsimp only
  split <;> rfl

/-- A decision for a key that has none is kept beside the others. -/
theorem entries_insert_of_none (h : c.get? key = none) (d : Decision) :
    (c.insert key d).entries = c.entries ++ [(key, d)] := by
  have hothers : c.entries.filter (·.1 != key) = c.entries := by
    refine List.filter_eq_self.mpr fun e he => bne_iff_ne.mpr ?_
    rintro rfl
    have hkept := isSome_get?_iff.mpr (List.mem_map_of_mem he)
    rw [h] at hkept
    cases hkept
  exact congrArg (· ++ [(key, d)]) hothers

theorem index_invalidateAll (c : DecisionCache) (scope : ScopeId) (contracts : List ContractId) :
    (c.invalidateAll scope contracts).index = c.index :=
  List.foldlRecOn (motive := fun c' : DecisionCache => c'.index = c.index) contracts _ rfl
    fun _ h _ _ => h

theorem entries_invalidateAll (c : DecisionCache) (scope : ScopeId) (contracts : List ContractId) :
    (c.invalidateAll scope contracts).entries =
      c.entries.filter fun e => e.1.scope ≠ scope ∨ e.1.contract ∉ contracts := by
  induction contracts generalizing c with
  | nil => simp [invalidateAll]
  | cons contract rest ih =>
      have hcons : c.invalidateAll scope (contract :: rest) =
          (c.invalidate ⟨contract, scope⟩).invalidateAll scope rest := rfl
      rw [hcons, ih, invalidate, List.filter_filter]
      refine List.filter_congr fun e _ => ?_
      have hkey := @key_eq_iff ⟨contract, scope⟩ e.1
      rw [Bool.eq_iff_iff]
      simp only [List.mem_cons, Bool.and_eq_true, decide_eq_true_eq, bne_iff_ne]
      tauto

theorem contracts_endScope (c : DecisionCache) (scope scope' : ScopeId) :
    (c.endScope scope).contracts scope' = if scope' = scope then [] else c.contracts scope' := by
  rw [← contracts_setContracts]
  unfold contracts endScope
  rw [index_invalidateAll]
  rfl

/-- A scope that has ended has nothing more to end. -/
theorem endScope_endScope (c : DecisionCache) (scope : ScopeId) :
    (c.endScope scope).endScope scope = c.endScope scope := by
  have hnone : (c.endScope scope).contracts scope = [] := by simp [contracts_endScope]
  have hindex : (c.endScope scope).index = c.index.filter (·.1 != scope) :=
    index_invalidateAll _ _ _
  have hdetach : (c.endScope scope).detach scope =
      { c.endScope scope with index := (c.endScope scope).index.filter (·.1 != scope) } := rfl
  rw [endScope, hnone]
  show (c.endScope scope).detach scope = c.endScope scope
  rw [hdetach, hindex, List.filter_filter]
  simp [← hindex]

/-! ## Decisions and index in step -/

/-- No key has two decisions, and the index is tidy and lists the keys of the decisions. -/
structure InStep (c : DecisionCache) : Prop where
  nodup : (c.entries.map (·.1)).Nodup
  tidy : c.Tidy
  lists_iff : ∀ key, c.Lists key ↔ (c.get? key).isSome

theorem inStep_empty (capacity : Nat) : (empty capacity).InStep where
  nodup := List.nodup_nil
  tidy := tidy_empty capacity
  lists_iff := fun _ => by simp [not_lists_empty]

namespace InStep

theorem track (h : c.InStep) (hkey : (c.get? key).isSome) : (c.track key).InStep where
  nodup := by simpa using h.nodup
  tidy := h.tidy.track key
  lists_iff := fun key' => by
    rw [lists_track, get?_track, h.lists_iff]
    constructor
    · rintro (rfl | hsome)
      · exact hkey
      · exact hsome
    · exact .inr

theorem insert_track (h : c.InStep) (key : DecisionKey) (d : Decision) :
    ((c.insert key d).track key).InStep where
  nodup := by
    have hfresh : key ∉ (c.entries.filter (·.1 != key)).map (·.1) := by simp
    rw [entries_track]
    show ((c.entries.filter (·.1 != key) ++ [(key, d)]).map (·.1)).Nodup
    rw [List.map_append]
    exact (h.nodup.sublist (List.filter_sublist.map _)).append (List.nodup_singleton key)
      (List.disjoint_singleton.mpr hfresh)
  tidy := (h.tidy.insert key d).track key
  lists_iff := fun key' => by
    rw [lists_track, lists_insert, get?_track, get?_insert, h.lists_iff]
    by_cases hkey : key' = key
    · simp [hkey]
    · simp [hkey]

theorem evict (h : c.InStep) (key : DecisionKey) : (c.evict key).InStep where
  nodup := h.nodup.sublist (List.filter_sublist.map _)
  tidy := h.tidy.evict key
  lists_iff := fun key' => by
    rw [lists_evict, get?_evict, h.lists_iff]
    by_cases hkey : key' = key
    · simp [hkey]
    · simp [hkey]

/-- The end of a scope removes the decisions of the scope. -/
theorem entries_endScope (h : c.InStep) (scope : ScopeId) :
    (c.endScope scope).entries = c.entries.filter (·.1.scope != scope) := by
  show ((c.detach scope).invalidateAll scope (c.contracts scope)).entries = _
  rw [entries_invalidateAll]
  refine List.filter_congr fun e he => ?_
  -- an entry of the scope is listed, so the list names all that has to go
  have hlists : e.1.contract ∈ c.contracts e.1.scope :=
    (h.lists_iff e.1).mpr (isSome_get?_iff.mpr (List.mem_map_of_mem he))
  by_cases hscope : e.1.scope = scope
  · subst hscope
    simp [hlists]
  · simp [hscope]

theorem get?_endScope (h : c.InStep) (scope : ScopeId) (key : DecisionKey) :
    (c.endScope scope).get? key = if key.scope = scope then none else c.get? key := by
  rw [DecisionCache.get?_endScope]
  by_cases hscope : key.scope = scope
  · subst hscope
    by_cases hlists : key.contract ∈ c.contracts key.scope
    · simp [hlists]
    · have hnone : c.get? key = none := by
        simpa using mt (h.lists_iff key).mpr hlists
      simp [hlists, hnone]
  · simp [hscope]

theorem endScope (h : c.InStep) (scope : ScopeId) : (c.endScope scope).InStep where
  nodup := by
    rw [h.entries_endScope]
    exact h.nodup.sublist (List.filter_sublist.map _)
  tidy := by
    have hindex : (c.endScope scope).index = (c.detach scope).index := index_invalidateAll _ _ _
    have htidy := h.tidy.detach scope
    exact ⟨hindex ▸ htidy.nodup, hindex ▸ htidy.distinct, hindex ▸ htidy.nonempty⟩
  lists_iff := fun key => by
    rw [h.get?_endScope, Lists, contracts_endScope]
    split
    · simp
    · exact h.lists_iff key

end InStep

/-! ## Uses -/

/-- One look-up: its key and its resolver, its token, and the time and the state of the parties in which
it begins. -/
structure Look (σ : Type) where
  key : DecisionKey
  resolve : Work σ Decision
  token : Token
  clock : Nat
  state : σ

/-- What is done with a cache. -/
inductive Use (σ : Type) where
  | look (l : Look σ)
  | read (key : DecisionKey)
  | endScope (scope : ScopeId)
  | evict (key : DecisionKey)

/-- What the user of a cache gets to know: a decision if there is one, and what was noted, the selection
that began among it. -/
structure Answer where
  decision : Option Decision
  notes : List Note

/-- What is kept for a key, if anything. -/
abbrev Kept := DecisionKey → Option Decision

/-- The run of the resolver of a look-up, by itself.  It would be the same on any cache. -/
def Look.made (l : Look σ) : Run σ (Program.Guarded Decision) :=
  (Program.guarded none l.resolve).run l.token ⟨l.clock, .empty 0, l.state⟩

namespace Use

/-- A use of a cache. -/
def perform : Use σ → DecisionCache → Answer × DecisionCache
  | .look l, c =>
    let r := (getOrResolve l.key l.resolve).run l.token ⟨l.clock, c, l.state⟩
    (⟨r.value, r.notes⟩, r.session.cache)
  | .read key, c => (⟨c.get? key, []⟩, c)
  | .endScope scope, c => (⟨none, []⟩, c.endScope scope)
  | .evict key, c => (⟨none, []⟩, if (c.get? key).isSome then c.evict key else c)

/-- The same use of a plain map. -/
def onMap : Use σ → Kept → Answer × Kept
  | .look l, m =>
    if l.token.cancelled then (⟨none, []⟩, m)
    else match m l.key with
      | some d => (⟨some d, []⟩, m)
      | none =>
        let notes := .selecting l.key :: l.made.notes
        match l.made.value with
        | .finished d => (⟨some d, notes⟩, Function.update m l.key (some d))
        | _ => (⟨none, notes⟩, m)
  | .read key, m => (⟨m key, []⟩, m)
  | .endScope scope, m => (⟨none, []⟩, fun key => if key.scope = scope then none else m key)
  | .evict key, m => (⟨none, []⟩, Function.update m key none)

/-- One use after another: all answers, and what is left. -/
def trace {S : Type} (step : Use σ → S → Answer × S) : List (Use σ) → S → List Answer × S
  | [], s => ([], s)
  | u :: us, s => ((step u s).1 :: (trace step us (step u s).2).1, (trace step us (step u s).2).2)

end Use

/-- The run of a resolver has nothing to do with what is kept. -/
theorem Look.run_guarded (l : Look σ) (c : DecisionCache) :
    (Program.guarded none l.resolve).run l.token ⟨l.clock, c, l.state⟩ =
      { l.made with session := { l.made.session with cache := c } } :=
  Program.run_of_plain (Program.plain_guarded Note.inward_remark none l.resolve) l.token
    ⟨l.clock, .empty 0, l.state⟩ c

/-- What a look-up does to the cache. -/
theorem perform_look (l : Look σ) (c : DecisionCache) :
    (Use.look l).perform c =
      if l.token.cancelled then (⟨none, []⟩, c)
      else match c.get? l.key with
        | some d => (⟨some d, []⟩, c.track l.key)
        | none =>
          match l.made.value with
          | .finished d =>
            (⟨some d, .selecting l.key :: l.made.notes⟩, (c.insert l.key d).track l.key)
          | _ => (⟨none, .selecting l.key :: l.made.notes⟩, c) := by
  rw [Use.perform]
  cases hc : l.token.cancelled with
  | true => rw [run_getOrResolve_of_cancelled hc, if_pos rfl]
  | false =>
      rw [if_neg Bool.false_ne_true]
      cases hd : c.get? l.key with
      | some d => rw [run_getOrResolve_of_hit hc hd]
      | none =>
          rw [run_getOrResolve_of_miss hc hd]
          dsimp only
          rw [l.run_guarded, run_conclude]
          cases l.made.value <;> simp

theorem InStep.perform (h : c.InStep) (u : Use σ) : (u.perform c).2.InStep := by
  cases u with
  | look l =>
      rw [perform_look]
      split
      · exact h
      · split
        · next d hd => exact h.track (Option.isSome_of_eq_some hd)
        · split
          · next d _ => exact h.insert_track l.key d
          · exact h
  | read key => exact h
  | endScope scope => exact h.endScope scope
  | evict key =>
      rw [Use.perform]
      split
      · exact h.evict key
      · exact h

/-- **One use of the cache is one use of the map** that the cache stands for. -/
theorem InStep.onMap_get? (h : c.InStep) (u : Use σ) :
    u.onMap c.get? = ((u.perform c).1, (u.perform c).2.get?) := by
  cases u with
  | look l =>
      rw [perform_look, Use.onMap]
      split
      · rfl
      · split
        · next d hd =>
            rw [funext (get?_track c l.key)]
        · next hnone =>
            dsimp only
            split
            · next d hd =>
                refine Prod.ext rfl (funext fun key => ?_)
                simp [Function.update_apply, get?_insert]
            · rfl
  | read key => rfl
  | endScope scope => exact Prod.ext rfl (funext fun key => (h.get?_endScope scope key).symm)
  | evict key =>
      -- where nothing is kept the cache drops nothing, and the map has nothing to forget
      refine Prod.ext rfl (funext fun key' => ?_)
      rw [Use.perform, Use.onMap]
      by_cases hkey : (c.get? key).isSome
      · simp [hkey, get?_evict, Function.update_apply]
      · simp only [Option.isSome_iff_ne_none, ne_eq, not_not] at hkey
        by_cases heq : key' = key
        · simp [heq, hkey]
        · simp [heq, hkey]

theorem InStep.trace (h : c.InStep) (us : List (Use σ)) : (Use.trace Use.perform us c).2.InStep := by
  induction us generalizing c with
  | nil => exact h
  | cons u us ih => exact ih (h.perform u)

/-- Uses of the cache one after another are uses of the map. -/
theorem InStep.trace_onMap_get? (h : c.InStep) (us : List (Use σ)) :
    Use.trace Use.onMap us c.get? =
      ((Use.trace Use.perform us c).1, (Use.trace Use.perform us c).2.get?) := by
  induction us generalizing c with
  | nil => rfl
  | cons u us ih =>
      rw [Use.trace, Use.trace, h.onMap_get? u]
      dsimp only
      rw [ih (h.perform u)]

/-! ## Maintenance -/

/-- What is dropped one after the other is evicted one after the other. -/
theorem trace_evictions {keys : List DecisionKey} (hnodup : keys.Nodup)
    (hkept : ∀ key ∈ keys, (c.get? key).isSome) :
    (Use.trace Use.perform (keys.map (.evict : DecisionKey → Use σ)) c).2 =
      keys.foldl DecisionCache.evict c := by
  induction keys generalizing c with
  | nil => rfl
  | cons key keys ih =>
      obtain ⟨hfresh, hnodup⟩ := List.nodup_cons.mp hnodup
      obtain ⟨hkey, hkept⟩ := List.forall_mem_cons.mp hkept
      have hevict : ((Use.evict key : Use σ).perform c).2 = c.evict key := if_pos hkey
      rw [List.map_cons, Use.trace, List.foldl_cons, hevict]
      refine ih hnodup fun key' hkey' => ?_
      have hne : key' ≠ key := fun heq => hfresh (heq ▸ hkey')
      rw [get?_evict, if_neg hne]
      exact hkept key' hkey'

theorem trace_append {S : Type} (step : Use σ → S → Answer × S) (us vs : List (Use σ)) (s : S) :
    (Use.trace step (us ++ vs) s).2 = (Use.trace step vs (Use.trace step us s).2).2 := by
  induction us generalizing s with
  | nil => rfl
  | cons u us ih => exact ih (step u s).2

/-- Maintenance is a number of evictions. -/
theorem InStep.exists_evictions (h : c.InStep) :
    ∃ keys : List DecisionKey,
      (Use.trace Use.perform (keys.map (.evict : DecisionKey → Use σ)) c).2 = c.maintain := by
  refine ⟨(c.entries.drop c.capacity).map (·.1), trace_evictions ?_ fun key hkey => ?_⟩
  · exact h.nodup.sublist ((List.drop_sublist _ _).map _)
  · exact isSome_get?_iff.mpr (((List.drop_sublist _ _).map _).subset hkey)

/-! ## The cache and its map -/

/-- The cache stands for the map: it keeps the same decisions, its index lists their contracts under their
scopes, and its counts are those of the map. -/
structure Represents (c : DecisionCache) (m : Kept) : Prop where
  get?_eq : ∀ key, c.get? key = m key
  scopes_nodup : (c.index.map (·.1)).Nodup
  lists_nodup : ∀ e ∈ c.index, e.2.Nodup
  lists_nonempty : ∀ e ∈ c.index, e.2 ≠ []
  mem_contracts_iff : ∀ contract scope,
    contract ∈ c.contracts scope ↔ (m ⟨contract, scope⟩).isSome
  entryCount_eq : c.entryCount = {key | (m key).isSome}.encard
  scopeCount_eq : c.scopeCount = {scope | ∃ contract, (m ⟨contract, scope⟩).isSome}.encard

theorem encard_of_nodup {l : List α} (hnodup : l.Nodup) {p : α → Prop} (hp : ∀ x, p x ↔ x ∈ l) :
    {x | p x}.encard = l.length := by
  classical
  have hset : {x | p x} = (l.toFinset : Set α) := by
    ext x
    simp [hp]
  rw [hset, Set.encard_coe_eq_coe_finsetCard, List.toFinset_card_of_nodup hnodup]

theorem Tidy.mem_scopes_iff (h : c.Tidy) {scope : ScopeId} :
    scope ∈ c.index.map (·.1) ↔ ∃ contract, contract ∈ c.contracts scope := by
  constructor
  · intro hscope
    obtain ⟨e, he, rfl⟩ := List.mem_map.mp hscope
    obtain ⟨contract, hcontract⟩ := List.exists_mem_of_ne_nil _ (h.nonempty e he)
    exact ⟨contract, h.contracts_of_mem he ▸ hcontract⟩
  · rintro ⟨contract, hcontract⟩
    unfold contracts at hcontract
    cases hfound : c.index.find? (·.1 == scope) with
    | none => simp [hfound] at hcontract
    | some e =>
        have hscope : e.1 = scope := by simpa using List.find?_some hfound
        exact hscope ▸ List.mem_map_of_mem (List.mem_of_find?_eq_some hfound)

theorem InStep.represents (h : c.InStep) : c.Represents c.get? where
  get?_eq := fun _ => rfl
  scopes_nodup := h.tidy.nodup
  lists_nodup := h.tidy.distinct
  lists_nonempty := h.tidy.nonempty
  mem_contracts_iff := fun contract scope => h.lists_iff ⟨contract, scope⟩
  entryCount_eq := by
    rw [encard_of_nodup h.nodup fun _ => isSome_get?_iff, List.length_map]
    rfl
  scopeCount_eq := by
    have hscope (scope : ScopeId) :
        (∃ contract, (c.get? ⟨contract, scope⟩).isSome) ↔ scope ∈ c.index.map (·.1) := by
      rw [h.tidy.mem_scopes_iff]
      exact exists_congr fun contract => (h.lists_iff ⟨contract, scope⟩).symm
    rw [encard_of_nodup h.tidy.nodup hscope, List.length_map]
    rfl

/-- The end of a scope removes the decisions of the scope and its list, and nothing else. -/
structure EndsOnly (c : DecisionCache) (scope : ScopeId) : Prop where
  entries : (c.endScope scope).entries = c.entries.filter (·.1.scope != scope)
  contracts : (c.endScope scope).contracts scope = []
  other : ∀ scope', scope' ≠ scope → (c.endScope scope).contracts scope' = c.contracts scope'
  again : (c.endScope scope).endScope scope = c.endScope scope

theorem InStep.endsOnly (h : c.InStep) (scope : ScopeId) : c.EndsOnly scope where
  entries := h.entries_endScope scope
  contracts := by simp [contracts_endScope]
  other := fun scope' hne => by simp [contracts_endScope, hne]
  again := c.endScope_endScope scope

/-- **In turns the cache is a map.**  Whatever is done with a new cache by users who take turns, they get
to know what they would from a plain map: a look-up finds what is kept and selects nothing, or runs its
resolver once and keeps what that comes to, or is cancelled and keeps nothing.  After every use the cache
represents the map, its index included, also once it has been maintained, and the end of a scope would
remove what is kept within the scope and nothing else. -/
theorem sequential_uses (capacity : Nat) (us : List (Use σ)) :
    let cached := Use.trace Use.perform us (.empty capacity)
    let mapped := Use.trace Use.onMap us fun _ => none
    cached.1 = mapped.1 ∧ cached.2.Represents mapped.2 ∧ (∀ scope, cached.2.EndsOnly scope) ∧
      ∃ keys : List DecisionKey,
        cached.2.maintain.Represents (Use.trace Use.onMap (us ++ keys.map .evict) fun _ => none).2 := by
  intro cached mapped
  have hmapped (us : List (Use σ)) : Use.trace Use.onMap us (fun _ => none) = _ :=
    (inStep_empty capacity).trace_onMap_get? us
  have hinStep : cached.2.InStep := (inStep_empty capacity).trace us
  obtain ⟨keys, hkeys⟩ := hinStep.exists_evictions (σ := σ)
  refine ⟨?_, ?_, hinStep.endsOnly, keys, ?_⟩
  · exact (congrArg Prod.fst (hmapped us)).symm
  · exact (congrArg Prod.snd (hmapped us)) ▸ hinStep.represents
  · rw [hmapped, trace_append, hkeys]
    have hmaintained : cached.2.maintain.InStep := hkeys ▸ hinStep.trace _
    exact hmaintained.represents

end DecisionCache

end TrialRouting
