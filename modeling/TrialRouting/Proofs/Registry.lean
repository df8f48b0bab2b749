import TrialRouting.Dispatcher

/-!
# TrialRouting.Proofs.Registry

How a registry is built.  It takes the first experiment that is offered for a
contract, and refuses every other for the same contract without a change
(`Registry.offer_eq`).  So after any number of offers it finds, for each
contract, the first experiment that was offered for it (`Registry.get?_built`);
an offer is refused just if one for the same contract was taken before
(`Registry.answer_iff`), and all views of the registry agree on what it holds
(`Registry.holds_built`).

The place for the registry of the whole program is filled by the first that is
installed, which stays there (`GlobalRegistry.inTurn_offer_vacant`).
-/

namespace TrialRouting

/-! ## Calls in turn -/

section InTurn

variable {S A B : Type _} (call : S → A → B × S)

/-- Calls in turn, each on what the one before has left: the answers, and what is left in the end. -/
def inTurn (s : S) : List A → List B × S
  | [] => ([], s)
  | a :: as =>
    let (answer, s') := call s a
    let (answers, s'') := inTurn s' as
    (answer :: answers, s'')

theorem length_inTurn (s : S) (as : List A) : (inTurn call s as).1.length = as.length := by
  induction as generalizing s with
  | nil => rfl
  | cons a as ih => exact congrArg (· + 1) (ih (call s a).2)

/-- A call is answered from what the calls before it have left. -/
theorem getElem?_inTurn (s : S) (as : List A) (i : Nat) :
    (inTurn call s as).1[i]? = as[i]?.map fun a => (call (inTurn call s (as.take i)).2 a).1 := by
  induction as generalizing s i with
  | nil => rfl
  | cons a as ih =>
      cases i with
      | zero => rfl
      | succ i => exact ih (call s a).2 i

end InTurn

variable {σ : Type}

namespace Registry

variable {r : Registry σ} {contract : ContractId} {d : Definition σ}

/-! ## One offer -/

theorem contains_iff :
    r.contains contract = true ↔ contract ∈ r.definitions.map Definition.contract := by
  simp [contains, get?]

/-- **An offer** is refused if the contract has an experiment, and nothing changes; otherwise the
experiment is added. -/
theorem offer_eq (r : Registry σ) (d : Definition σ) :
    r.contains d.contract = true ∧ r.offer d = (.error (.duplicateContract d.contract), r) ∨
      r.contains d.contract = false ∧
        ∃ r', r.offer d = (.ok (), r') ∧ r'.definitions = r.definitions ++ [d] := by
  by_cases h : d.contract ∈ r.definitions.map Definition.contract
  · have hregister : r.register d = .error (.duplicateContract d.contract) := dif_pos h
    exact .inl ⟨contains_iff.mpr h, by rw [offer, hregister]⟩
  · have hregister : ∃ r', r.register d = .ok r' ∧ r'.definitions = r.definitions ++ [d] :=
      ⟨_, dif_neg h, rfl⟩
    obtain ⟨r', hok, hadded⟩ := hregister
    exact .inr ⟨by rwa [← Bool.not_eq_true, contains_iff], r', by rw [offer, hok], hadded⟩

theorem fst_offer (r : Registry σ) (d : Definition σ) :
    (r.offer d).1 =
      if r.contains d.contract then .error (.duplicateContract d.contract) else .ok () := by
  obtain ⟨hfound, hoffer⟩ | ⟨hnew, r', hoffer, -⟩ := r.offer_eq d
  · rw [hoffer, if_pos hfound]
  · rw [hoffer, if_neg (Bool.not_eq_true _ ▸ hnew)]

/-- A registry that refuses an experiment stays as it is. -/
theorem snd_offer_of_error {e : DefinitionError} (h : (r.offer d).1 = .error e) :
    (r.offer d).2 = r := by
  obtain ⟨-, hoffer⟩ | ⟨-, r', hoffer, -⟩ := r.offer_eq d
  · rw [hoffer]
  · rw [hoffer] at h
    cases h

/-- What was found before is still found, and else what has been offered. -/
theorem get?_offer (r : Registry σ) (d : Definition σ) (contract : ContractId) :
    (r.offer d).2.get? contract =
      (r.get? contract).or ([d].find? (·.contract == contract)) := by
  obtain ⟨hfound, hoffer⟩ | ⟨-, r', hoffer, hadded⟩ := r.offer_eq d
  · rw [hoffer]
    by_cases hd : d.contract = contract
    · subst hd
      obtain ⟨x, hx⟩ := Option.isSome_iff_exists.mp hfound
      rw [hx, Option.some_or]
    · simp [hd]
  · rw [hoffer, get?, hadded, List.find?_append, get?]

/-! ## Offers in turn -/

theorem get?_inTurn_offer (r : Registry σ) (ds : List (Definition σ)) (contract : ContractId) :
    (inTurn offer r ds).2.get? contract =
      (r.get? contract).or (ds.find? (·.contract == contract)) := by
  induction ds generalizing r with
  | nil => exact Option.or_none.symm
  | cons d ds ih =>
      calc (inTurn offer (r.offer d).2 ds).2.get? contract
          = ((r.get? contract).or ([d].find? (·.contract == contract))).or
              (ds.find? (·.contract == contract)) := by rw [ih, get?_offer]
        _ = (r.get? contract).or ((d :: ds).find? (·.contract == contract)) := by
          rw [Option.or_assoc, ← List.find?_append, List.singleton_append]

/-- The registry to which the experiments were offered, beginning with an empty one. -/
def built (ds : List (Definition σ)) : Registry σ :=
  (inTurn offer empty ds).2

/-- What the offers were answered. -/
def answers (ds : List (Definition σ)) : List (Except DefinitionError Unit) :=
  (inTurn offer empty ds).1

variable {ds : List (Definition σ)} {i : Nat}

theorem get?_built (ds : List (Definition σ)) (contract : ContractId) :
    (built ds).get? contract = ds.find? (·.contract == contract) :=
  get?_inTurn_offer empty ds contract

theorem contains_built_iff :
    (built ds).contains contract = true ↔ ∃ d ∈ ds, d.contract = contract := by
  simp [contains, get?_built]

/-- An offer before the one at index `i` was for the contract. -/
def OfferedBefore (ds : List (Definition σ)) (i : Nat) (contract : ContractId) : Prop :=
  ∃ j < i, ∃ d, ds[j]? = some d ∧ d.contract = contract

/-- An offer before the one at index `i` was for the contract, and its experiment was taken. -/
def TakenBefore (ds : List (Definition σ)) (i : Nat) (contract : ContractId) : Prop :=
  ∃ j < i, ∃ d, ds[j]? = some d ∧ d.contract = contract ∧ (answers ds)[j]? = some (.ok ())

theorem contains_built_take_iff :
    (built (ds.take i)).contains contract = true ↔ OfferedBefore ds i contract := by
  rw [contains_built_iff]
  constructor
  · rintro ⟨d, hmem, hd⟩
    obtain ⟨j, hj⟩ := List.mem_iff_getElem?.mp hmem
    rw [List.getElem?_take] at hj
    split at hj
    · next hlt => exact ⟨j, hlt, d, hj, hd⟩
    · cases hj
  · rintro ⟨j, hlt, d, hj, hd⟩
    exact ⟨d, List.mem_iff_getElem?.mpr ⟨j, by rw [List.getElem?_take, if_pos hlt, hj]⟩, hd⟩

/-- The answer to an offer. -/
theorem getElem?_answers (hd : ds[i]? = some d) :
    OfferedBefore ds i d.contract ∧
        (answers ds)[i]? = some (.error (.duplicateContract d.contract)) ∨
      ¬ OfferedBefore ds i d.contract ∧ (answers ds)[i]? = some (.ok ()) := by
  have hanswer : (answers ds)[i]? = some ((built (ds.take i)).offer d).1 := by
    rw [answers, getElem?_inTurn, hd]
    rfl
  rw [hanswer, fst_offer, ← contains_built_take_iff]
  split
  · next hfound => exact .inl ⟨hfound, rfl⟩
  · next hnew => exact .inr ⟨hnew, rfl⟩

/-- Of the offers for a contract the first one was taken. -/
theorem takenBefore_iff : TakenBefore ds i contract ↔ OfferedBefore ds i contract := by
  constructor
  · rintro ⟨j, hlt, d, hj, hd, -⟩
    exact ⟨j, hlt, d, hj, hd⟩
  · intro hoffered
    -- An earlier offer that was refused itself has an earlier one for the contract.
    induction i using Nat.strongRecOn with
    | ind i ih =>
        obtain ⟨j, hlt, d, hj, rfl⟩ := hoffered
        obtain ⟨hbefore, -⟩ | ⟨-, htaken⟩ := getElem?_answers hj
        · obtain ⟨k, hk, htaken⟩ := ih j hlt hbefore
          exact ⟨k, Nat.lt_trans hk hlt, htaken⟩
        · exact ⟨j, hlt, d, hj, rfl, htaken⟩

/-- **An offer is refused** just if one for the same contract was taken before, and else taken. -/
theorem answer_iff (hd : ds[i]? = some d) :
    ((answers ds)[i]? = some (.error (.duplicateContract d.contract)) ↔
        TakenBefore ds i d.contract) ∧
      ((answers ds)[i]? = some (.ok ()) ↔ ¬ TakenBefore ds i d.contract) := by
  rw [takenBefore_iff]
  obtain ⟨hbefore, hanswer⟩ | ⟨hnew, hanswer⟩ := getElem?_answers hd
  · simp [hanswer, hbefore]
  · simp [hanswer, hnew]

/-! ## The views -/

/-- All contracts of a registry, each once and in the order of their texts. -/
theorem pairwise_contracts (r : Registry σ) :
    r.contracts.Pairwise fun a b => a.text < b.text := by
  have hsorted : r.contracts.Pairwise fun a b => a.text ≤ b.text :=
    pairwise_mergeSort_text ContractId.text _
  have hnodup : r.contracts.Nodup := (List.mergeSort_perm _ _).nodup_iff.mpr r.nodup
  refine (hsorted.and hnodup).imp fun {a b} hab => String.not_le.mp fun hge => hab.2 ?_
  have htext : a.text = b.text := String.le_antisymm hab.1 hge
  cases a
  exact congrArg ContractId.mk htext

theorem mem_contracts_iff : contract ∈ r.contracts ↔ r.contains contract = true := by
  rw [contains_iff, contracts, (List.mergeSort_perm _ _).mem_iff]

theorem length_contracts (r : Registry σ) : r.contracts.length = r.size := by
  rw [contracts, (List.mergeSort_perm _ _).length_eq, List.length_map, size]

theorem isEmpty_iff : r.isEmpty = true ↔ r.size = 0 := by
  rw [isEmpty, List.isEmpty_iff, size, List.length_eq_zero_iff]

theorem size_built_eq_zero_iff : (built ds).size = 0 ↔ ds = [] := by
  cases ds with
  | nil => simp [built, inTurn, empty, size]
  | cons d ds =>
      have hfound : (built (d :: ds)).contains d.contract = true :=
        contains_built_iff.mpr ⟨d, List.mem_cons_self, rfl⟩
      have hpos := List.length_pos_of_mem (contains_iff.mp hfound)
      rw [List.length_map] at hpos
      simp [size, Nat.pos_iff_ne_zero.mp hpos]

/-- **What the views of a registry show** that holds the first experiment of each contract in the
list, and nothing else. -/
structure Holds (r : Registry σ) (ds : List (Definition σ)) : Prop where
  get?_eq_some : ∀ contract d, r.get? contract = some d ↔
    ∃ before after, ds = before ++ d :: after ∧ d.contract = contract ∧
      ∀ x ∈ before, x.contract ≠ contract
  get?_eq_none : ∀ contract, r.get? contract = none ↔ ∀ d ∈ ds, d.contract ≠ contract
  contains : ∀ contract, r.contains contract = true ↔ ∃ d ∈ ds, d.contract = contract
  ascending : r.contracts.Pairwise fun a b => a.text < b.text
  contracts : ∀ contract, contract ∈ r.contracts ↔ ∃ d ∈ ds, d.contract = contract
  size : r.size = r.contracts.length
  size_eq_zero : r.size = 0 ↔ ds = []
  isEmpty : r.isEmpty = true ↔ r.size = 0

theorem holds_built (ds : List (Definition σ)) : (built ds).Holds ds where
  get?_eq_some contract d := by
    rw [get?_built, List.find?_eq_some_iff_append]
    constructor
    · rintro ⟨hd, before, after, hds, hothers⟩
      exact ⟨before, after, hds, by simpa using hd, by simpa using hothers⟩
    · rintro ⟨before, after, hds, hd, hothers⟩
      exact ⟨by simpa using hd, before, after, hds, by simpa using hothers⟩
  get?_eq_none contract := by simp [get?_built]
  contains contract := contains_built_iff
  ascending := pairwise_contracts _
  contracts contract := mem_contracts_iff.trans contains_built_iff
  size := (length_contracts _).symm
  size_eq_zero := size_built_eq_zero_iff
  isEmpty := isEmpty_iff

end Registry

/-! ## The registry of the whole program -/

namespace GlobalRegistry

/-- Once a registry is installed every other is refused, and it stays. -/
theorem inTurn_offer_installed (r : Registry σ) (rs : List (Registry σ)) :
    inTurn offer ⟨some r⟩ rs = (rs.map fun _ => .error .globalAlreadyInstalled, ⟨some r⟩) := by
  induction rs with
  | nil => rfl
  | cons _ rs ih =>
      rw [inTurn, offer, install]
      simp only [ih, List.map_cons]

theorem inTurn_offer_vacant (r : Registry σ) (rs : List (Registry σ)) :
    inTurn offer vacant (r :: rs) =
      (.ok r :: rs.map fun _ => .error .globalAlreadyInstalled, ⟨some r⟩) := by
  rw [inTurn, offer, install, vacant]
  simp only [inTurn_offer_installed]

end GlobalRegistry

namespace Registry

/-- **Registration.**  An offer is refused, for the contract, just if the experiment of an earlier
one for the same contract was taken; all others are taken, and a registry that refuses an experiment
stays as it is.  What has been built of the offers finds the first experiment of each contract, and
all its views agree.  So whatever a dispatcher finds for a contract is an experiment of that
contract.

Of the registries that are installed for the whole program, one after the other, the first is taken
and is the one that is installed from then on; all others are refused. -/
theorem registration_exact (ds : List (Definition σ)) (first : Registry σ)
    (others : List (Registry σ)) :
    (answers ds).length = ds.length ∧
    (∀ (i : Nat) (d : Definition σ), ds[i]? = some d →
      ((answers ds)[i]? = some (.error (.duplicateContract d.contract)) ↔
        TakenBefore ds i d.contract) ∧
      ((answers ds)[i]? = some (.ok ()) ↔ ¬ TakenBefore ds i d.contract) ∧
      (TakenBefore ds i d.contract ↔ OfferedBefore ds i d.contract)) ∧
    (∀ (r : Registry σ) (d : Definition σ) (e : DefinitionError),
      (r.offer d).1 = .error e → (r.offer d).2 = r) ∧
    (built ds).Holds ds ∧
    (∀ (disp : Dispatcher σ) (contract : ContractId) (d : Definition σ),
      disp.registry.get? contract = some d → d.contract = contract) ∧
    (inTurn GlobalRegistry.offer .vacant (first :: others)).1 =
      .ok first :: others.map (fun _ => .error .globalAlreadyInstalled) ∧
    ∀ calls : Nat,
      (inTurn GlobalRegistry.offer .vacant ((first :: others).take calls)).2.installed =
        if calls = 0 then none else some first := by
  refine ⟨length_inTurn offer empty ds,
    fun i d hd => ⟨(answer_iff hd).1, (answer_iff hd).2, takenBefore_iff⟩,
    fun r d e he => snd_offer_of_error he, holds_built ds,
    fun disp contract d hd => contract_of_get? hd, ?_, fun calls => ?_⟩
  · rw [GlobalRegistry.inTurn_offer_vacant]
  · cases calls with
    | zero => rfl
    | succ calls => rw [List.take_succ_cons, GlobalRegistry.inTurn_offer_vacant, if_neg nofun]

end Registry

end TrialRouting
