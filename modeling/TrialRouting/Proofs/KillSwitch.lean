import Mathlib.Data.List.Induction
import Mathlib.Data.Set.Insert
import TrialRouting.KillSwitch
import TrialRouting.Proofs.Register

/-!
# TrialRouting.Proofs.KillSwitch

The kill switch as a pair of sets (`Off`): the experiments that are switched
off, and the trials.  The switch keeps the trials in one list for each contract
and edits the lists in place; each operation still adds one element to one of
the sets, or takes one out (`off_apply`).

So what is switched off is decided by the last operation on it
(`experimentDisabled_run_iff`, `trialDisabled_run_iff`), and no other operation
matters (`experimentDisabled_apply_iff`, `trialDisabled_apply_iff`).  The lists
stay tidy: a contract has one just while some trial of it is off
(`mem_trials_iff`), and no trial is in it twice.
-/

namespace TrialRouting.KillSwitch

variable {k : KillSwitch} {contract : ContractId} {trial : TrialKey} {o : Operation}

/-! ## Operations on one thing -/

namespace Operation

/-- The operation switches the experiment of the contract on or off. -/
def OnExperiment (contract : ContractId) (o : Operation) : Prop :=
  o = .disableExperiment contract ∨ o = .enableExperiment contract

/-- The operation switches this trial of the contract on or off. -/
def OnTrial (contract : ContractId) (trial : TrialKey) (o : Operation) : Prop :=
  o = .disableTrial contract trial ∨ o = .enableTrial contract trial

instance (contract : ContractId) (o : Operation) : Decidable (o.OnExperiment contract) :=
  inferInstanceAs (Decidable (_ ∨ _))

instance (contract : ContractId) (trial : TrialKey) (o : Operation) :
    Decidable (o.OnTrial contract trial) :=
  inferInstanceAs (Decidable (_ ∨ _))

end Operation

/-- The last operation that switches the experiment of the contract. -/
def lastOnExperiment (contract : ContractId) (operations : List Operation) : Option Operation :=
  (operations.filter (·.OnExperiment contract)).getLast?

/-- The last operation that switches this trial of the contract. -/
def lastOnTrial (contract : ContractId) (trial : TrialKey) (operations : List Operation) :
    Option Operation :=
  (operations.filter (·.OnTrial contract trial)).getLast?

/-! ## What an operation changes -/

theorem disabledTrials_setTrials (k : KillSwitch) (contract contract' : ContractId)
    (keys : List TrialKey) :
    (k.setTrials contract keys).disabledTrials contract' =
      if contract' = contract then keys else k.disabledTrials contract' :=
  Register.lookup_replace k.trials contract contract' keys

@[simp] theorem experimentDisabled_setTrials (k : KillSwitch) (contract contract' : ContractId)
    (keys : List TrialKey) :
    (k.setTrials contract keys).experimentDisabled contract' = k.experimentDisabled contract' :=
  rfl

theorem mem_listed {α : Type} [BEq α] [LawfulBEq α] {xs : List α} {x y : α} :
    y ∈ listed xs x ↔ y = x ∨ y ∈ xs := by
  unfold listed
  split
  · next hx =>
      have hx : x ∈ xs := by simpa using hx
      constructor
      · exact .inr
      · rintro (rfl | hy)
        · exact hx
        · exact hy
  · simp [or_comm]

theorem nodup_listed {α : Type} [BEq α] [LawfulBEq α] {xs : List α} (h : xs.Nodup) (x : α) :
    (listed xs x).Nodup := by
  unfold listed
  split
  · exact h
  · next hx =>
      have hx : x ∉ xs := by simpa using hx
      exact h.append (List.nodup_singleton x) (List.disjoint_singleton.mpr hx)

/-- **An experiment** is switched by the operations on it, and by no others. -/
theorem experimentDisabled_apply_iff :
    (k.apply o).experimentDisabled contract = true ↔
      if o.OnExperiment contract then o = .disableExperiment contract
      else k.experimentDisabled contract = true := by
  cases o with
  | disableExperiment contract' =>
      by_cases hc : contract' = contract
      · simp [apply, experimentDisabled, mem_listed, Operation.OnExperiment, hc]
      · simp [apply, experimentDisabled, mem_listed, Operation.OnExperiment, hc, Ne.symm hc]
  | enableExperiment contract' =>
      by_cases hc : contract' = contract
      · simp [apply, experimentDisabled, Operation.OnExperiment, hc]
      · simp [apply, experimentDisabled, Operation.OnExperiment, hc, Ne.symm hc]
  | disableTrial contract' trial => simp [apply, Operation.OnExperiment]
  | enableTrial contract' trial => simp [apply, Operation.OnExperiment]

/-- **A trial** is switched by the operations on it, and by no others. -/
theorem trialDisabled_apply_iff :
    (k.apply o).trialDisabled contract trial = true ↔
      if o.OnTrial contract trial then o = .disableTrial contract trial
      else k.trialDisabled contract trial = true := by
  cases o with
  | disableExperiment contract' => simp [apply, Operation.OnTrial, trialDisabled, disabledTrials]
  | enableExperiment contract' => simp [apply, Operation.OnTrial, trialDisabled, disabledTrials]
  | disableTrial contract' trial' =>
      simp only [apply, trialDisabled, disabledTrials_setTrials, Operation.OnTrial]
      by_cases hc : contract' = contract
      · subst hc
        by_cases ht : trial' = trial
        · simp [mem_listed, ht]
        · simp [mem_listed, ht, Ne.symm ht]
      · simp [hc, Ne.symm hc]
  | enableTrial contract' trial' =>
      simp only [apply, trialDisabled, disabledTrials_setTrials, Operation.OnTrial]
      by_cases hc : contract' = contract
      · subst hc
        by_cases ht : trial' = trial
        · simp [ht]
        · simp [ht, Ne.symm ht]
      · simp [hc, Ne.symm hc]

/-! ## The sets -/

/-- What is switched off: experiments, and trials of contracts. -/
@[ext] structure Off where
  experiments : Set ContractId
  trials : Set (ContractId × TrialKey)

/-- What is off after an operation. -/
def Off.apply (off : Off) : Operation → Off
  | .disableExperiment contract => { off with experiments := insert contract off.experiments }
  | .enableExperiment contract => { off with experiments := off.experiments \ {contract} }
  | .disableTrial contract trial => { off with trials := insert (contract, trial) off.trials }
  | .enableTrial contract trial => { off with trials := off.trials \ {(contract, trial)} }

/-- The sets that the switch stands for. -/
def off (k : KillSwitch) : Off where
  experiments := {contract | k.experimentDisabled contract = true}
  trials := {x | k.trialDisabled x.1 x.2 = true}

theorem off_allOn : allOn.off = ⟨∅, ∅⟩ := by
  simp [off, allOn, experimentDisabled, trialDisabled, disabledTrials]

theorem Off.mem_experiments_apply (off : Off) :
    contract ∈ (off.apply o).experiments ↔
      if o.OnExperiment contract then o = .disableExperiment contract
      else contract ∈ off.experiments := by
  cases o with
  | disableExperiment contract' =>
      by_cases hc : contract' = contract
      · simp [apply, Operation.OnExperiment, hc]
      · simp [apply, Operation.OnExperiment, hc, Ne.symm hc]
  | enableExperiment contract' =>
      by_cases hc : contract' = contract
      · simp [apply, Operation.OnExperiment, hc]
      · simp [apply, Operation.OnExperiment, hc, Ne.symm hc]
  | disableTrial contract' trial => simp [apply, Operation.OnExperiment]
  | enableTrial contract' trial => simp [apply, Operation.OnExperiment]

theorem Off.mem_trials_apply (off : Off) :
    (contract, trial) ∈ (off.apply o).trials ↔
      if o.OnTrial contract trial then o = .disableTrial contract trial
      else (contract, trial) ∈ off.trials := by
  cases o with
  | disableExperiment contract' => simp [apply, Operation.OnTrial]
  | enableExperiment contract' => simp [apply, Operation.OnTrial]
  | disableTrial contract' trial' =>
      have hsame : (contract, trial) = (contract', trial') ↔
          contract' = contract ∧ trial' = trial := by
        rw [Prod.mk.injEq, eq_comm, @eq_comm _ trial]
      by_cases hx : contract' = contract ∧ trial' = trial <;>
        simp [-Prod.mk.injEq, apply, Operation.OnTrial, hsame, hx]
  | enableTrial contract' trial' =>
      have hsame : (contract, trial) = (contract', trial') ↔
          contract' = contract ∧ trial' = trial := by
        rw [Prod.mk.injEq, eq_comm, @eq_comm _ trial]
      by_cases hx : contract' = contract ∧ trial' = trial <;>
        simp [-Prod.mk.injEq, apply, Operation.OnTrial, hsame, hx]

/-- **One operation** on the switch is one operation on the sets. -/
theorem off_apply (k : KillSwitch) (o : Operation) : (k.apply o).off = k.off.apply o := by
  refine Off.ext (Set.ext fun contract => ?_) (Set.ext fun x => ?_)
  · exact experimentDisabled_apply_iff.trans (Off.mem_experiments_apply k.off).symm
  · exact trialDisabled_apply_iff.trans (Off.mem_trials_apply k.off).symm

/-! ## The lists -/

/-- No experiment is listed twice, and the lists of trials are tidy. -/
structure Tidy (k : KillSwitch) : Prop where
  experiments : k.experiments.Nodup
  trials : Register.Tidy k.trials

theorem tidy_allOn : allOn.Tidy := ⟨List.nodup_nil, Register.tidy_nil⟩

theorem Tidy.apply (h : k.Tidy) (o : Operation) : (k.apply o).Tidy := by
  have hkeys (contract : ContractId) : (k.disabledTrials contract).Nodup :=
    h.trials.nodup_lookup contract
  cases o with
  | disableExperiment contract => exact ⟨nodup_listed h.experiments contract, h.trials⟩
  | enableExperiment contract => exact ⟨h.experiments.filter _, h.trials⟩
  | disableTrial contract trial =>
      exact ⟨h.experiments, h.trials.replace contract (nodup_listed (hkeys contract) trial)⟩
  | enableTrial contract trial =>
      exact ⟨h.experiments, h.trials.replace contract ((hkeys contract).filter _)⟩

theorem Tidy.mem_iff_of_mem_trials (h : k.Tidy) {e : ContractId × List TrialKey}
    (he : e ∈ k.trials) (trial : TrialKey) : trial ∈ e.2 ↔ k.trialDisabled e.1 trial = true := by
  have hkeys : k.disabledTrials e.1 = e.2 := h.trials.lookup_of_mem he
  simp [trialDisabled, hkeys]

/-- A contract has a list just while one of its trials is off. -/
theorem Tidy.mem_trials_iff (h : k.Tidy) :
    contract ∈ k.trials.map (·.1) ↔ ∃ trial, k.trialDisabled contract trial = true := by
  constructor
  · intro hmem
    obtain ⟨e, he, rfl⟩ := List.mem_map.mp hmem
    obtain ⟨trial, htrial⟩ := List.exists_mem_of_ne_nil _ (h.trials.nonempty e he)
    exact ⟨trial, (h.mem_iff_of_mem_trials he trial).mp htrial⟩
  · rintro ⟨trial, htrial⟩
    have hmem : trial ∈ k.disabledTrials contract := by simpa [trialDisabled] using htrial
    have hentry : (contract, k.disabledTrials contract) ∈ k.trials :=
      h.trials.mem_iff.mpr ⟨List.ne_nil_of_mem hmem, rfl⟩
    exact List.mem_map_of_mem hentry

/-! ## Runs -/

theorem fst_applyAll (k : KillSwitch) (operations : List Operation) :
    (k.applyAll operations).1 = operations.foldl apply k := by
  induction operations generalizing k with
  | nil => rfl
  | cons o operations ih => exact ih (k.apply o)

/-- Of the operations that concern a thing, the last one is the new one if that concerns it. -/
theorem getLast?_filter_append (p : Operation → Bool) (operations : List Operation)
    (o : Operation) :
    ((operations ++ [o]).filter p).getLast? =
      if p o then some o else (operations.filter p).getLast? := by
  cases hp : p o <;> simp [List.filter_append, hp]

theorem experimentDisabled_run_iff (operations : List Operation) (contract : ContractId) :
    (operations.foldl apply allOn).experimentDisabled contract = true ↔
      lastOnExperiment contract operations = some (.disableExperiment contract) := by
  induction operations using List.reverseRecOn with
  | nil => simp [allOn, experimentDisabled, lastOnExperiment]
  | append_singleton operations o ih =>
      rw [List.foldl_concat, experimentDisabled_apply_iff, lastOnExperiment,
        getLast?_filter_append, ih]
      by_cases ho : o.OnExperiment contract
      · simp [ho]
      · simp [ho, lastOnExperiment]

theorem trialDisabled_run_iff (operations : List Operation) (contract : ContractId)
    (trial : TrialKey) :
    (operations.foldl apply allOn).trialDisabled contract trial = true ↔
      lastOnTrial contract trial operations = some (.disableTrial contract trial) := by
  induction operations using List.reverseRecOn with
  | nil => simp [allOn, trialDisabled, disabledTrials, lastOnTrial]
  | append_singleton operations o ih =>
      rw [List.foldl_concat, trialDisabled_apply_iff, lastOnTrial, getLast?_filter_append, ih]
      by_cases ho : o.OnTrial contract trial
      · simp [ho]
      · simp [ho, lastOnTrial]

theorem tidy_run (operations : List Operation) : (operations.foldl apply allOn).Tidy :=
  List.foldlRecOn operations apply tidy_allOn fun _ h o _ => h.apply o

theorem off_run (operations : List Operation) :
    (operations.foldl apply allOn).off = operations.foldl Off.apply ⟨∅, ∅⟩ := by
  rw [← off_allOn]
  exact (List.foldl_hom off fun k o => (off_apply k o).symm).symm

/-- **The switch is a pair of sets**, whatever operations came before, repeated and unmatched ones
included.  An experiment is off if the last operation on it has disabled it, and so is a trial of a
contract; an operation on anything else changes neither, whether it is on an experiment or on a
trial.  A contract has a list of trials just while one of its trials is off, and one only; the list
has the trials that are off, each once. -/
theorem refines_sets (operations : List Operation) :
    let k := (allOn.applyAll operations).1
    k.off = operations.foldl Off.apply ⟨∅, ∅⟩ ∧
    (∀ contract, k.experimentDisabled contract = true ↔
      lastOnExperiment contract operations = some (.disableExperiment contract)) ∧
    (∀ contract trial, k.trialDisabled contract trial = true ↔
      lastOnTrial contract trial operations = some (.disableTrial contract trial)) ∧
    (∀ o : Operation, ∀ contract, ¬ o.OnExperiment contract →
      (k.apply o).experimentDisabled contract = k.experimentDisabled contract) ∧
    (∀ o : Operation, ∀ contract trial, ¬ o.OnTrial contract trial →
      (k.apply o).trialDisabled contract trial = k.trialDisabled contract trial) ∧
    k.experiments.Nodup ∧ (k.trials.map (·.1)).Nodup ∧
    (∀ contract, contract ∈ k.trials.map (·.1) ↔
      ∃ trial, k.trialDisabled contract trial = true) ∧
    ∀ e ∈ k.trials, e.2.Nodup ∧ ∀ trial, trial ∈ e.2 ↔ k.trialDisabled e.1 trial = true := by
  intro k
  have hk : k = operations.foldl apply allOn := fst_applyAll allOn operations
  have htidy : k.Tidy := hk ▸ tidy_run operations
  refine ⟨hk ▸ off_run operations,
    fun contract => hk ▸ experimentDisabled_run_iff operations contract,
    fun contract trial => hk ▸ trialDisabled_run_iff operations contract trial, ?_, ?_,
    htidy.experiments, htidy.trials.nodup, fun contract => htidy.mem_trials_iff,
    fun e he => ⟨htidy.trials.distinct e he, htidy.mem_iff_of_mem_trials he⟩⟩
  · intro o contract ho
    rw [Bool.eq_iff_iff, experimentDisabled_apply_iff, if_neg ho]
  · intro o contract trial ho
    rw [Bool.eq_iff_iff, trialDisabled_apply_iff, if_neg ho]

end TrialRouting.KillSwitch
