import TrialRouting.Definition

/-!
# TrialRouting.Registry

The experiments of a program, at most one for each contract. The first registration of a contract
stays; a second one is refused and changes nothing. One registry may be installed for the whole
program, once.
-/

namespace TrialRouting

/-- Experiments with distinct contracts, in the order of registration. -/
structure Registry (σ : Type) where
  definitions : List (Definition σ)
  nodup : (definitions.map Definition.contract).Nodup

namespace Registry

variable {σ : Type}

def empty : Registry σ :=
  ⟨[], List.nodup_nil⟩

instance : Inhabited (Registry σ) := ⟨empty⟩

/-- The experiment of a contract. -/
def get? (r : Registry σ) (contract : ContractId) : Option (Definition σ) :=
  r.definitions.find? (·.contract == contract)

def contains (r : Registry σ) (contract : ContractId) : Bool :=
  (r.get? contract).isSome

def size (r : Registry σ) : Nat :=
  r.definitions.length

def isEmpty (r : Registry σ) : Bool :=
  r.definitions.isEmpty

/-- All contracts in ascending order. -/
def contracts (r : Registry σ) : List ContractId :=
  (r.definitions.map Definition.contract).mergeSort ContractId.le

/-- Adds an experiment unless its contract has one. -/
def register (r : Registry σ) (d : Definition σ) : Except DefinitionError (Registry σ) :=
  if h : d.contract ∈ r.definitions.map Definition.contract then
    .error (.duplicateContract d.contract)
  else
    .ok ⟨r.definitions ++ [d], by
      rw [List.map_append, List.nodup_append]
      refine ⟨r.nodup, by simp, ?_⟩
      intro a ha b hb
      simp only [List.map_cons, List.map_nil, List.mem_cons, List.not_mem_nil, or_false] at hb
      rintro rfl
      exact h (hb ▸ ha)⟩

/-- Offers an experiment to a registry that is being built: what the caller is told, and the registry
afterwards, which stays as it is if it refuses. -/
def offer (r : Registry σ) (d : Definition σ) : Except DefinitionError Unit × Registry σ :=
  match r.register d with
  | .ok r' => (.ok (), r')
  | .error e => (.error e, r)

/-- What the log is told when an experiment has been registered. -/
def registeredEvent (d : Definition σ) : Event :=
  .experimentRegistered d.contract d.trials.size

theorem contract_of_get? {r : Registry σ} {contract : ContractId} {d : Definition σ}
    (h : r.get? contract = some d) : d.contract = contract := by
  simpa using List.find?_some h

end Registry

/-- The place for the one registry that the whole program uses. -/
structure GlobalRegistry (σ : Type) where
  installed : Option (Registry σ)
  deriving Inhabited

namespace GlobalRegistry

variable {σ : Type}

/-- Nothing is installed yet. -/
def vacant : GlobalRegistry σ :=
  ⟨none⟩

/-- Installs a registry if none is. -/
def install (g : GlobalRegistry σ) (r : Registry σ) : Except DefinitionError (GlobalRegistry σ) :=
  match g.installed with
  | none => .ok ⟨some r⟩
  | some _ => .error .globalAlreadyInstalled

/-- Offers a registry for the whole program: the caller is given it back if it is installed. -/
def offer (g : GlobalRegistry σ) (r : Registry σ) :
    Except DefinitionError (Registry σ) × GlobalRegistry σ :=
  match g.install r with
  | .ok g' => (.ok r, g')
  | .error e => (.error e, g)

end GlobalRegistry

end TrialRouting
