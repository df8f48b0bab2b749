import TrialRouting.DispatchError
import TrialRouting.Trial

/-!
# TrialRouting.Implementation

The implementations behind trials. An implementation is a value of one of three types, and a caller
asks for the type it can use. A table holds the implementations that are registered for the trials
of contracts; registering again replaces.
-/

namespace TrialRouting

open Text

/-- The types of implementations. -/
inductive ImplementationType where
  | word
  | flag
  | text
  deriving DecidableEq, Repr, Inhabited

/-- The full name of a type. -/
def ImplementationType.name : ImplementationType → String
  | .word => "u32"
  | .flag => "bool"
  | .text => "alloc::string::String"

/-- What serves a trial. -/
inductive Implementation where
  | word (value : UInt32)
  | flag (value : Bool)
  | text (value : String)
  deriving DecidableEq, Repr, Inhabited

namespace Implementation

def type : Implementation → ImplementationType
  | .word _ => .word
  | .flag _ => .flag
  | .text _ => .text

/-- The implementation if it has the type that is asked for. -/
def as? (i : Implementation) (type : ImplementationType) : Option Implementation :=
  if i.type = type then some i else none

def shown (i : Implementation) : String :=
  shownRecord "ImplementationHandle" [("type_name", quoted i.type.name)]

end Implementation

/-- Implementations by contract and trial. -/
structure ImplementationTable where
  entries : List ((ContractId × TrialKey) × Implementation)
  deriving Inhabited

namespace ImplementationTable

def empty : ImplementationTable :=
  ⟨[]⟩

def insert (t : ImplementationTable) (contract : ContractId) (trial : TrialKey)
    (i : Implementation) : ImplementationTable :=
  ⟨t.entries.filter (·.1 != (contract, trial)) ++ [((contract, trial), i)]⟩

def size (t : ImplementationTable) : Nat :=
  t.entries.length

def get? (t : ImplementationTable) (contract : ContractId) (trial : TrialKey) :
    Option Implementation :=
  (t.entries.find? (·.1 == (contract, trial))).map (·.2)

/-- The implementation of a trial. -/
def resolve (t : ImplementationTable) (contract : ContractId) (trial : Trial) :
    Except ResolveError Implementation :=
  match t.get? contract trial.key with
  | some i => .ok i
  | none => .error (.notRegistered contract trial.key)

end ImplementationTable

end TrialRouting
