import TrialRouting.Document.Basic
import TrialRouting.Text.Shown

/-!
# TrialRouting.Name

The four kinds of names: contracts, the trials of a contract, the implementations behind trials,
and the scopes in which a decision holds. A name is any text, the empty one included, and two names
of one kind are the same name when their texts are.

Trials and contracts are listed by the code points of their texts (`le`), which is the order of
their UTF-8 bytes. In a document a name is its text.
-/

namespace TrialRouting

open Text

/-! ## Texts in order -/

/-- What is sorted by its texts comes in the order of these. -/
theorem pairwise_mergeSort_text {α : Type} (text : α → String) (xs : List α) :
    (xs.mergeSort fun a b => decide (text a ≤ text b)).Pairwise fun a b => text a ≤ text b := by
  refine (List.pairwise_mergeSort (fun a b c => ?_) (fun a b => ?_) xs).imp of_decide_eq_true
  · simp only [decide_eq_true_iff]
    exact String.le_trans
  · simp only [Bool.or_eq_true, decide_eq_true_iff]
    exact String.le_total _ _

/-! ## Contracts -/

/-- What an invocation is made for; each contract has at most one experiment. -/
structure ContractId where
  text : String
  deriving DecidableEq, Repr, Inhabited

namespace ContractId

/-- Order by code points. -/
def le (a b : ContractId) : Bool :=
  decide (a.text ≤ b.text)

def shown (c : ContractId) : String :=
  shownWrapped "ContractId" (quoted c.text)

end ContractId

instance : ToString ContractId := ⟨ContractId.text⟩

/-! ## Trials -/

/-- One way to serve a contract. -/
structure TrialKey where
  text : String
  deriving DecidableEq, Repr, Inhabited

namespace TrialKey

/-- Order by code points. -/
def le (a b : TrialKey) : Bool :=
  decide (a.text ≤ b.text)

def shown (k : TrialKey) : String :=
  shownWrapped "TrialKey" (quoted k.text)

/-- Keys in ascending order; equal keys are all kept. -/
def sort (keys : List TrialKey) : List TrialKey :=
  keys.mergeSort le

def encode (k : TrialKey) : Document :=
  .text k.text

def decode? (d : Document) : Option TrialKey :=
  d.text?.map mk

end TrialKey

instance : ToString TrialKey := ⟨TrialKey.text⟩

/-! ## Implementations -/

/-- The name by which a trial refers to its implementation. -/
structure ImplementationRef where
  text : String
  deriving DecidableEq, Repr, Inhabited

namespace ImplementationRef

def shown (r : ImplementationRef) : String :=
  shownWrapped "ImplementationRef" (quoted r.text)

def encode (r : ImplementationRef) : Document :=
  .text r.text

def decode? (d : Document) : Option ImplementationRef :=
  d.text?.map mk

end ImplementationRef

instance : ToString ImplementationRef := ⟨ImplementationRef.text⟩

/-! ## Scopes -/

/-- The stretch of work, such as one request, within which a contract keeps its decision. -/
structure ScopeId where
  text : String
  deriving DecidableEq, Repr, Inhabited

namespace ScopeId

/-- The digits of generated scope names: no letter that reads like a digit. -/
def alphabet : List Char :=
  "0123456789ABCDEFGHJKMNPQRSTVWXYZ".toList

/-- The given number of base-32 digits of `n`, most significant first. -/
def digits : Nat → Nat → List Char
  | 0, _ => []
  | width + 1, n => digits width (n / 32) ++ [alphabet.getD (n % 32) '0']

/-- The scope generated for the serial number `n`: 26 digits, so that numbers below `2 ^ 130` have
different scopes. -/
def generated (n : Nat) : ScopeId :=
  ⟨String.ofList (digits 26 n)⟩

/-- The scope with the given number among those of a seed. The seed is the upper half of 128 bits,
so a name that is met by chance is drawn for hardly any seed. -/
def drawn (seed : UInt64) (n : Nat) : ScopeId :=
  generated (seed.toNat * UInt64.size + n % UInt64.size)

end ScopeId

instance : ToString ScopeId := ⟨ScopeId.text⟩

end TrialRouting
