import TrialRouting.Name
import TrialRouting.Sha256

/-!
# TrialRouting.Selection.Sticky

Sticky routing sends one identity always to the same bucket. The bucket is the leading word of the
hash of a salt, a zero byte and the identity, modulo the number of buckets; the salt is made of the
contract and the name of the routing, with a slash in between.
-/

namespace TrialRouting.Sticky

/-- The UTF-8 bytes of a text. -/
def utf8 (s : String) : List UInt8 :=
  s.toUTF8.toList

/-- What is hashed for an identity. -/
def hashInput (salt identity : String) : List UInt8 :=
  utf8 salt ++ 0 :: utf8 identity

/-- The bucket of an identity among the given number of buckets. -/
def bucket (salt identity : String) (buckets : Nat) : Nat :=
  (Sha256.leadingWord (hashInput salt identity)).toNat % buckets

theorem bucket_lt (salt identity : String) {buckets : Nat} (h : 0 < buckets) :
    bucket salt identity buckets < buckets :=
  Nat.mod_lt _ h

/-- The salt of a routing. -/
def salt (contract : ContractId) (name : String) : String :=
  contract.text ++ "/" ++ name

/-- The trial of an identity, among sorted buckets of which there is at least one. -/
def assign (salt : String) (buckets : List TrialKey) (h : buckets ≠ []) (identity : String) :
    TrialKey :=
  buckets.get ⟨bucket salt identity buckets.length,
    bucket_lt salt identity (List.length_pos_iff.2 h)⟩

theorem assign_mem (salt : String) (buckets : List TrialKey) (h : buckets ≠ [])
    (identity : String) : assign salt buckets h identity ∈ buckets :=
  List.get_mem ..

end TrialRouting.Sticky
