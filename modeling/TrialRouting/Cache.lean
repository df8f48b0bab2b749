import TrialRouting.Event

/-!
# TrialRouting.Cache

Decisions kept for contracts within scopes, and an index that lists the contracts of each scope.
The index exists so that ending a scope finds its decisions.

The operations here are single steps. A decision is inserted and tracked in two steps, and ending a
scope takes its list out of the index (`detach`) and then removes the listed decisions one by one
(`invalidate`); steps of several callers may come in between. A decision that the cache drops on
its own leaves the index too (`evict`), one that is invalidated does not.

`endScope` is the whole of ending a scope when nothing comes in between.

Which decisions a full cache drops, and when it drops those that have been idle too long, is up to
the cache that holds them. Here either is an `evict`, and `maintain` takes the youngest ones; what
is proved of callers that look up together is proved for evictions of any decision at any time.
-/

namespace TrialRouting

/-- The decisions, the oldest first, and the contracts of each scope. -/
structure DecisionCache where
  capacity : Nat
  entries : List (DecisionKey × Decision)
  index : List (ScopeId × List ContractId)
  deriving DecidableEq, Repr, Inhabited

namespace DecisionCache

/-- A cache without decisions that keeps the given number of them. -/
def empty (capacity : Nat) : DecisionCache :=
  ⟨capacity, [], []⟩

/-! ## Decisions -/

/-- The decision kept for a contract within a scope. -/
def get? (c : DecisionCache) (key : DecisionKey) : Option Decision :=
  (c.entries.find? (·.1 == key)).map (·.2)

/-- Keeps a decision in place of any former one. -/
def insert (c : DecisionCache) (key : DecisionKey) (d : Decision) : DecisionCache :=
  { c with entries := c.entries.filter (·.1 != key) ++ [(key, d)] }

/-- Removes a decision and leaves the index as it is. -/
def invalidate (c : DecisionCache) (key : DecisionKey) : DecisionCache :=
  { c with entries := c.entries.filter (·.1 != key) }

/-! ## The index -/

/-- The contracts that the index lists for a scope. -/
def contracts (c : DecisionCache) (scope : ScopeId) : List ContractId :=
  ((c.index.find? (·.1 == scope)).map (·.2)).getD []

/-- Replaces the list of a scope; no list is kept for no contracts. -/
def setContracts (c : DecisionCache) (scope : ScopeId) (contracts : List ContractId) :
    DecisionCache :=
  let others := c.index.filter (·.1 != scope)
  { c with index := if contracts.isEmpty then others else others ++ [(scope, contracts)] }

/-- Lists a contract under its scope, once. -/
def track (c : DecisionCache) (key : DecisionKey) : DecisionCache :=
  let listed := c.contracts key.scope
  if listed.contains key.contract then c
  else c.setContracts key.scope (listed ++ [key.contract])

/-- Takes the list of a scope out of the index. -/
def detach (c : DecisionCache) (scope : ScopeId) : DecisionCache :=
  c.setContracts scope []

/-- Drops a decision and takes its contract off the list of its scope. -/
def evict (c : DecisionCache) (key : DecisionKey) : DecisionCache :=
  (c.invalidate key).setContracts key.scope
    ((c.contracts key.scope).filter (· != key.contract))

/-! ## Ending a scope -/

/-- Removes the decisions of a scope for the given contracts. -/
def invalidateAll (c : DecisionCache) (scope : ScopeId) (contracts : List ContractId) :
    DecisionCache :=
  contracts.foldl (fun c contract => c.invalidate ⟨contract, scope⟩) c

/-- Removes the decisions of a scope and its list. -/
def endScope (c : DecisionCache) (scope : ScopeId) : DecisionCache :=
  (c.detach scope).invalidateAll scope (c.contracts scope)

/-- What the log is told when a scope ends; nothing of a scope that is not listed. -/
def endScopeEvents (c : DecisionCache) (scope : ScopeId) : List Event :=
  let contracts := c.contracts scope
  if contracts.isEmpty then [] else [.scopeEnded scope contracts.length]

/-! ## Maintenance -/

/-- Drops the decisions beyond the capacity, the youngest ones. The number of those that stay is that
of any cache with the capacity; their choice is not. -/
def maintain (c : DecisionCache) : DecisionCache :=
  ((c.entries.drop c.capacity).map (·.1)).foldl evict c

def entryCount (c : DecisionCache) : Nat :=
  c.entries.length

def scopeCount (c : DecisionCache) : Nat :=
  c.index.length

end DecisionCache

end TrialRouting
