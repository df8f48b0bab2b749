import TrialRouting.Dispatcher
import TrialRouting.Document.Basic
import TrialRouting.Program.Session
import TrialRouting.Tally
import TrialRouting.Text.Column

/-!
# TrialRouting.Spread

How sticky routing spreads identities over variants. Every identity is routed twice through the
dispatcher, each time in a scope that ends right after; the spread is stable if both passes agree.
-/

namespace TrialRouting

/-- How many identities each variant got. -/
structure Spread where
  identities : Nat
  counts : Tally
  maxSkew : Binary64
  stable : Bool
  openScopes : Nat
  deriving Inhabited

namespace Spread

open Text

/-! ## Reports -/

def document (s : Spread) : Document :=
  .record
    [("identities", .integer s.identities),
     ("counts", .record (s.counts.map fun (name, n) => (name, .integer n))),
     ("max_skew", .decimal s.maxSkew), ("stable", .bool s.stable),
     ("open_scopes", .integer s.openScopes)]

/-- The spread for people, each line with its break. -/
def text (s : Spread) : String :=
  let skew := (s.maxSkew.mul (.ofNat 100)).fixed 2
  let answer := if s.stable then "yes" else "NO"
  let variants := s.counts.map fun (name, n) =>
    "  " ++ leftIn 12 name ++ " " ++ rightIn 8 (toString n)
  let lines := s!"Sticky routing over {s.identities} identities" :: variants
    ++ [s!"  max skew: {skew}%", s!"  stable: {answer}"]
  String.join (lines.map (· ++ "\n"))

/-! ## The experiment -/

/-- Why there is no spread. -/
inductive Refusal where
  | noVariants
  | definition (e : DefinitionError)
  | dispatch (e : DispatchError)
  deriving DecidableEq, Repr

def Refusal.message : Refusal → String
  | .noVariants => "sticky routing needs at least one variant"
  | .definition e => e.message
  | .dispatch e => e.message

def contract : ContractId :=
  ⟨"sticky"⟩

/-- The names of so many variants, counted from one. -/
def variantNames (variants : Nat) : List String :=
  (List.range variants).map fun i => s!"variant-{i + 1}"

/-- A default trial that sticky routing never selects, and the variants. -/
def draft (variants : Nat) : Draft Unit where
  contract := contract
  trials := ⟨⟨"baseline"⟩, true, ⟨"Baseline"⟩⟩ ::
    (variantNames variants).map fun name => ⟨⟨name⟩, false, ⟨name⟩⟩
  selection := some (.stickyRouting "sticky.route")
  policy := default
  timeout := none
  decorators := []

/-- Every trial is implemented by its name. -/
def implementations (variants : Nat) : ImplementationTable :=
  ("baseline" :: variantNames variants).foldl
    (fun t name => t.insert contract ⟨name⟩ (.text name)) .empty

/-- A variant answers with its name. -/
def serve : Implementation → Work Unit Yield
  | .text name => .done (.output name)
  | _ => .done .foreignOutput

def dispatcher (variants : Nat) : Except Refusal (Dispatcher Unit) := do
  let d ← (draft variants).build.mapError .definition
  let registry ← (Registry.empty.register d).mapError .definition
  let table := implementations variants
  return ⟨registry, fun contract trial _ => table.resolve contract trial, .allOn, {}⟩

/-! ## Routing -/

/-- A session, and how many scopes it has named. -/
structure Progress where
  session : Session Unit
  scopes : Nat

/-- Routes an identity in a scope of its own. -/
def route (disp : Dispatcher Unit) (p : Progress) (i : Nat) :
    Except DispatchError String × Progress :=
  let scope := ScopeId.generated p.scopes
  let ctx : Context := ⟨contract, "route", scope, some s!"identity-{i}"⟩
  let run := (disp.invoke .text serve ctx).run .live p.session
  let session := { run.session with cache := run.session.cache.endScope scope }
  (run.value, ⟨session, p.scopes + 1⟩)

/-- The first pass over some identities, counted from `i`: the variants they get. -/
def assign (disp : Dispatcher Unit) : Nat → Nat → List String → Progress →
    Except Refusal (List String × Progress)
  | 0, _, got, p => .ok (got.reverse, p)
  | n + 1, i, got, p =>
    match route disp p i with
    | (.ok name, p) => assign disp n (i + 1) (name :: got) p
    | (.error e, _) => .error (.dispatch e)

/-- The second pass: whether the identities, counted from `i`, get the same variants again. -/
def confirm (disp : Dispatcher Unit) : Nat → List String → Progress →
    Except Refusal (Bool × Progress)
  | _, [], p => .ok (true, p)
  | i, name :: names, p =>
    match route disp p i with
    | (.ok name', p) => if name' = name then confirm disp (i + 1) names p else .ok (false, p)
    | (.error e, _) => .error (.dispatch e)

/-- The largest deviation from an even share, as a part of that share. -/
def maxSkewOf (identities variants : Nat) (counts : Tally) : Binary64 :=
  if identities = 0 then .zero
  else
    let even := (Binary64.ofNat identities).div (.ofNat variants)
    counts.foldl (fun skew (_, n) =>
      skew.maximum (((Binary64.ofNat n).distance even).div even)) .zero

/-- Spreads identities over variants. -/
def run (identities variants : Nat) : Except Refusal Spread := do
  if variants = 0 then throw .noVariants
  let disp ← dispatcher variants
  let (names, p) ← assign disp identities 0 [] ⟨⟨0, disp.newCache, ()⟩, 0⟩
  let none : Tally := (variantNames variants).foldl (Tally.add 0) []
  let counts := names.foldl Tally.increment none
  let (stable, p) ← confirm disp 0 names p
  return ⟨identities, counts, maxSkewOf identities variants counts, stable,
    p.session.cache.scopeCount⟩

end Spread

end TrialRouting
