import TrialRouting.Selection.Sticky
import TrialRouting.Trial
import TrialRouting.Work

/-!
# TrialRouting.Selection.Mode

A selection mode is what the author of an experiment asks for; bound to the trials of the
experiment it becomes a strategy, which chooses a trial for a caller.

* A boolean flag chooses between the default and the only other trial.
* A configuration value or a variant flag is itself the key of a trial.
* Sticky routing spreads identities over the trials that are not the default, in ascending order
  of their keys, so that the order of registration does not matter.
* A custom selector sees all keys in the order of registration.

`candidates_subset_keys` states that the candidates of a bound mode are trials of the experiment.
-/

namespace TrialRouting

open Text

/-- A source that answers a flag by name for a caller. -/
abbrev FlagSource (σ α : Type) := String → Context → Work σ (Except SourceError α)

/-- A selector that chooses among candidates for a caller. -/
abbrev Selector (σ : Type) :=
  Context → List TrialKey → Work σ (Except SelectionError TrialKey)

/-! ## Modes -/

/-- How trials are to be selected. -/
inductive SelectionMode (σ : Type) where
  | booleanFlag (name : String) (source : FlagSource σ Bool)
  | configValue (name : String) (source : FlagSource σ (Option String))
  | variantFlag (name : String) (source : FlagSource σ (Option String))
  | stickyRouting (name : String)
  | custom (name : String) (selector : Selector σ)

namespace SelectionMode

variable {σ : Type}

def kind : SelectionMode σ → SelectionKind
  | .booleanFlag .. => .booleanFlag
  | .configValue .. => .configValue
  | .variantFlag .. => .variantFlag
  | .stickyRouting .. => .stickyRouting
  | .custom .. => .custom

def name : SelectionMode σ → String
  | .booleanFlag name _ => name
  | .configValue name _ => name
  | .variantFlag name _ => name
  | .stickyRouting name => name
  | .custom name _ => name

def shown (m : SelectionMode σ) : String :=
  shownRecord "SelectionMode" [("kind", m.kind.shown), ("name", quoted m.name)]

end SelectionMode

/-! ## Strategies -/

/-- A mode bound to the trials it selects among. -/
inductive Strategy (σ : Type) where
  | booleanFlag (name : String) (source : FlagSource σ Bool) (off on : TrialKey)
  | configValue (name : String) (source : FlagSource σ (Option String))
      (candidates : List TrialKey)
  | variantFlag (name : String) (source : FlagSource σ (Option String))
      (candidates : List TrialKey)
  | stickyRouting (name salt : String) (buckets : List TrialKey) (nonempty : buckets ≠ [])
  | custom (name : String) (selector : Selector σ) (candidates : List TrialKey)

namespace Strategy

variable {σ : Type}

def kind : Strategy σ → SelectionKind
  | .booleanFlag .. => .booleanFlag
  | .configValue .. => .configValue
  | .variantFlag .. => .variantFlag
  | .stickyRouting .. => .stickyRouting
  | .custom .. => .custom

def name : Strategy σ → String
  | .booleanFlag name .. => name
  | .configValue name .. => name
  | .variantFlag name .. => name
  | .stickyRouting name .. => name
  | .custom name .. => name

/-- The trials that may be chosen. -/
def candidates : Strategy σ → List TrialKey
  | .booleanFlag _ _ off on => [off, on]
  | .configValue _ _ candidates => candidates
  | .variantFlag _ _ candidates => candidates
  | .stickyRouting _ _ buckets _ => buckets
  | .custom _ _ candidates => candidates

def shown (s : Strategy σ) : String :=
  let keys := shownList (s.candidates.map TrialKey.shown)
  let fields := [("name", quoted s.name), ("candidates", keys)]
  match s with
  | .booleanFlag .. => shownPartly "BooleanFlagStrategy" fields
  | .configValue .. => shownPartly "ConfigValueStrategy" fields
  | .variantFlag .. => shownPartly "VariantFlagStrategy" fields
  | .stickyRouting name salt .. =>
    shownRecord "StickyRoutingStrategy"
      [("name", quoted name), ("salt", quoted salt), ("buckets", keys)]
  | .custom .. => shownPartly "CustomStrategy" fields

/-- A text source as a choice: its text is the key, no text an error. -/
def ofText (name missing : String) :
    Except SourceError (Option String) → Except SelectionError TrialKey
  | .error e => .error (.unavailable name e.message)
  | .ok none => .error (.unavailable name missing)
  | .ok (some text) => .ok ⟨text⟩

/-- Chooses a trial for a caller. The answer of a source or a selector need not be a trial of the
experiment. -/
def resolve (s : Strategy σ) (ctx : Context) : Work σ (Except SelectionError TrialKey) :=
  match s with
  | .booleanFlag name source off on => do
    match ← source name ctx with
    | .error e => return .error (.unavailable name e.message)
    | .ok enabled => return .ok (if enabled then on else off)
  | .configValue name source _ => do
    return ofText name "value is not set" (← source name ctx)
  | .variantFlag name source _ => do
    return ofText name "no variant assigned" (← source name ctx)
  | .stickyRouting name salt buckets nonempty =>
    match ctx.identity with
    | none => .done (.error (.missingIdentity name))
    | some identity => .done (.ok (Sticky.assign salt buckets nonempty identity))
  | .custom _ selector candidates => selector ctx candidates

end Strategy

/-! ## Binding -/

namespace SelectionMode

variable {σ : Type}

/-- Binds a mode to the trials of an experiment, or says why they do not fit. -/
def bind (m : SelectionMode σ) (contract : ContractId) (trials : TrialSet) :
    Except String (Strategy σ) :=
  match m with
  | .booleanFlag name source =>
    match trials.nonDefaultKeys with
    | [] => .error s!"boolean flag '{name}' needs one non-default trial, found none"
    | [on] => .ok (.booleanFlag name source trials.defaultKey on)
    | others =>
      .error s!"boolean flag '{name}' is ambiguous with {others.length} non-default trials"
  | .configValue name source => .ok (.configValue name source trials.keys)
  | .variantFlag name source => .ok (.variantFlag name source trials.keys)
  | .stickyRouting name =>
    if h : TrialKey.sort trials.nonDefaultKeys = [] then
      .error s!"sticky routing '{name}' needs at least one non-default trial"
    else .ok (.stickyRouting name (Sticky.salt contract name) _ h)
  | .custom name selector => .ok (.custom name selector trials.keys)

theorem candidates_subset_keys {m : SelectionMode σ} {contract : ContractId} {trials : TrialSet}
    {s : Strategy σ} (h : m.bind contract trials = .ok s) : s.candidates ⊆ trials.keys := by
  intro k hk
  cases m with
  | booleanFlag name source =>
    simp only [bind] at h
    split at h
    · cases h
    · rename_i on heq
      cases h
      rw [TrialSet.mem_keys_iff]
      simp only [Strategy.candidates, List.mem_cons, List.not_mem_nil, or_false] at hk
      rcases hk with rfl | rfl
      · exact .inl rfl
      · exact .inr (by simp [heq])
    · cases h
  | configValue name source => cases h; exact hk
  | variantFlag name source => cases h; exact hk
  | stickyRouting name =>
    simp only [bind] at h
    split at h
    · cases h
    · cases h
      rw [TrialSet.mem_keys_iff]
      simp only [Strategy.candidates, TrialKey.sort, List.mem_mergeSort] at hk
      exact .inr hk
  | custom name selector => cases h; exact hk

end SelectionMode

end TrialRouting
