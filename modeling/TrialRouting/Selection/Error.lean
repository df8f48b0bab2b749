import TrialRouting.Document.Form
import TrialRouting.Name

/-!
# TrialRouting.Selection.Error

The kinds of selection, and the ways in which a selection can fail. None of them fails an
invocation: the default trial stands in, and the error is kept as the reason.
-/

namespace TrialRouting

open Text Document

/-! ## Kinds -/

/-- How a trial is chosen. -/
inductive SelectionKind where
  | booleanFlag
  | configValue
  | variantFlag
  | stickyRouting
  | custom
  deriving DecidableEq, Repr, Inhabited

namespace SelectionKind

def name : SelectionKind → String
  | .booleanFlag => "boolean_flag"
  | .configValue => "config_value"
  | .variantFlag => "variant_flag"
  | .stickyRouting => "sticky_routing"
  | .custom => "custom"

def ofName? (name : String) : Option SelectionKind :=
  if name = "boolean_flag" then some .booleanFlag
  else if name = "config_value" then some .configValue
  else if name = "variant_flag" then some .variantFlag
  else if name = "sticky_routing" then some .stickyRouting
  else if name = "custom" then some .custom
  else none

def shown : SelectionKind → String
  | .booleanFlag => "BooleanFlag"
  | .configValue => "ConfigValue"
  | .variantFlag => "VariantFlag"
  | .stickyRouting => "StickyRouting"
  | .custom => "Custom"

def encode (k : SelectionKind) : Document :=
  .text k.name

def decode? (dialect : Dialect) : Document → Option SelectionKind :=
  unit? dialect ofName?

end SelectionKind

/-! ## Errors -/

/-- What a source of flags says when it cannot answer. -/
structure SourceError where
  message : String
  deriving DecidableEq, Repr, Inhabited

namespace SourceError

def shown (e : SourceError) : String :=
  shownWrapped "SourceError" (quoted e.message)

end SourceError

/-- Why a selection gave no trial. -/
inductive SelectionError where
  | unavailable (name reason : String)
  | unknownTrialKey (key : TrialKey)
  | missingIdentity (name : String)
  | rejected (name reason : String)
  deriving DecidableEq, Repr, Inhabited

namespace SelectionError

def message : SelectionError → String
  | .unavailable name reason => s!"selection source '{name}' unavailable: {reason}"
  | .unknownTrialKey key => s!"selection produced unknown trial key '{key}'"
  | .missingIdentity name => s!"sticky routing '{name}' requires a caller identity"
  | .rejected name reason => s!"selector '{name}' rejected the invocation: {reason}"

def shown : SelectionError → String
  | .unavailable name reason =>
    shownRecord "Unavailable" [("name", quoted name), ("reason", quoted reason)]
  | .unknownTrialKey key => shownWrapped "UnknownTrialKey" key.shown
  | .missingIdentity name => shownRecord "MissingIdentity" [("name", quoted name)]
  | .rejected name reason =>
    shownRecord "Rejected" [("name", quoted name), ("reason", quoted reason)]

end SelectionError

end TrialRouting
