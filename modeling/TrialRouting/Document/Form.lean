import TrialRouting.Document.Basic
import TrialRouting.Duration

/-!
# TrialRouting.Document.Form

How values are written as documents.

* An alternative without contents is its name, or a record whose only member has that name and an
  empty value; an alternative with contents is a record whose only member has its name and holds
  the contents (`alternative?`).
* A structure is a record of its fields, in any order and with other members ignored, or the list
  of its fields in order (`fields?`). A field that has a default may be missing from the record,
  and the list may end before it.
* A span of time is a structure of its seconds and nanoseconds that tolerates no other member.

Two document formats differ in two details, which a `Dialect` holds.
-/

namespace TrialRouting

namespace Document

/-- What depends on the format that a document was read from. -/
structure Dialect where
  /-- Whether a structure written as a list may have more items than fields. -/
  longLists : Bool
  /-- What an alternative without contents may have for its contents. -/
  isEmpty : Document → Bool

namespace Dialect

/-- JSON has no room for surplus items and knows `null`. -/
def json : Dialect where
  longLists := false
  isEmpty
    | .null => true
    | _ => false

/-- TOML skips surplus items and, for want of `null`, takes an empty array or table. -/
def toml : Dialect where
  longLists := true
  isEmpty
    | .list [] => true
    | .record [] => true
    | _ => false

end Dialect

/-! ## Alternatives -/

/-- The name of an alternative and its contents, if it is written with any. -/
def alternative? : Document → Option (String × Option Document)
  | .text name => some (name, none)
  | .record [(name, contents)] => some (name, some contents)
  | _ => none

/-- The value of an alternative without contents, found by its name. -/
def unit? {α : Type} (dialect : Dialect) (byName : String → Option α) (d : Document) : Option α := do
  let (name, contents) ← alternative? d
  let value ← byName name
  match contents with
  | none => some value
  | some contents => if dialect.isEmpty contents then some value else none

/-! ## Structures -/

/-- The documents of the named fields, where they are given. -/
def fields? (dialect : Dialect) (names : List String) : Document → Option (List (Option Document))
  | .record members => some (names.map (member? members))
  | .list items =>
    if items.length ≤ names.length || dialect.longLists then
      some ((List.range names.length).map fun i => items[i]?)
    else none
  | _ => none

/-- A field without which the structure is refused. -/
def required {α : Type} (read : Document → Option α) : Option Document → Option α
  | none => none
  | some d => read d

/-- A field that has a default. -/
def orDefault {α : Type} (default : α) (read : Document → Option α) : Option Document → Option α
  | none => some default
  | some d => read d

/-- A value or `null`. -/
def nullable {α : Type} (read : Document → Option α) : Document → Option (Option α)
  | .null => some none
  | d => (read d).map some

end Document

/-! ## Spans of time -/

namespace Duration

open Document

def encode (d : Duration) : Document :=
  .record [("secs", .integer d.secs.toNat), ("nanos", .integer d.nanos)]

/-- Both parts and nothing else; nanoseconds are a 32-bit number of which full seconds carry. -/
def decode? (d : Document) : Option Duration := do
  let known := match d with
    | .record members => members.all fun m => m.1 == "secs" || m.1 == "nanos"
    | _ => true
  if known then
    match ← fields? .json ["secs", "nanos"] d with
    | [secs, nanos] =>
      let secs ← required word? secs
      let nanos ← required word? nanos
      if nanos.toNat < UInt32.size then ofParts? secs nanos.toNat else none
    | _ => none
  else none

end Duration

end TrialRouting
