import TrialRouting.Number.Decimal
import TrialRouting.Text.Quoted

/-!
# TrialRouting.Document

Documents: the trees that configuration files and JSON texts stand for. The members of a record
keep the order in which they were written; reading by name takes the last member of that name.

`compact` and `pretty` write a document as JSON, the second with one item a line and two blanks of
indentation a level.
-/

namespace TrialRouting

/-- A tree of values. -/
inductive Document where
  | null
  | bool (value : Bool)
  | integer (value : Int)
  | decimal (value : Binary64)
  | text (value : String)
  | list (items : List Document)
  | record (members : List (String × Document))
  deriving Inhabited

namespace Document

/-! ## Reading -/

/-- The last member of the name among some members. -/
def member? (members : List (String × Document)) (name : String) : Option Document :=
  (members.reverse.find? (·.1 == name)).map (·.2)

/-- The member of a record; other documents have none. -/
def get? (d : Document) (name : String) : Option Document :=
  match d with
  | .record members => member? members name
  | _ => none

def text? : Document → Option String
  | .text s => some s
  | _ => none

def bool? : Document → Option Bool
  | .bool b => some b
  | _ => none

/-- A natural number below `2 ^ 64`. -/
def word? : Document → Option UInt64
  | .integer n => if 0 ≤ n ∧ n < UInt64.size then some (.ofNat n.toNat) else none
  | _ => none

def items? : Document → Option (List Document)
  | .list items => some items
  | _ => none

/-! ## Writing -/

/-- A number or a word of JSON. -/
def scalar : Document → String
  | .null => "null"
  | .bool b => if b then "true" else "false"
  | .integer n => toString n
  | .decimal x => x.jsonNumber
  | .text s => Text.jsonQuoted s
  | .list _ => "[]"
  | .record _ => "\x7b\x7d"

mutual

/-- JSON without blanks. -/
def compact : Document → String
  | .list items => "[" ++ ",".intercalate (compactItems items) ++ "]"
  | .record members => "\x7b" ++ ",".intercalate (compactMembers members) ++ "\x7d"
  | d => scalar d

def compactItems : List Document → List String
  | [] => []
  | d :: rest => compact d :: compactItems rest

def compactMembers : List (String × Document) → List String
  | [] => []
  | (name, d) :: rest => (Text.jsonQuoted name ++ ":" ++ compact d) :: compactMembers rest

end

/-- A new line with the indentation of a level. -/
def newline (level : Nat) : String :=
  "\n" ++ String.ofList (List.replicate (2 * level) ' ')

mutual

/-- JSON over several lines, within a text that stands at the given level. -/
def prettyAt (level : Nat) : Document → String
  | .list [] => "[]"
  | .list (d :: rest) =>
    let items := prettyAt (level + 1) d :: prettyItems (level + 1) rest
    "[" ++ newline (level + 1) ++ ("," ++ newline (level + 1)).intercalate items
      ++ newline level ++ "]"
  | .record [] => "\x7b\x7d"
  | .record ((name, d) :: rest) =>
    let members := (Text.jsonQuoted name ++ ": " ++ prettyAt (level + 1) d)
      :: prettyMembers (level + 1) rest
    "\x7b" ++ newline (level + 1) ++ ("," ++ newline (level + 1)).intercalate members
      ++ newline level ++ "\x7d"
  | d => scalar d

def prettyItems (level : Nat) : List Document → List String
  | [] => []
  | d :: rest => prettyAt level d :: prettyItems level rest

def prettyMembers (level : Nat) : List (String × Document) → List String
  | [] => []
  | (name, d) :: rest =>
    (Text.jsonQuoted name ++ ": " ++ prettyAt level d) :: prettyMembers level rest

end

/-- JSON over several lines. -/
def pretty (d : Document) : String :=
  prettyAt 0 d

end Document

end TrialRouting
