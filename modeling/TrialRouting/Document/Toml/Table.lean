import TrialRouting.Document.Basic

/-!
# TrialRouting.Document.Toml.Table

The tables of a TOML text while it is being read. A table comes into being in one of three ways,
and they do not mix:

* a header defines it; it may be defined once, and only its own section assigns to it;
* a longer header implies it; a header may still define it;
* the path of an assignment makes it; only such paths reach into it, though headers may name
  tables below it.

Headers in double brackets add a table to an array, and a path through the array leads to its last
table.
-/

namespace TrialRouting.Document.Toml

/-- How a table came into being. -/
inductive Origin where
  | defined
  | implied
  | dotted
  deriving DecidableEq, Repr

/-- What stands under a key; the tables of an array are kept newest first. -/
inductive Node where
  | value (d : Document)
  | table (origin : Origin) (members : List (String × Node))
  | tables (elements : List (List (String × Node)))

/-- What stands under the keys of a table. -/
abbrev Members := List (String × Node)

namespace Members

def get? (t : Members) (key : String) : Option Node :=
  (t.find? (·.1 == key)).map (·.2)

def set (t : Members) (key : String) (n : Node) : Members :=
  t.filter (·.1 != key) ++ [(key, n)]

/-- Changes the table at the end of a path, where `dotted` says that the path is one of an
assignment and not of a header. Tables that are missing on the way come into being. -/
def update (dotted : Bool) (change : Origin → Members → Option Members) :
    List String → Origin → Members → Option Members
  | [], origin, t => change origin t
  | key :: path, _, t =>
    match t.get? key with
    | none => do
      let origin := if dotted then Origin.dotted else .implied
      return t.set key (.table origin (← update dotted change path origin []))
    | some (.value _) => none
    | some (.tables []) => none
    | some (.tables (e :: es)) => do
      return t.set key (.tables ((← update dotted change path .defined e) :: es))
    | some (.table origin inner) =>
      if dotted && origin == .defined then none
      else do return t.set key (.table origin (← update dotted change path origin inner))

/-- Assigns a value to a new key. -/
def assign (t : Members) (path : List String) (key : String) (d : Document) : Option Members :=
  let put (origin : Origin) (inner : Members) : Option Members :=
    if (origin == .dotted) == path.isEmpty then none
    else if (inner.get? key).isSome then none
    else some (inner.set key (.value d))
  update true put path .defined t

end Members

mutual

/-- What stands under a key as a document. -/
def Node.document : Node → Document
  | .value d => d
  | .table _ members => .record (membersDocument members)
  | .tables elements => .list (elementsDocument elements).reverse

def membersDocument : List (String × Node) → List (String × Document)
  | [] => []
  | (key, n) :: rest => (key, n.document) :: membersDocument rest

def elementsDocument : List (List (String × Node)) → List Document
  | [] => []
  | e :: es => .record (membersDocument e) :: elementsDocument es

end

/-! ## Statements -/

/-- A header or an assignment, each with the path to its last key. -/
inductive Statement where
  | table (path : List String) (key : String)
  | element (path : List String) (key : String)
  | assign (path : List String) (key : String) (value : Document)

/-- A section that is being read: where its table belongs, and its table so far. -/
structure Section where
  root : Members
  header : Option (Bool × List String × String)
  current : Members

namespace Section

/-- The section before the first header, whose table is the root itself. -/
def first : Section :=
  ⟨[], none, []⟩

/-- The root with the table of the section in its place. -/
def close (s : Section) : Option Members :=
  match s.header with
  | none => some s.current
  | some (isElement, path, key) =>
    let put (_ : Origin) (parent : Members) : Option Members :=
      if isElement then
        match parent.get? key with
        | none => some (parent.set key (.tables [s.current]))
        | some (.tables es) => some (parent.set key (.tables (s.current :: es)))
        | some _ => none
      else some (parent.set key (.table .defined s.current))
    Members.update false put path .defined s.root

/-- The table that a header may still define. -/
def implied? (parent : Members) (key : String) : Option Members :=
  match parent.get? key with
  | none => some []
  | some (.table .implied members) => some members
  | some _ => none

/-- What stands at the end of a path of a header. -/
def parent? (root : Members) : List String → Option Members
  | [] => some root
  | key :: path =>
    match root.get? key with
    | none => parent? [] path
    | some (.table _ members) => parent? members path
    | some (.tables (e :: _)) => parent? e path
    | some _ => none

/-- The section after a statement; nothing if the statement is out of place. -/
def next (s : Section) : Statement → Option Section
  | .assign path key value => do
    return { s with current := ← s.current.assign path key value }
  | .table path key => do
    let root ← s.close
    let current ← implied? (← parent? root path) key
    return ⟨root, some (false, path, key), current⟩
  | .element path key => do
    let root ← s.close
    match (← parent? root path).get? key with
    | none => return ⟨root, some (true, path, key), []⟩
    | some (.tables _) => return ⟨root, some (true, path, key), []⟩
    | some _ => none

end Section

/-- The document of a list of statements. -/
def documentOf? (statements : List Statement) : Option Document := do
  let s ← statements.foldlM Section.next .first
  return .record (membersDocument (← s.close))

end TrialRouting.Document.Toml
