import TrialRouting.Document.Toml.Number
import TrialRouting.Document.Toml.Table

/-!
# TrialRouting.Document.Toml

Reads a TOML text as a document. Lines hold headers and assignments; values are strings, numbers,
points in time, truth values, arrays over any number of lines, and tables on one line. Arrays and
tables are nested up to 79 deep within a value. A mark for the byte order at the beginning is
skipped.
-/

namespace TrialRouting.Document.Toml

/-! ## Values -/

/-- Reads one value. -/
abbrev ValueReader := List Char → Option (Document × List Char)

/-- The items of an array after its opening bracket, newest first; a comma may follow the last one.
The first argument bounds the number of steps. -/
def items? (value? : ValueReader) : Nat → List Document → List Char → Option (Document × List Char)
  | 0, _, _ => none
  | steps + 1, acc, cs =>
    match skipFiller false cs with
    | ']' :: rest => some (.list acc.reverse, rest)
    | cs => do
      let (d, rest) ← value? cs
      match skipFiller false rest with
      | ',' :: rest => items? value? steps (d :: acc) rest
      | ']' :: rest => return (.list (d :: acc).reverse, rest)
      | _ => none

/-- An assignment: a key, an equals sign and a value. -/
def assignment? (value? : ValueReader) (cs : List Char) :
    Option ((List String × String × Document) × List Char) := do
  let ((path, key), rest) ← key? cs
  match rest with
  | '=' :: rest =>
    let (d, rest) ← value? (skipBlanks rest)
    return ((path, key, d), rest)
  | _ => none

/-- The assignments of a table on one line, of which there is at least one. -/
def pairs? (value? : ValueReader) : Nat → Members → List Char → Option (Document × List Char)
  | 0, _, _ => none
  | steps + 1, t, cs => do
    let ((path, key, d), rest) ← assignment? value? cs
    let t ← t.assign path key d
    match skipBlanks rest with
    | ',' :: rest => pairs? value? steps t rest
    | '\x7d' :: rest => return (.record (membersDocument t), rest)
    | _ => none

/-- A truth value. -/
def word? (cs : List Char) : Option (Document × List Char) :=
  if "true".toList.isPrefixOf cs then some (.bool true, cs.drop 4)
  else if "false".toList.isPrefixOf cs then some (.bool false, cs.drop 5)
  else none

/-- A value with arrays and tables at most `depth` deep. -/
def value? : Nat → ValueReader
  | depth, cs =>
    match cs with
    | '[' :: rest =>
      match depth with
      | 0 => none
      | depth + 1 => items? (value? depth) (rest.length + 1) [] rest
    | '\x7b' :: rest =>
      match depth with
      | 0 => none
      | depth + 1 =>
        match skipBlanks rest with
        | '\x7d' :: rest => some (.record [], rest)
        | rest => pairs? (value? depth) (rest.length + 1) [] rest
    | c :: _ =>
      if c = '"' || c = '\'' then (string? cs).map fun (s, rest) => (.text s, rest)
      else (word? cs).or ((moment? cs).or (number? cs))
    | [] => none

/-! ## Lines -/

/-- A header after its opening brackets, and what follows its closing ones. -/
def header? (element : Bool) (cs : List Char) : Option (Statement × List Char) := do
  let ((path, key), rest) ← key? cs
  match element, rest with
  | true, ']' :: ']' :: rest => return (.element path key, rest)
  | false, ']' :: rest => return (.table path key, rest)
  | _, _ => none

/-- The statement of a line, if it has one. -/
def statement? (cs : List Char) : Option (Option Statement × List Char) :=
  match skipBlanks cs with
  | [] => some (none, [])
  | '[' :: '[' :: rest => do
    let (s, rest) ← header? true rest
    return (some s, ← endLine? rest)
  | '[' :: rest => do
    let (s, rest) ← header? false rest
    return (some s, ← endLine? rest)
  | c :: rest =>
    if c = '#' || c = '\n' || c = '\r' then (endLine? (c :: rest)).map (none, ·)
    else do
      let ((path, key, d), rest) ← assignment? (value? 79) (c :: rest)
      return (some (.assign path key d), ← endLine? rest)

/-- All statements, newest first. The first argument bounds the number of lines. -/
def statements? : Nat → List Statement → List Char → Option (List Statement)
  | _, acc, [] => some acc
  | 0, _, _ => none
  | steps + 1, acc, cs => do
    let (s, rest) ← statement? cs
    statements? steps (s.toList ++ acc) rest

/-- A whole TOML text. -/
def parse? (s : String) : Option Document := do
  let cs := match s.toList with
    | '\ufeff' :: rest => rest
    | cs => cs
  documentOf? (← statements? cs.length [] cs).reverse

end TrialRouting.Document.Toml
