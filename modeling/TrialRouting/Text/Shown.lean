import TrialRouting.Text.Quoted

/-!
# TrialRouting.Text.Shown

The text by which a value is shown to people who debug: a record is its type's name and its fields
in braces, a wrapper its name and its parts in parentheses, a list its items in brackets. The parts
of a shown value are shown values themselves.
-/

namespace TrialRouting.Text

/-- Items with a comma and a blank between them. -/
def commaSeparated (items : List String) : String :=
  ", ".intercalate items

/-- The fields of a record, each `name: value`. -/
def shownFields (fields : List (String × String)) : String :=
  commaSeparated (fields.map fun f => f.1 ++ ": " ++ f.2)

/-- A record with all its fields. -/
def shownRecord (name : String) (fields : List (String × String)) : String :=
  name ++ " \x7b " ++ shownFields fields ++ " \x7d"

/-- A record that shows only some of its fields, which two dots tell. -/
def shownPartly (name : String) (fields : List (String × String)) : String :=
  name ++ " \x7b " ++ shownFields fields ++ ", .. \x7d"

/-- A named wrapper around one value. -/
def shownWrapped (name value : String) : String :=
  name ++ "(" ++ value ++ ")"

/-- A list of values. -/
def shownList (items : List String) : String :=
  "[" ++ commaSeparated items ++ "]"

/-- A map as `key: value` pairs in braces. -/
def shownMap (entries : List (String × String)) : String :=
  "\x7b" ++ shownFields entries ++ "\x7d"

/-- A value that may be missing. -/
def shownOption (value : Option String) : String :=
  match value with
  | none => "None"
  | some value => shownWrapped "Some" value

/-- A truth value. -/
def shownBool (b : Bool) : String :=
  if b then "true" else "false"

end TrialRouting.Text
