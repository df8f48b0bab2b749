/-!
# TrialRouting.Text.Column

Texts in columns. A column is so many characters wide; a longer text sticks out of it.
-/

namespace TrialRouting.Text

/-- The blanks that a text leaves of a column. -/
def blanks (width : Nat) (s : String) : String :=
  String.ofList (List.replicate (width - s.length) ' ')

/-- A text at the left of its column. -/
def leftIn (width : Nat) (s : String) : String :=
  s ++ blanks width s

/-- A text at the right of its column. -/
def rightIn (width : Nat) (s : String) : String :=
  blanks width s ++ s

end TrialRouting.Text
