/-!
# TrialRouting.Tally

Counts by name, in ascending order of the names.
-/

namespace TrialRouting

/-- How often each name was counted. -/
abbrev Tally := List (String × Nat)

namespace Tally

/-- Counts a name `n` times more; a new name takes its place in the order. -/
def add (n : Nat) : Tally → String → Tally
  | [], name => [(name, n)]
  | (name', m) :: rest, name =>
    if name = name' then (name', m + n) :: rest
    else if name < name' then (name, n) :: (name', m) :: rest
    else (name', m) :: add n rest name

/-- Counts a name once more. -/
def increment (t : Tally) (name : String) : Tally :=
  t.add 1 name

def count (t : Tally) (name : String) : Nat :=
  ((t.find? (·.1 == name)).map (·.2)).getD 0

def total : Tally → Nat
  | [] => 0
  | (_, n) :: t => n + total t

theorem total_add (n : Nat) (t : Tally) (name : String) :
    (add n t name).total = t.total + n := by
  induction t with
  | nil => simp [add, total]
  | cons x xs ih =>
    obtain ⟨name', m⟩ := x
    simp only [add]
    split
    · simp only [total]
      omega
    · split
      · simp only [total]
        omega
      · simp only [total] at ih ⊢
        omega

end Tally

end TrialRouting
