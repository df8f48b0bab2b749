import TrialRouting.Tally
import Mathlib.Data.String.Basic

/-!
# TrialRouting.Proofs.Tally

What counting leaves in a tally.  A tally is looked up from its beginning, so a
name must not be listed twice; counting keeps the names in strictly ascending
order (`Ascending.add`).  Then a name is counted where it stands, and no other
count changes (`count_add`).  Names that are counted one after the other add up
(`count_addEach`, `total_addEach`), and no other name gets into the tally
(`mem_names_addEach`).  A tally is determined by its names and their counts
(`eq_map_count`).
-/

namespace TrialRouting.Tally

variable {t : Tally} {name name' : String} {n : Nat}

/-- The names are listed in ascending order, each of them once. -/
def Ascending (t : Tally) : Prop :=
  t.Pairwise fun x y => x.1 < y.1

theorem ascending_nil : Ascending [] := .nil

/-! ## Counting one name -/

/-- Counting brings its name into a tally, and takes no other one out of it. -/
theorem mem_names_add :
    name' ∈ (add n t name).map Prod.fst ↔ name' = name ∨ name' ∈ t.map Prod.fst := by
  induction t with
  | nil => simp [add]
  | cons y t ih =>
      obtain ⟨first, m⟩ := y
      simp only [add]
      split
      · next heq => simp [heq]
      · split
        · simp
        · rw [List.map_cons, List.mem_cons, ih, List.map_cons, List.mem_cons]
          tauto

theorem mem_of_mem_add {x : String × Nat} (h : x ∈ add n t name) :
    x.1 = name ∨ ∃ m, (x.1, m) ∈ t := by
  obtain heq | hmem := mem_names_add.mp (List.mem_map_of_mem h)
  · exact .inl heq
  · obtain ⟨y, hy, heq⟩ := List.mem_map.mp hmem
    exact .inr ⟨y.2, heq ▸ hy⟩

theorem Ascending.add (h : Ascending t) : Ascending (add n t name) := by
  induction t with
  | nil => exact List.pairwise_singleton _ _
  | cons y t ih =>
      obtain ⟨name', m⟩ := y
      obtain ⟨hfirst, hrest⟩ := List.pairwise_cons.mp h
      simp only [Tally.add]
      split
      · exact List.pairwise_cons.mpr ⟨hfirst, hrest⟩
      · next hne =>
          split
          · next hlt =>
              refine List.pairwise_cons.mpr ⟨fun x hx => ?_, h⟩
              obtain rfl | hx := List.mem_cons.mp hx
              · exact hlt
              · exact lt_trans hlt (hfirst x hx)
          · next hle =>
              have hlt : name' < name := lt_of_le_of_ne (not_lt.mp hle) (Ne.symm hne)
              refine List.pairwise_cons.mpr ⟨fun x hx => ?_, ih hrest⟩
              obtain heq | ⟨k, hk⟩ := mem_of_mem_add hx
              · exact heq ▸ hlt
              · exact hfirst (x.1, k) hk

theorem count_cons (y : String × Nat) (t : Tally) (name : String) :
    count (y :: t) name = if y.1 = name then y.2 else t.count name := by
  unfold count
  by_cases h : y.1 = name <;> simp [h]

theorem count_eq_zero (h : ∀ x ∈ t, x.1 ≠ name) : t.count name = 0 := by
  have hnone : t.find? (·.1 == name) = none := List.find?_eq_none.mpr (by simpa using h)
  simp [count, hnone]

/-- Counting a name changes its count, and no other one. -/
theorem count_add (h : Ascending t) :
    (add n t name).count name' = t.count name' + if name = name' then n else 0 := by
  induction t with
  | nil =>
      rw [add, count_cons]
      exact (Nat.zero_add _).symm
  | cons y t ih =>
      obtain ⟨first, m⟩ := y
      obtain ⟨hfirst, hrest⟩ := List.pairwise_cons.mp h
      simp only [add]
      split
      · next heq =>
          subst heq
          by_cases hname : name = name' <;> simp [count_cons, hname]
      · next hne =>
          split
          · next hlt =>
              by_cases hname : name = name'
              · subst hname
                have hzero : Tally.count ((first, m) :: t) name = 0 := by
                  refine count_eq_zero fun x hx => ?_
                  obtain rfl | hx := List.mem_cons.mp hx
                  · exact hlt.ne'
                  · exact (lt_trans hlt (hfirst x hx)).ne'
                rw [count_cons, hzero]
                simp
              · simp [count_cons, hname]
          · rw [count_cons, count_cons, ih hrest]
            by_cases hfirst' : first = name'
            · have hname : name ≠ name' := fun heq => hne (heq.trans hfirst'.symm)
              simp [hfirst', hname]
            · simp [hfirst']

/-- A listed name has the count that is listed with it. -/
theorem count_of_mem (h : Ascending t) {x : String × Nat} (hx : x ∈ t) : t.count x.1 = x.2 := by
  induction t with
  | nil => cases hx
  | cons y t ih =>
      obtain ⟨hfirst, hrest⟩ := List.pairwise_cons.mp h
      rw [count_cons]
      obtain rfl | hx := List.mem_cons.mp hx
      · rw [if_pos rfl]
      · rw [if_neg (hfirst x hx).ne, ih hrest hx]

/-- A tally lists its names with their counts. -/
theorem eq_map_count (h : Ascending t) :
    t = (t.map Prod.fst).map fun name => (name, t.count name) := by
  have hentry (x : String × Nat) (hx : x ∈ t) : (x.1, t.count x.1) = x := by
    rw [count_of_mem h hx]
  calc
    t = t.map id := (List.map_id t).symm
    _ = t.map fun x => (x.1, t.count x.1) := List.map_congr_left fun x hx => (hentry x hx).symm
    _ = (t.map Prod.fst).map fun name => (name, t.count name) := by rw [List.map_map]; rfl

/-! ## Counting names one after the other -/

/-- Counts each of the names `n` times more. -/
def addEach (n : Nat) (t : Tally) (names : List String) : Tally :=
  names.foldl (add n) t

@[simp] theorem addEach_nil (n : Nat) (t : Tally) : t.addEach n [] = t := rfl

@[simp] theorem addEach_cons (n : Nat) (t : Tally) (name : String) (names : List String) :
    t.addEach n (name :: names) = (t.add n name).addEach n names := rfl

theorem Ascending.addEach (h : Ascending t) (n : Nat) (names : List String) :
    Ascending (t.addEach n names) := by
  induction names generalizing t with
  | nil => exact h
  | cons name names ih => exact ih h.add

theorem total_addEach (n : Nat) (t : Tally) (names : List String) :
    (t.addEach n names).total = t.total + n * names.length := by
  induction names generalizing t with
  | nil => rfl
  | cons name names ih =>
      rw [addEach_cons, ih, total_add, List.length_cons, Nat.mul_succ]
      omega

theorem count_addEach (h : Ascending t) (n : Nat) (names : List String) :
    (t.addEach n names).count name = t.count name + n * names.count name := by
  induction names generalizing t with
  | nil => rfl
  | cons first names ih =>
      rw [addEach_cons, ih h.add, count_add h, List.count_cons, Nat.mul_add]
      by_cases hfirst : first = name
      · simp only [hfirst, beq_self_eq_true, if_true, Nat.mul_one]
        omega
      · simp [hfirst]

theorem mem_names_addEach {names : List String} :
    name ∈ (t.addEach n names).map Prod.fst ↔ name ∈ names ∨ name ∈ t.map Prod.fst := by
  induction names generalizing t with
  | nil => simp
  | cons first names ih =>
      rw [addEach_cons, ih, mem_names_add, List.mem_cons]
      tauto

/-- Counts each of the names once more. -/
def addAll (t : Tally) (names : List String) : Tally :=
  names.foldl increment t

theorem addAll_eq_addEach (t : Tally) (names : List String) : t.addAll names = t.addEach 1 names :=
  rfl

@[simp] theorem addAll_nil (t : Tally) : t.addAll [] = t := rfl

@[simp] theorem addAll_cons (t : Tally) (name : String) (names : List String) :
    t.addAll (name :: names) = (t.increment name).addAll names := rfl

theorem Ascending.addAll (h : Ascending t) (names : List String) : Ascending (t.addAll names) :=
  h.addEach 1 names

theorem total_addAll (t : Tally) (names : List String) :
    (t.addAll names).total = t.total + names.length := by
  rw [addAll_eq_addEach, total_addEach, Nat.one_mul]

theorem count_addAll (h : Ascending t) (names : List String) :
    (t.addAll names).count name = t.count name + names.count name := by
  rw [addAll_eq_addEach, count_addEach h, Nat.one_mul]

theorem mem_of_mem_addAll {names : List String} {x : String × Nat} (h : x ∈ t.addAll names) :
    x.1 ∈ names ∨ ∃ m, (x.1, m) ∈ t := by
  obtain hname | hmem := mem_names_addEach.mp (List.mem_map_of_mem h)
  · exact .inl hname
  · obtain ⟨y, hy, heq⟩ := List.mem_map.mp hmem
    exact .inr ⟨y.2, heq ▸ hy⟩

end TrialRouting.Tally
