import Mathlib.Data.List.Nodup

/-!
# TrialRouting.Proofs.Register

Lists that are kept by key.  The index of the cache keeps the contracts of each
scope in this way, and the kill switch the disabled trials of each contract: a
key has at most one list, and none rather than an empty one.

* `lookup_replace` — replacing the list of a key changes what is found for that
  key, and for no other;
* `Tidy.replace` — a register of which each key has one list, without
  repetition and not empty, stays one;
* `Tidy.mem_iff` — such a register is determined by what is found in it.
-/

namespace TrialRouting

/-- Lists by key. -/
abbrev Register (κ β : Type) := List (κ × List β)

namespace Register

variable {κ β : Type}

/-- A key has one list, which has each of its items once, and no list is kept for no items. -/
structure Tidy (r : Register κ β) : Prop where
  nodup : (r.map (·.1)).Nodup
  distinct : ∀ e ∈ r, e.2.Nodup
  nonempty : ∀ e ∈ r, e.2 ≠ []

theorem tidy_nil : Tidy ([] : Register κ β) :=
  ⟨List.nodup_nil, nofun, nofun⟩

/-! ## Entries -/

/-- What is kept for the other keys is found as before. -/
theorem find?_filter_ne [DecidableEq κ] [BEq κ] [LawfulBEq κ] (entries : List (κ × β))
    (key key' : κ) :
    (entries.filter (·.1 != key)).find? (·.1 == key') =
      if key' = key then none else entries.find? (·.1 == key') := by
  induction entries with
  | nil => simp
  | cons e es ih =>
      by_cases he : e.1 = key
      · rw [List.filter_cons_of_neg (by simp [he]), ih]
        by_cases hk : key' = key
        · simp [hk]
        · have hne : (e.1 == key') = false := by simpa [he] using fun h => hk h.symm
          simp [hk, hne]
      · rw [List.filter_cons_of_pos (by simp [he]), List.find?_cons, List.find?_cons, ih]
        by_cases hk : key' = key
        · subst hk
          have hne : (e.1 == key') = false := by simpa using he
          simp [hne]
        · simp [hk]

/-! ## Lists by key -/

variable [DecidableEq κ] {r : Register κ β} {key key' : κ} {xs : List β}

/-- The list of a key, empty if there is none. -/
def lookup (r : Register κ β) (key : κ) : List β :=
  ((r.find? (·.1 == key)).map (·.2)).getD []

/-- Replaces the list of a key; no list is kept for an empty one. -/
def replace (r : Register κ β) (key : κ) (xs : List β) : Register κ β :=
  let others := r.filter (·.1 != key)
  if xs.isEmpty then others else others ++ [(key, xs)]

theorem lookup_replace (r : Register κ β) (key key' : κ) (xs : List β) :
    (replace r key xs).lookup key' = if key' = key then xs else r.lookup key' := by
  unfold lookup replace
  cases xs with
  | nil =>
      simp only [List.isEmpty_nil, if_true, find?_filter_ne]
      split <;> rfl
  | cons x xs =>
      simp only [List.isEmpty_cons, Bool.false_eq_true, if_false, List.find?_append,
        find?_filter_ne]
      by_cases hk : key' = key
      · simp [hk]
      · have hne : (key == key') = false := by simpa using fun h => hk h.symm
        simp [hk, hne]

/-! ## Tidiness -/

theorem mem_replace_iff {e : κ × List β} :
    e ∈ replace r key xs ↔ e ∈ r ∧ e.1 ≠ key ∨ xs ≠ [] ∧ e = (key, xs) := by
  unfold replace
  cases xs <;> simp

theorem Tidy.replace (h : r.Tidy) (key : κ) (hxs : xs.Nodup) : Tidy (r.replace key xs) where
  nodup := by
    have hothers : ((r.filter (·.1 != key)).map (·.1)).Nodup :=
      h.nodup.sublist (List.filter_sublist.map _)
    unfold Register.replace
    cases xs with
    | nil => exact hothers
    | cons x xs =>
        have hfresh : key ∉ (r.filter (·.1 != key)).map (·.1) := by simp
        show ((r.filter (·.1 != key) ++ [(key, x :: xs)]).map (·.1)).Nodup
        rw [List.map_append]
        exact hothers.append (List.nodup_singleton key) (List.disjoint_singleton.mpr hfresh)
  distinct e he := by
    obtain ⟨hmem, -⟩ | ⟨-, rfl⟩ := mem_replace_iff.mp he
    · exact h.distinct e hmem
    · exact hxs
  nonempty e he := by
    obtain ⟨hmem, -⟩ | ⟨hsome, rfl⟩ := mem_replace_iff.mp he
    · exact h.nonempty e hmem
    · exact hsome

theorem Tidy.nodup_lookup (h : r.Tidy) (key : κ) : (r.lookup key).Nodup := by
  unfold Register.lookup
  cases hfound : r.find? (·.1 == key) with
  | none => exact List.nodup_nil
  | some e => exact h.distinct e (List.mem_of_find?_eq_some hfound)

/-- What is kept in a tidy register is found there. -/
theorem Tidy.lookup_of_mem (h : r.Tidy) {e : κ × List β} (he : e ∈ r) : r.lookup e.1 = e.2 := by
  have hfound : (r.find? (·.1 == e.1)).isSome :=
    List.find?_isSome.mpr ⟨e, he, beq_self_eq_true e.1⟩
  obtain ⟨e', he'⟩ := Option.isSome_iff_exists.mp hfound
  have hkey : e'.1 = e.1 := by simpa using List.find?_some he'
  obtain rfl : e' = e := List.inj_on_of_nodup_map h.nodup (List.mem_of_find?_eq_some he') he hkey
  simp [Register.lookup, he']

/-- A tidy register keeps the lists that are found in it. -/
theorem Tidy.mem_iff (h : r.Tidy) : (key, xs) ∈ r ↔ xs ≠ [] ∧ r.lookup key = xs := by
  constructor
  · intro hmem
    exact ⟨h.nonempty _ hmem, h.lookup_of_mem hmem⟩
  · rintro ⟨hsome, rfl⟩
    unfold Register.lookup at hsome ⊢
    cases hfound : r.find? (·.1 == key) with
    | none => simp [hfound] at hsome
    | some e =>
        have hkey : e.1 = key := by simpa using List.find?_some hfound
        have hmem := List.mem_of_find?_eq_some hfound
        rw [← hkey]
        exact hmem

end Register

end TrialRouting
