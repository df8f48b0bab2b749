import Mathlib.Data.List.Basic
import TrialRouting.Document.Form

/-!
# TrialRouting.Proofs.Form

The ways in which a value may be written.

* An alternative without contents is read alike from its name and from a record
  that gives the name an empty value (`unit?_record_null`).
* A structure is read alike from the list of its fields and from any record that
  gives the same fields (`Gives`): the order of the members does not matter, nor
  do members of other names (`fields?_record`).

`RoundTrips`, `SpeltAlike` and `GivenAlike` say the same of the reader of a type.
-/

namespace TrialRouting.Document

variable {α : Type} {dialect : Dialect} {names : List String} {values : List Document}
  {members : List (String × Document)}

/-! ## Numbers -/

/-- A number of 64 bits is read as it was written. -/
@[simp] theorem word?_integer (n : UInt64) : word? (.integer n.toNat) = some n := by
  have hn : n.toNat < UInt64.size := n.toNat_lt_size
  have hrange : (0 : Int) ≤ n.toNat ∧ (n.toNat : Int) < UInt64.size := by omega
  rw [word?, if_pos hrange]
  simp

/-! ## Alternatives -/

@[simp] theorem unit?_text (dialect : Dialect) (byName : String → Option α) (name : String) :
    unit? dialect byName (.text name) = byName name := by
  cases h : byName name <;> simp [unit?, alternative?, h]

theorem unit?_record_null (byName : String → Option α) (name : String) :
    unit? .json byName (.record [(name, .null)]) = unit? .json byName (.text name) := by
  cases h : byName name <;> simp [unit?, alternative?, Dialect.json, h]

/-! ## Structures -/

/-- The members give the first of the named fields these values, in any order; whatever else is
among them has another name. -/
def Gives (names : List String) (values : List Document) (members : List (String × Document)) :
    Prop :=
  ∃ others, members.Perm (names.zip values ++ others) ∧ ∀ m ∈ others, m.1 ∉ names

theorem member?_eq_getLast? (members : List (String × Document)) (name : String) :
    member? members name = ((members.filter (·.1 == name)).getLast?).map (·.2) := by
  rw [member?, ← List.head?_filter, List.filter_reverse, List.head?_reverse]

/-- A name that only one member has, if any, is read from it. -/
theorem member?_of_filter {d : Option Document} {name : String}
    (h : members.filter (·.1 == name) = (d.map (name, ·)).toList) : member? members name = d := by
  rw [member?_eq_getLast?, h]
  cases d <;> rfl

theorem filter_zip (hn : names.Nodup) (values : List Document) {i : Nat} (hi : i < names.length) :
    (names.zip values).filter (·.1 == names[i]) = (values[i]?.map (names[i], ·)).toList := by
  induction names generalizing values i with
  | nil => simp at hi
  | cons name names ih =>
      obtain ⟨hname, hn⟩ := List.nodup_cons.mp hn
      cases values with
      | nil => simp
      | cons value values =>
          rw [List.zip_cons_cons]
          cases i with
          | zero =>
              have hothers : ∀ m ∈ names.zip values, ¬ (m.1 == name) = true := by
                intro m hm hsame
                have hmem : m.1 ∈ names := (List.of_mem_zip hm).1
                exact hname (eq_of_beq hsame ▸ hmem)
              simp [List.filter_eq_nil_iff.mpr hothers]
          | succ i =>
              have hi : i < names.length := by simpa using hi
              have hne : name ≠ names[i] := fun h => hname (h ▸ List.getElem_mem hi)
              simpa [hne] using ih hn values hi

theorem Gives.filter (h : Gives names values members) (hn : names.Nodup) {i : Nat}
    (hi : i < names.length) :
    members.filter (·.1 == names[i]) = (values[i]?.map (names[i], ·)).toList := by
  obtain ⟨others, hperm, hothers⟩ := h
  have hnone : others.filter (·.1 == names[i]) = [] := by
    rw [List.filter_eq_nil_iff]
    intro m hm hsame
    exact hothers m hm (eq_of_beq hsame ▸ List.getElem_mem hi)
  have hfilter : (members.filter (·.1 == names[i])).Perm
      (values[i]?.map (names[i], ·)).toList := by
    have := hperm.filter (·.1 == names[i])
    rwa [List.filter_append, hnone, List.append_nil, filter_zip hn values hi] at this
  -- at most one element, so the order is the same
  cases hv : values[i]? with
  | none => simpa [hv] using hfilter
  | some value => simpa [hv] using hfilter

/-- **A structure** is read from a record as from the list of the fields that the record gives. -/
theorem fields?_record (hn : names.Nodup) (hlen : values.length ≤ names.length)
    (h : Gives names values members) :
    fields? dialect names (.record members) = fields? dialect names (.list values) := by
  have hread : names.map (member? members) = (List.range names.length).map (values[·]?) := by
    refine List.ext_getElem (by simp) fun i hi _ => ?_
    have hi : i < names.length := by simpa using hi
    simpa using member?_of_filter (h.filter hn hi)
  simp [fields?, hlen, hread]

/-! ## Readers -/

/-- What is written is read back. -/
def RoundTrips (encode : α → Document) (decode? : Document → Option α) : Prop :=
  ∀ x, decode? (encode x) = some x

/-- A list of values is read item by item. -/
theorem RoundTrips.mapM {encode : α → Document} {decode? : Document → Option α}
    (h : RoundTrips encode decode?) (xs : List α) : (xs.map encode).mapM decode? = some xs := by
  induction xs with
  | nil => rfl
  | cons x xs ih => simp [List.mapM_cons, h x, ih]

/-- A name alone is read like a record that gives it an empty value. -/
def SpeltAlike (decode? : Document → Option α) : Prop :=
  ∀ name, decode? (.text name) = decode? (.record [(name, .null)])

/-- A list of the first fields is read like every record that gives those fields, or both are
refused. -/
def GivenAlike (names : List String) (decode? : Document → Option α) : Prop :=
  ∀ values members, values.length ≤ names.length → Gives names values members →
    decode? (.record members) = decode? (.list values)

/-- A reader that looks at nothing but the fields reads both forms alike. -/
theorem GivenAlike.of_fields {read : List (Option Document) → Option α}
    {decode? : Document → Option α} (hn : names.Nodup)
    (hread : ∀ d, decode? d = (fields? dialect names d).bind read) : GivenAlike names decode? := by
  intro values members hlen hgives
  rw [hread, hread, fields?_record hn hlen hgives]

end TrialRouting.Document
