import TrialRouting.Document.Form
import TrialRouting.Name

/-!
# TrialRouting.Trial

A trial, and the trials of one experiment.

A `TrialSet` lists trials in the order of their registration. No key occurs twice, and exactly one
trial is the default one; both facts are part of the type, so look-ups are unambiguous and the
default always exists:

* `get?_eq_some_iff`: looking up a key finds the trial that has it;
* `contains_iff`: a key is contained if it is the key of a listed trial;
* `mem_keys_iff`: the keys are the default key and the others.
-/

namespace TrialRouting

open Text Document

/-! ## Trials -/

/-- One way to serve a contract, and the implementation that does it. -/
structure Trial where
  key : TrialKey
  isDefault : Bool
  implementation : ImplementationRef
  deriving DecidableEq, Repr, Inhabited

namespace Trial

def shown (t : Trial) : String :=
  shownRecord "Trial" [("key", t.key.shown), ("is_default", shownBool t.isDefault),
    ("implementation", t.implementation.shown)]

def encode (t : Trial) : Document :=
  .record [("key", t.key.encode), ("is_default", .bool t.isDefault),
    ("implementation", t.implementation.encode)]

def decode? (d : Document) : Option Trial := do
  match ← fields? .json ["key", "is_default", "implementation"] d with
  | [key, isDefault, implementation] =>
    let key ← required TrialKey.decode? key
    let isDefault ← required bool? isDefault
    let implementation ← required ImplementationRef.decode? implementation
    return ⟨key, isDefault, implementation⟩
  | _ => none

end Trial

/-! ## The trials of an experiment -/

/-- Trials with distinct keys, of which exactly one is the default. -/
structure TrialSet where
  trials : List Trial
  default : Trial
  nodup : (trials.map Trial.key).Nodup
  filter_isDefault : trials.filter Trial.isDefault = [default]

namespace TrialSet

/-- The trial of a key. -/
def get? (s : TrialSet) (key : TrialKey) : Option Trial :=
  s.trials.find? (·.key == key)

def contains (s : TrialSet) (key : TrialKey) : Bool :=
  s.trials.any (·.key == key)

def defaultKey (s : TrialSet) : TrialKey :=
  s.default.key

/-- All keys in the order of registration. -/
def keys (s : TrialSet) : List TrialKey :=
  s.trials.map Trial.key

/-- The keys of the trials that are not the default, in the order of registration. -/
def nonDefaultKeys (s : TrialSet) : List TrialKey :=
  (s.trials.filter (!·.isDefault)).map Trial.key

def size (s : TrialSet) : Nat :=
  s.trials.length

/-- The place of the default trial in the list. -/
def defaultIndex (s : TrialSet) : Nat :=
  s.trials.findIdx Trial.isDefault

def shown (s : TrialSet) : String :=
  shownRecord "TrialSet"
    [("trials", shownMap (s.trials.map fun t => (t.key.shown, t.shown))),
     ("default_index", toString s.defaultIndex)]

/-! ## Lemmas -/

theorem default_mem (s : TrialSet) : s.default ∈ s.trials := by
  have h : s.default ∈ s.trials.filter Trial.isDefault := by simp [s.filter_isDefault]
  exact (List.mem_filter.1 h).1

theorem isDefault_default (s : TrialSet) : s.default.isDefault := by
  have h : s.default ∈ s.trials.filter Trial.isDefault := by simp [s.filter_isDefault]
  exact (List.mem_filter.1 h).2

theorem eq_default_of_isDefault {s : TrialSet} {t : Trial} (h : t ∈ s.trials)
    (hd : t.isDefault) : t = s.default := by
  have h : t ∈ s.trials.filter Trial.isDefault := List.mem_filter.2 ⟨h, hd⟩
  simpa [s.filter_isDefault] using h

theorem defaultKey_mem_keys (s : TrialSet) : s.defaultKey ∈ s.keys :=
  List.mem_map_of_mem s.default_mem

theorem keys_nodup (s : TrialSet) : s.keys.Nodup :=
  s.nodup

theorem contains_iff {s : TrialSet} {key : TrialKey} : s.contains key ↔ key ∈ s.keys := by
  simp [contains, keys]

theorem eq_of_key_eq {ts : List Trial} (hn : (ts.map Trial.key).Nodup) {t u : Trial}
    (ht : t ∈ ts) (hu : u ∈ ts) (h : t.key = u.key) : t = u := by
  induction ts with
  | nil => simp at ht
  | cons x xs ih =>
    simp only [List.map_cons, List.nodup_cons, List.mem_map, not_exists, not_and] at hn
    rcases List.mem_cons.1 ht with rfl | ht' <;> rcases List.mem_cons.1 hu with rfl | hu'
    · rfl
    · exact absurd h.symm (hn.1 u hu')
    · exact absurd h (hn.1 t ht')
    · exact ih hn.2 ht' hu'

theorem get?_eq_some_iff {s : TrialSet} {key : TrialKey} {t : Trial} :
    s.get? key = some t ↔ t ∈ s.trials ∧ t.key = key := by
  constructor
  · intro h
    exact ⟨List.mem_of_find?_eq_some h, by simpa using List.find?_some h⟩
  · rintro ⟨ht, rfl⟩
    cases hf : s.get? t.key with
    | none =>
      have := List.find?_eq_none.1 hf t ht
      simp at this
    | some u =>
      have hu : u ∈ s.trials := List.mem_of_find?_eq_some hf
      have hk : u.key = t.key := by simpa using List.find?_some hf
      rw [eq_of_key_eq s.nodup hu ht hk]

theorem get?_isSome_iff {s : TrialSet} {key : TrialKey} : (s.get? key).isSome ↔ key ∈ s.keys := by
  simp [get?, keys]

theorem mem_keys_iff {s : TrialSet} {key : TrialKey} :
    key ∈ s.keys ↔ key = s.defaultKey ∨ key ∈ s.nonDefaultKeys := by
  constructor
  · intro h
    obtain ⟨t, ht, rfl⟩ := List.mem_map.1 h
    by_cases hd : t.isDefault
    · exact .inl (congrArg Trial.key (eq_default_of_isDefault ht hd))
    · exact .inr (List.mem_map_of_mem (List.mem_filter.2 ⟨ht, by simpa using hd⟩))
  · rintro (rfl | h)
    · exact s.defaultKey_mem_keys
    · obtain ⟨t, ht, rfl⟩ := List.mem_map.1 h
      exact List.mem_map_of_mem (List.mem_filter.1 ht).1

theorem defaultKey_notMem_nonDefaultKeys (s : TrialSet) : s.defaultKey ∉ s.nonDefaultKeys := by
  intro h
  obtain ⟨t, ht, hk⟩ := List.mem_map.1 h
  obtain ⟨ht, hd⟩ := List.mem_filter.1 ht
  have : t = s.default := eq_of_key_eq s.nodup ht s.default_mem hk
  subst this
  simp [s.isDefault_default] at hd

end TrialSet

end TrialRouting
