import TrialRouting.Selection.Sticky
import Mathlib.Data.List.Basic

/-!
# TrialRouting.Proofs.Sticky.HashInput

What the hash of a sticky routing is told about its experiment and its caller.
The input is the bytes of one text: the contract, a slash, the name of the
routing, a zero character and the identity (`hashInput_eq_utf8`).  Nothing marks
the slashes and zeros that belong to these parts, so a text that has several of
them can be taken apart at each (`join_eq_join_iff`).  Two inputs are the same
just if their parts are, or if they are one text that has been taken apart at
two places (`Subject.input_eq_iff`).

Within one experiment the salt is fixed, and identities are never confused.
-/

namespace TrialRouting.Sticky

/-! ## The bytes of a text -/

theorem toList_loop (b : ByteArray) (i : Nat) (r : List UInt8) :
    ByteArray.toList.loop b i r = r.reverse ++ b.data.toList.drop i := by
  fun_induction ByteArray.toList.loop b i r with
  | case1 i r hlt ih =>
      have hget : b.get! i = b.data.toList[i] := getElem!_pos b.data i hlt
      rw [ih, List.drop_eq_getElem_cons hlt, ← hget, List.reverse_cons, List.append_assoc]
      rfl
  | case2 i r hge =>
      have hall : b.data.toList.length ≤ i := Nat.le_of_not_lt hge
      rw [List.drop_eq_nil_of_le hall, List.append_nil]

theorem utf8_eq (s : String) : utf8 s = s.toByteArray.data.toList := by
  rw [utf8, ByteArray.toList, toList_loop]
  rfl

theorem utf8_append (a b : String) : utf8 (a ++ b) = utf8 a ++ utf8 b := by
  simp [utf8_eq]

theorem utf8_injective : Function.Injective utf8 := by
  intro a b h
  rw [utf8_eq, utf8_eq] at h
  exact String.toByteArray_inj.mp (ByteArray.ext (Array.toList_inj.mp h))

/-! ## Texts of two parts -/

/-- Two texts with a character in between. -/
def join (sep : Char) (a b : String) : String :=
  a ++ sep.toString ++ b

/-- A text that has the separator twice: taken apart at the first place it gives `a` and `b`, and at
the second one `a'` and `b'`. -/
def Reparts (sep : Char) (a b a' b' : String) : Prop :=
  ∃ between, a' = join sep a between ∧ b = join sep between b'

theorem toList_join (sep : Char) (a b : String) :
    (join sep a b).toList = a.toList ++ sep :: b.toList := by
  simp [join]

/-- Lists that are the same around a letter are taken apart at the same place or at two. -/
theorem append_cons_eq_append_cons_iff {α : Type} {x : α} {as bs as' bs' : List α} :
    as ++ x :: bs = as' ++ x :: bs' ↔
      (as = as' ∧ bs = bs') ∨ (∃ m, as' = as ++ x :: m ∧ bs = m ++ x :: bs') ∨
        ∃ m, as = as' ++ x :: m ∧ bs' = m ++ x :: bs := by
  constructor
  · intro h
    obtain ⟨m, has, hbs⟩ | ⟨m, has, hbs⟩ := List.append_eq_append_iff.mp h
    · cases m with
      | nil => exact .inl ⟨by simpa using has.symm, by simpa using hbs⟩
      | cons y m =>
          obtain ⟨rfl, rfl⟩ := List.cons.inj hbs
          exact .inr (.inl ⟨m, has, rfl⟩)
    · cases m with
      | nil => exact .inl ⟨by simpa using has, by simpa using hbs.symm⟩
      | cons y m =>
          obtain ⟨rfl, rfl⟩ := List.cons.inj hbs
          exact .inr (.inr ⟨m, has, rfl⟩)
  · rintro (⟨rfl, rfl⟩ | ⟨m, rfl, rfl⟩ | ⟨m, rfl, rfl⟩)
    · rfl
    · simp
    · simp

theorem reparts_iff {sep : Char} {a b a' b' : String} :
    Reparts sep a b a' b' ↔
      ∃ m, a'.toList = a.toList ++ sep :: m ∧ b.toList = m ++ sep :: b'.toList := by
  constructor
  · rintro ⟨between, rfl, rfl⟩
    exact ⟨between.toList, toList_join .., toList_join ..⟩
  · rintro ⟨m, ha, hb⟩
    refine ⟨String.ofList m, String.toList_inj.mp ?_, String.toList_inj.mp ?_⟩
    · rw [ha, toList_join, String.toList_ofList]
    · rw [hb, toList_join, String.toList_ofList]

/-- **Two joined texts are the same** just if their parts are, or one text is taken apart at two
places. -/
theorem join_eq_join_iff {sep : Char} {a b a' b' : String} :
    join sep a b = join sep a' b' ↔
      (a = a' ∧ b = b') ∨ Reparts sep a b a' b' ∨ Reparts sep a' b' a b := by
  rw [← String.toList_inj, toList_join, toList_join, append_cons_eq_append_cons_iff,
    String.toList_inj, String.toList_inj, reparts_iff, reparts_iff]

theorem Reparts.mem {sep : Char} {a b a' b' : String} (h : Reparts sep a b a' b') :
    sep ∈ a'.toList ∧ sep ∈ b.toList := by
  obtain ⟨m, ha, hb⟩ := reparts_iff.mp h
  exact ⟨by simp [ha], by simp [hb]⟩

theorem Reparts.ne {sep : Char} {a b a' b' : String} (h : Reparts sep a b a' b') : a ≠ a' := by
  rintro rfl
  obtain ⟨m, ha, -⟩ := reparts_iff.mp h
  have hlength := congrArg List.length ha
  rw [List.length_append, List.length_cons] at hlength
  omega

/-! ## The hash input -/

theorem salt_eq_join (contract : ContractId) (name : String) :
    salt contract name = join '/' contract.text name := rfl

theorem hashInput_eq_utf8 (salt identity : String) :
    hashInput salt identity = utf8 (join '\x00' salt identity) := by
  have hzero : utf8 (Char.toString '\x00') = [0] := by
    rw [utf8_eq]
    rfl
  rw [join, utf8_append, utf8_append, hzero, hashInput, List.append_assoc]
  rfl

/-- Whom a sticky routing is asked about: an identity, by the name of the routing, for a contract. -/
structure Subject where
  contract : ContractId
  name : String
  identity : String

namespace Subject

def salt (p : Subject) : String :=
  Sticky.salt p.contract p.name

/-- What is hashed for the subject. -/
def input (p : Subject) : List UInt8 :=
  hashInput p.salt p.identity

/-- The text of one subject is also that of another, which ends its contract at a later slash or its
salt at a later zero. -/
inductive ReadsAs (p q : Subject) : Prop where
  | slash : p.identity = q.identity → Reparts '/' p.contract.text p.name q.contract.text q.name →
    ReadsAs p q
  | zero : Reparts '\x00' p.salt p.identity q.salt q.identity → ReadsAs p q

/-- The separators mark the ends of the parts: the contract has no slash, and neither it nor the name
has a zero. -/
structure Plain (p : Subject) : Prop where
  slash : '/' ∉ p.contract.text.toList
  zero : '\x00' ∉ p.salt.toList

variable {p q : Subject}

theorem ReadsAs.ne (h : p.ReadsAs q) : p ≠ q := by
  rintro rfl
  cases h with
  | slash _ h => exact h.ne rfl
  | zero h => exact h.ne rfl

theorem ReadsAs.not_plain (h : p.ReadsAs q) : ¬ q.Plain := by
  intro hplain
  cases h with
  | slash _ h => exact hplain.slash h.mem.1
  | zero h => exact hplain.zero h.mem.1

theorem salt_eq_iff : p.salt = q.salt ↔ (p.contract = q.contract ∧ p.name = q.name) ∨
    Reparts '/' p.contract.text p.name q.contract.text q.name ∨
    Reparts '/' q.contract.text q.name p.contract.text p.name := by
  have hcontract : p.contract.text = q.contract.text ↔ p.contract = q.contract := by
    cases p.contract
    cases q.contract
    simp
  rw [salt, salt, salt_eq_join, salt_eq_join, join_eq_join_iff, hcontract]

theorem input_eq_iff : p.input = q.input ↔ p = q ∨ p.ReadsAs q ∨ q.ReadsAs p := by
  rw [input, input, hashInput_eq_utf8, hashInput_eq_utf8, utf8_injective.eq_iff, join_eq_join_iff,
    salt_eq_iff]
  constructor
  · rintro (⟨⟨hcontract, hname⟩ | hslash | hslash, hidentity⟩ | hzero | hzero)
    · cases p
      cases q
      cases hcontract
      cases hname
      cases hidentity
      exact .inl rfl
    · exact .inr (.inl (.slash hidentity hslash))
    · exact .inr (.inr (.slash hidentity.symm hslash))
    · exact .inr (.inl (.zero hzero))
    · exact .inr (.inr (.zero hzero))
  · rintro (rfl | (⟨hidentity, hslash⟩ | hzero) | ⟨hidentity, hslash⟩ | hzero)
    · exact .inl ⟨.inl ⟨rfl, rfl⟩, rfl⟩
    · exact .inl ⟨.inr (.inl hslash), hidentity⟩
    · exact .inr (.inl hzero)
    · exact .inl ⟨.inr (.inr hslash), hidentity.symm⟩
    · exact .inr (.inr hzero)

/-- **Which subjects share their hash input**: just those whose texts are one text, taken apart at
different slashes or different zeros.  They are always subjects of different experiments, and not both
of them are plain. -/
theorem shared_input_iff (p q : Subject) :
    (p ≠ q ∧ p.input = q.input ↔ p.ReadsAs q ∨ q.ReadsAs p) ∧
      (p.contract = q.contract → p.name = q.name → p.input = q.input → p = q) ∧
      (p.Plain → q.Plain → p.input = q.input → p = q) := by
  refine ⟨⟨?_, ?_⟩, ?_, ?_⟩
  · rintro ⟨hne, hinput⟩
    exact (input_eq_iff.mp hinput).resolve_left hne
  · intro h
    refine ⟨?_, input_eq_iff.mpr (.inr h)⟩
    obtain h | h := h
    · exact h.ne
    · exact h.ne.symm
  · intro hcontract hname hinput
    obtain ⟨contract, name, identity⟩ := p
    obtain ⟨contract', name', identity'⟩ := q
    cases hcontract
    cases hname
    have hidentity := utf8_injective (List.cons.inj (List.append_cancel_left hinput)).2
    cases hidentity
    rfl
  · intro hp hq hinput
    obtain h | h | h := input_eq_iff.mp hinput
    · exact h
    · exact absurd hq h.not_plain
    · exact absurd hp h.not_plain

/-- Experiments that share their hash inputs: the EU ranker of the shop is the ranker of the shop in the
EU, and a zero in an identity is taken for the end of the name. -/
theorem shared_input_shop :
    ((⟨⟨"shop"⟩, "eu/ranker", "alice"⟩ : Subject) ≠ ⟨⟨"shop/eu"⟩, "ranker", "alice"⟩ ∧
      input ⟨⟨"shop"⟩, "eu/ranker", "alice"⟩ = input ⟨⟨"shop/eu"⟩, "ranker", "alice"⟩) ∧
    ((⟨⟨"shop"⟩, "ranker", "a\x00b"⟩ : Subject) ≠ ⟨⟨"shop"⟩, "ranker\x00a", "b"⟩ ∧
      input ⟨⟨"shop"⟩, "ranker", "a\x00b"⟩ = input ⟨⟨"shop"⟩, "ranker\x00a", "b"⟩) := by
  have hslash : ReadsAs ⟨⟨"shop"⟩, "eu/ranker", "alice"⟩ ⟨⟨"shop/eu"⟩, "ranker", "alice"⟩ :=
    .slash rfl ⟨"eu", by decide, by decide⟩
  have hzero : ReadsAs ⟨⟨"shop"⟩, "ranker", "a\x00b"⟩ ⟨⟨"shop"⟩, "ranker\x00a", "b"⟩ :=
    .zero ⟨"a", by decide, by decide⟩
  exact ⟨⟨hslash.ne, input_eq_iff.mpr (.inr (.inl hslash))⟩,
    hzero.ne, input_eq_iff.mpr (.inr (.inl hzero))⟩

end Subject

end TrialRouting.Sticky
