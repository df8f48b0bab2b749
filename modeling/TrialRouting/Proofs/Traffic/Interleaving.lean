import TrialRouting.Proofs.Traffic.Orderly

/-!
# TrialRouting.Proofs.Traffic.Interleaving

An interleaving is an endless run of traffic: a choice for every moment.  What
happens at moment `n` is `event n`, and leads from `traffic n` to
`traffic (n + 1)`.  As the choices are arbitrary, what holds of all moments of
all interleavings holds in every state that traffic can reach.

The course of a caller says where it is at each moment from its call on:

* `exists_course` — every call begins a course that goes by moves only;
* `exists_course_of_caller?` — every caller is on the course that its call began;
* `calls_unique` — no caller calls twice.
-/

namespace TrialRouting

open DecisionCache

variable {σ : Type}

/-- What happens from an empty cache on. -/
structure Interleaving (σ : Type) where
  capacity : Nat
  state : σ
  choices : Nat → Choice σ

namespace Interleaving

variable (H : Interleaving σ)

/-- The traffic after the given number of choices. -/
def traffic : Nat → Traffic σ
  | 0 => .start H.capacity H.state
  | n + 1 => (traffic n).next (H.choices n)

/-- What happens at the moment. -/
def event (n : Nat) : Occurrence σ :=
  (H.traffic n).occurrence (H.choices n)

/-- The decision that is cached at the moment. -/
def entry (key : DecisionKey) (n : Nat) : Option Decision :=
  (H.traffic n).entry key

/-- Somebody makes the decision of the key at the moment. -/
def flying (key : DecisionKey) (n : Nat) : Bool :=
  (H.traffic n).crowd.flights.contains key

/-- The caller has been cancelled by the moment. -/
def cancelled (i n : Nat) : Bool :=
  ((H.traffic n).caller? i).any (·.token.cancelled)

/-- The entry of the key is there and is gone at the next moment. -/
def Removes (key : DecisionKey) (n : Nat) : Prop :=
  (H.entry key n).isSome ∧ H.entry key (n + 1) = none

/-! ## One moment to the next -/

theorem orderly (n : Nat) : (H.traffic n).Orderly := by
  induction n with
  | zero => exact Traffic.orderly_start H.capacity H.state
  | succ n ih => exact ih.next (H.choices n)

theorem flights_succ (n : Nat) :
    (H.traffic (n + 1)).crowd.flights = (H.event n).flights (H.traffic n).crowd.flights :=
  (H.orderly n).flights_next (H.choices n)

theorem entry_succ (key : DecisionKey) (n : Nat) :
    H.entry key (n + 1) = (H.event n).entry key (H.entry key n) ∨
      H.event n = .quiet ∧ H.entry key (n + 1) = none :=
  (H.orderly n).entry_next (H.choices n) key

/-- An entry changes as the occurrence says if the occurrence is not quiet. -/
theorem entry_succ_of_ne_quiet {n : Nat} (h : H.event n ≠ .quiet) (key : DecisionKey) :
    H.entry key (n + 1) = (H.event n).entry key (H.entry key n) := by
  obtain heq | ⟨hquiet, _⟩ := H.entry_succ key n
  · exact heq
  · exact absurd hquiet h

/-! ## The course of a caller -/

/-- The caller is at the position at the moment. -/
def IsAt (i : Nat) (key : DecisionKey) (resolve : Work σ Decision) (n : Nat)
    (pos : Position σ) : Prop :=
  ∃ m, (H.traffic n).caller? i = some m ∧ pos.Shows key resolve m

/-- From its call at moment `l` on, caller `i` with the key and the resolver is at `pos n` at
moment `n`, and goes from one position to the next by a move. -/
structure Course (i : Nat) (key : DecisionKey) (resolve : Work σ Decision) (l : Nat)
    (pos : Nat → Position σ) : Prop where
  calls : H.event l = .calls i key resolve
  enters : pos (l + 1) = .entering
  shows : ∀ n, l < n → H.IsAt i key resolve n (pos n)
  moves : ∀ n, l < n → Advance i key resolve (H.entry key n) (H.flying key n) (H.cancelled i n)
    (H.event n) (pos n) (pos (n + 1))

variable {H} {i l n : Nat} {key : DecisionKey} {resolve : Work σ Decision}

/-- A call brings a caller. -/
theorem caller?_of_calls (h : H.event l = .calls i key resolve) :
    (H.traffic l).caller? i = none ∧
      (H.traffic (l + 1)).caller? i = some (Traffic.newcomer key resolve) := by
  cases hm : (H.traffic l).caller? i with
  | none =>
      refine ⟨rfl, ?_⟩
      obtain ⟨_, hother⟩ | ⟨key', resolve', ho, hnew⟩ :=
        (H.orderly l).next_of_none (H.choices l) hm
      · exact absurd (congrArg Occurrence.caller? h) hother
      · have heq : Occurrence.calls i key' resolve' = .calls i key resolve := ho.symm.trans h
        cases heq
        exact hnew
  | some m =>
      obtain ⟨key', resolve', pos, hs⟩ := H.orderly l i m hm
      obtain ⟨_, _, _, _, hadvance⟩ := (H.orderly l).advance_next (H.choices l) hm hs
      have ho : (H.traffic l).occurrence (H.choices l) = .calls i key resolve := h
      rw [ho] at hadvance
      cases hadvance with
      | stays _ hne _ => exact absurd rfl hne

/-- A caller at a position moves to another one. -/
theorem IsAt.exists_advance {pos : Position σ} (h : H.IsAt i key resolve n pos) :
    ∃ pos', H.IsAt i key resolve (n + 1) pos' ∧
      Advance i key resolve (H.entry key n) (H.flying key n) (H.cancelled i n) (H.event n)
        pos pos' := by
  obtain ⟨m, hm, hs⟩ := h
  obtain ⟨m', pos', hm', hs', hadvance⟩ := (H.orderly n).advance_next (H.choices n) hm hs
  have hc : H.cancelled i n = m.token.cancelled := by
    unfold cancelled
    rw [hm]
    rfl
  exact ⟨pos', ⟨m', hm', hs'⟩, hc ▸ hadvance⟩

/-- **Every call begins a course.**  It is put together from the moves, one after another. -/
theorem exists_course (h : H.event l = .calls i key resolve) :
    ∃ pos, H.Course i key resolve l pos := by
  have hnew : H.IsAt i key resolve (l + 1) .entering :=
    ⟨_, (caller?_of_calls h).2, Traffic.shows_newcomer key resolve⟩
  let At (k : Nat) : Type := { pos : Position σ // H.IsAt i key resolve (l + 1 + k) pos }
  let onward (k : Nat) (p : At k) : At (k + 1) :=
    ⟨p.2.exists_advance.choose, p.2.exists_advance.choose_spec.1⟩
  let course (k : Nat) : At k := Nat.rec ⟨.entering, hnew⟩ onward k
  have hmove (k : Nat) : Advance i key resolve (H.entry key (l + 1 + k)) (H.flying key (l + 1 + k))
      (H.cancelled i (l + 1 + k)) (H.event (l + 1 + k)) (course k).1 (course (k + 1)).1 :=
    (course k).2.exists_advance.choose_spec.2
  refine ⟨fun n => (course (n - (l + 1))).1, h, ?_, ?_, ?_⟩
  · exact congrArg (fun k => (course k).1) (Nat.sub_self (l + 1))
  · intro n hn
    obtain ⟨k, rfl⟩ := Nat.exists_eq_add_of_le (Nat.succ_le_of_lt hn)
    show H.IsAt i key resolve (l + 1 + k) (course (l + 1 + k - (l + 1))).1
    rw [Nat.add_sub_cancel_left]
    exact (course k).2
  · intro n hn
    obtain ⟨k, rfl⟩ := Nat.exists_eq_add_of_le (Nat.succ_le_of_lt hn)
    show Advance _ _ _ _ _ _ _ (course (l + 1 + k - (l + 1))).1
      (course (l + 1 + (k + 1) - (l + 1))).1
    rw [Nat.add_sub_cancel_left, Nat.add_sub_cancel_left]
    exact hmove k

/-- Every caller has called. -/
theorem exists_calls_of_caller? {m : Member σ (Option Decision)}
    (hm : (H.traffic n).caller? i = some m) :
    ∃ l key resolve, l < n ∧ H.event l = .calls i key resolve := by
  induction n generalizing m with
  | zero => simp [traffic, Traffic.start, Traffic.caller?, Crowd.gather] at hm
  | succ n ih =>
      cases hm' : (H.traffic n).caller? i with
      | none =>
          obtain ⟨hnone, _⟩ | ⟨key, resolve, ho, _⟩ :=
            (H.orderly n).next_of_none (H.choices n) hm'
          · have hsome : (H.traffic (n + 1)).caller? i = none := hnone
            rw [hsome] at hm
            cases hm
          · exact ⟨n, key, resolve, Nat.lt_succ_self n, ho⟩
      | some m' =>
          obtain ⟨l, key, resolve, hl, hcalls⟩ := ih hm'
          exact ⟨l, key, resolve, Nat.lt_succ_of_lt hl, hcalls⟩

/-- Every caller is on the course that its call began. -/
theorem exists_course_of_caller? {m : Member σ (Option Decision)}
    (hm : (H.traffic n).caller? i = some m) :
    ∃ l key resolve pos, l < n ∧ H.Course i key resolve l pos := by
  obtain ⟨l, key, resolve, hl, hcalls⟩ := exists_calls_of_caller? hm
  obtain ⟨pos, hcourse⟩ := exists_course hcalls
  exact ⟨l, key, resolve, pos, hl, hcourse⟩

/-- What happens to a caller other than its call happens on a course. -/
theorem exists_course_of_event (h : (H.event n).caller? = some i)
    (hcall : ∀ key resolve, H.event n ≠ .calls i key resolve) :
    ∃ l key resolve pos, l < n ∧ H.Course i key resolve l pos := by
  cases hm : (H.traffic n).caller? i with
  | none =>
      obtain ⟨_, hother⟩ | ⟨key, resolve, ho, _⟩ := (H.orderly n).next_of_none (H.choices n) hm
      · exact absurd h hother
      · exact absurd ho (hcall key resolve)
  | some m => exact exists_course_of_caller? hm

/-- No caller calls twice. -/
theorem calls_unique {l' : Nat} {key' : DecisionKey} {resolve' : Work σ Decision}
    (h : H.event l = .calls i key resolve) (h' : H.event l' = .calls i key' resolve') : l = l' := by
  have hle : ∀ {a b : Nat} {ka kb : DecisionKey} {ra rb : Work σ Decision},
      H.event a = .calls i ka ra → H.event b = .calls i kb rb → ¬ a < b := by
    intro a b ka kb ra rb ha hb hlt
    obtain ⟨pos, hcourse⟩ := exists_course ha
    obtain ⟨m, hm, _⟩ := hcourse.shows b hlt
    rw [(caller?_of_calls hb).1] at hm
    cases hm
  have h₁ := hle h h'
  have h₂ := hle h' h
  omega

end Interleaving

end TrialRouting
