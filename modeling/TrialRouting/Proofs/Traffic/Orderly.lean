import TrialRouting.Proofs.Traffic.Caller

/-!
# TrialRouting.Proofs.Traffic.Orderly

What a choice makes of traffic in which every caller is at some position.

* `Orderly.flights_next`, `Orderly.entry_next` — the flights and the entries
  change as the occurrence says, save that an entry may be dropped;
* `Orderly.advance_next` — whatever is chosen, every caller makes a move;
* `Orderly.next_of_none` — nobody comes but by a call;
* `Orderly.next` — so the traffic stays orderly.
-/

namespace TrialRouting.Traffic

variable {σ : Type} {t : Traffic σ} {i : Nat} {key : DecisionKey}

/-- Every caller is at some position. -/
def Orderly (t : Traffic σ) : Prop :=
  ∀ i m, t.caller? i = some m → ∃ key resolve, ∃ pos : Position σ, pos.Shows key resolve m

theorem orderly_start (capacity : Nat) (state : σ) : (start capacity state).Orderly := by
  intro i m hm
  simp [caller?, start, Crowd.gather] at hm

theorem shows_newcomer (key : DecisionKey) (resolve : Work σ Decision) :
    Position.entering.Shows key resolve (newcomer key resolve) :=
  ⟨rfl, rfl, False.elim⟩

/-! ## Steps of callers -/

/-- A step of a caller is about nobody else. -/
theorem caller?_stepOf (t : Traffic σ) (i : Nat) (m : Member σ (Option Decision)) :
    (t.stepOf i m).caller? = none ∨ (t.stepOf i m).caller? = some i := by
  unfold stepOf
  split
  · split
    · exact .inr rfl
    · exact .inl rfl
  · exact .inr rfl
  · exact .inr rfl
  · exact .inr rfl
  · exact .inl rfl

theorem caller?_occurrence_go {j : Nat} {m : Member σ (Option Decision)}
    (hm : t.caller? i = some m) (hj : j ≠ i) : (t.occurrence (.go i)).caller? ≠ some j := by
  rw [occurrence_go hm]
  intro ho
  obtain hnone | hself := caller?_stepOf t i m
  · rw [ho] at hnone
    cases hnone
  · rw [ho] at hself
    exact hj (Option.some.inj hself)

/-- The step of a caller at a position has an effect. -/
theorem Orderly.effect_go {m : Member σ (Option Decision)} (h : t.Orderly)
    (hm : t.caller? i = some m) :
    ∃ m', Effect t (t.next (.go i)) i m' (t.occurrence (.go i)) := by
  obtain ⟨key, resolve, pos, hs⟩ := h i m hm
  obtain ⟨m', _, heffect, _⟩ := moves_of_shows hm hs
  rw [occurrence_go hm]
  exact ⟨m', heffect⟩

/-- What is seen of others when a caller steps. -/
theorem Orderly.caller?_next_go {j : Nat} (h : t.Orderly) (hj : j ≠ i) :
    (t.next (.go i)).caller? j =
      (t.caller? j).map ((t.occurrence (.go i)).heard t.crowd.drawn) := by
  cases hm : t.caller? i with
  | none =>
      rw [next_go_of_none hm, occurrence_go_of_none hm]
      cases t.caller? j <;> rfl
  | some m =>
      obtain ⟨m', heffect⟩ := h.effect_go hm
      exact heffect.others j hj

/-! ## Flights and entries -/

/-- The flights change as the occurrence says. -/
theorem Orderly.flights_next (h : t.Orderly) (ch : Choice σ) :
    (t.next ch).crowd.flights = (t.occurrence ch).flights t.crowd.flights := by
  by_cases haside : ch.Aside
  · rw [(crowd_next_of_aside haside).2, occurrence_of_aside haside]
    rfl
  cases ch with
  | go i =>
      cases hm : t.caller? i with
      | none =>
          rw [next_go_of_none hm, occurrence_go_of_none hm]
          rfl
      | some m =>
          obtain ⟨m', heffect⟩ := h.effect_go hm
          exact heffect.flights
  | _ => first | rfl | exact absurd trivial haside

/-- An entry changes as the occurrence says, or it is dropped and the occurrence is quiet. -/
theorem Orderly.entry_next (h : t.Orderly) (ch : Choice σ) (key : DecisionKey) :
    (t.next ch).entry key = (t.occurrence ch).entry key (t.entry key) ∨
      t.occurrence ch = .quiet ∧ (t.next ch).entry key = none := by
  by_cases haside : ch.Aside
  · rw [occurrence_of_aside haside]
    obtain hsame | hnone := entry_next_of_aside haside key
    · exact .inl hsame
    · exact .inr ⟨rfl, hnone⟩
  left
  cases ch with
  | go i =>
      cases hm : t.caller? i with
      | none =>
          rw [next_go_of_none hm, occurrence_go_of_none hm]
          rfl
      | some m =>
          obtain ⟨m', heffect⟩ := h.effect_go hm
          exact heffect.entry key
  | _ => first | rfl | exact absurd trivial haside

/-! ## Callers -/

/-- **The moves are complete.**  Whatever is chosen, a caller at a position is afterwards at one to
which a move leads. -/
theorem Orderly.advance_next {m : Member σ (Option Decision)} {resolve : Work σ Decision}
    {pos : Position σ} (h : t.Orderly) (ch : Choice σ) (hm : t.caller? i = some m)
    (hs : pos.Shows key resolve m) :
    ∃ m' pos', (t.next ch).caller? i = some m' ∧ pos'.Shows key resolve m' ∧
      Advance i key resolve (t.entry key) (t.crowd.flights.contains key) m.token.cancelled
        (t.occurrence ch) pos pos' := by
  by_cases haside : ch.Aside
  · have hstill : (t.next ch).caller? i = some m := (caller?_next_of_aside haside i).trans hm
    rw [occurrence_of_aside haside]
    exact ⟨m, pos, hstill, hs, .rests pos⟩
  cases ch with
  | call key' resolve' =>
      have hlt : i < t.crowd.members.length := (List.getElem?_eq_some_iff.1 hm).1
      have hstill : (t.next (.call key' resolve')).caller? i = some m :=
        (List.getElem?_append_left hlt).trans hm
      have hother : (t.occurrence (.call key' resolve')).caller? ≠ some i := by
        simp only [occurrence, Occurrence.caller?]
        intro heq
        injection heq with heq
        omega
      have hended : (t.occurrence (.call key' resolve')).ended? = none := rfl
      exact ⟨m, pos, hstill, hs, .stays pos hother fun _ => by simp [hended]⟩
  | go j =>
      by_cases hj : i = j
      · subst hj
        obtain ⟨m', pos', heffect, hs', hadvance⟩ := moves_of_shows hm hs
        exact ⟨m', pos', heffect.self, hs', occurrence_go hm ▸ hadvance⟩
      · have hother : (t.occurrence (.go j)).caller? ≠ some i := by
          cases hmj : t.caller? j with
          | none =>
              rw [occurrence_go_of_none hmj]
              exact Occurrence.caller?_quiet_ne i
          | some mj => exact caller?_occurrence_go hmj hj
        obtain ⟨pos', hs', hadvance⟩ := advance_of_heard (t.entry key)
          (t.crowd.flights.contains key) m.token.cancelled (t.occurrence (.go j))
          t.crowd.drawn hs hother
        have hheard := h.caller?_next_go hj
        rw [hm] at hheard
        exact ⟨_, pos', hheard, hs', hadvance⟩
  | wake j =>
      have hwoken := caller?_modify (t := t) (i := i) (j := j) Member.awake
      by_cases hj : j = i
      · rw [if_pos hj, hm] at hwoken
        exact ⟨m.awake, pos, hwoken, hs.awake, .rests pos⟩
      · rw [if_neg hj, hm] at hwoken
        exact ⟨m, pos, hwoken, hs, .rests pos⟩
  | cancel j =>
      have hcancelled := caller?_modify (t := t) (i := i) (j := j) Member.cancelled
      by_cases hj : j = i
      · rw [if_pos hj, hm] at hcancelled
        exact ⟨m.cancelled, pos, hcancelled, hs.cancel, .rests pos⟩
      · rw [if_neg hj, hm] at hcancelled
        exact ⟨m, pos, hcancelled, hs, .rests pos⟩
  | _ => exact absurd trivial haside

/-- Nobody comes but by a call. -/
theorem Orderly.next_of_none (h : t.Orderly) (ch : Choice σ) (hm : t.caller? i = none) :
    ((t.next ch).caller? i = none ∧ (t.occurrence ch).caller? ≠ some i) ∨
      ∃ key resolve, t.occurrence ch = .calls i key resolve ∧
        (t.next ch).caller? i = some (newcomer key resolve) := by
  by_cases haside : ch.Aside
  · left
    rw [caller?_next_of_aside haside, occurrence_of_aside haside]
    exact ⟨hm, Occurrence.caller?_quiet_ne i⟩
  cases ch with
  | call key resolve =>
      by_cases hi : i = t.crowd.members.length
      · right
        have hnew : (t.next (.call key resolve)).caller? i = some (newcomer key resolve) := by
          show (t.crowd.members ++ [newcomer key resolve])[i]? = _
          rw [hi, List.getElem?_concat_length]
        exact ⟨key, resolve, congrArg (Occurrence.calls · key resolve) hi.symm, hnew⟩
      · left
        have hle : t.crowd.members.length ≤ i := List.getElem?_eq_none_iff.1 hm
        have hnone : (t.next (.call key resolve)).caller? i = none := by
          show (t.crowd.members ++ [newcomer key resolve])[i]? = none
          rw [List.getElem?_eq_none_iff, List.length_append, List.length_singleton]
          omega
        exact ⟨hnone, fun heq => hi (Option.some.inj heq).symm⟩
  | go j =>
      left
      by_cases hj : i = j
      · subst hj
        rw [next_go_of_none hm, occurrence_go_of_none hm]
        exact ⟨hm, Occurrence.caller?_quiet_ne i⟩
      · have hheard := h.caller?_next_go hj
        rw [hm] at hheard
        cases hmj : t.caller? j with
        | none =>
            rw [occurrence_go_of_none hmj]
            exact ⟨hheard, Occurrence.caller?_quiet_ne i⟩
        | some mj => exact ⟨hheard, caller?_occurrence_go hmj hj⟩
  | wake j =>
      have hwoken := caller?_modify (t := t) (i := i) (j := j) Member.awake
      rw [hm, Option.map_none, ite_self] at hwoken
      exact .inl ⟨hwoken, Occurrence.caller?_quiet_ne i⟩
  | cancel j =>
      have hcancelled := caller?_modify (t := t) (i := i) (j := j) Member.cancelled
      rw [hm, Option.map_none, ite_self] at hcancelled
      exact .inl ⟨hcancelled, Occurrence.caller?_quiet_ne i⟩
  | _ => exact absurd trivial haside

theorem Orderly.next (h : t.Orderly) (ch : Choice σ) : (t.next ch).Orderly := by
  intro i m' hm'
  cases hm : t.caller? i with
  | none =>
      obtain ⟨hnone, _⟩ | ⟨key, resolve, _, hnew⟩ := h.next_of_none ch hm
      · rw [hnone] at hm'
        cases hm'
      · rw [hnew] at hm'
        cases hm'
        exact ⟨key, resolve, .entering, shows_newcomer key resolve⟩
  | some m =>
      obtain ⟨key, resolve, pos, hs⟩ := h i m hm
      obtain ⟨m'', pos', hm'', hs', _⟩ := h.advance_next ch hm hs
      rw [hm''] at hm'
      cases hm'
      exact ⟨key, resolve, pos', hs'⟩

end TrialRouting.Traffic
