import TrialRouting.Proofs.Traffic.Upkeep

/-!
# TrialRouting.Proofs.Traffic.Progress

Calls that are in progress, and callers that have a decision but have yet to
track it.

* `Course.inProgress` — a call is in progress until its caller has left;
* `IsAt.succ_of_unchosen` — a caller that can go on stays where it is until it
  is chosen;
* `yetToTrack_of_inserts`, `YetToTrack.succ`, `exists_yetToTrack_of_tracks` — a
  caller that inserts a decision has yet to track it, has so until it does, and
  nobody else tracks.
-/

namespace TrialRouting

variable {σ : Type}

namespace Traffic

variable {t : Traffic σ} {ch : Choice σ} {i : Nat} {m : Member σ (Option Decision)}

/-! ## Callers that are not chosen -/

/-- What becomes of a caller that is not chosen: nothing, or it is cancelled, or its sleep ends, or it
hears of the step of another caller. -/
theorem Orderly.next_of_unchosen (h : t.Orderly) (hm : t.caller? i = some m) (hne : ch ≠ .go i) :
    (t.next ch).caller? i = some m ∨ (t.next ch).caller? i = some m.cancelled ∨
      (ch = .wake i ∧ (t.next ch).caller? i = some m.awake) ∨
      ∃ (o : Occurrence σ) (n : Nat), (t.next ch).caller? i = some (o.heard n m) := by
  by_cases haside : ch.Aside
  · exact .inl ((caller?_next_of_aside haside i).trans hm)
  cases ch with
  | call key resolve =>
      have hlt : i < t.crowd.members.length := (List.getElem?_eq_some_iff.1 hm).1
      exact .inl ((List.getElem?_append_left hlt).trans hm)
  | go j =>
      have hij : i ≠ j := by
        rintro rfl
        exact hne rfl
      have hheard := h.caller?_next_go hij
      rw [hm, Option.map_some] at hheard
      exact .inr (.inr (.inr ⟨_, _, hheard⟩))
  | wake j =>
      have hwoken := caller?_modify (t := t) (i := i) (j := j) Member.awake
      by_cases hj : j = i
      · subst hj
        rw [if_pos rfl, hm] at hwoken
        exact .inr (.inr (.inl ⟨rfl, hwoken⟩))
      · rw [if_neg hj, hm] at hwoken
        exact .inl hwoken
  | cancel j =>
      have hcancelled := caller?_modify (t := t) (i := i) (j := j) Member.cancelled
      by_cases hj : j = i
      · rw [if_pos hj, hm] at hcancelled
        exact .inr (.inl hcancelled)
      · rw [if_neg hj, hm] at hcancelled
        exact .inl hcancelled
  | _ => exact absurd trivial haside

end Traffic

/-- A member that goes on as soon as it is chosen. -/
def Member.Able (m : Member σ (Option Decision)) : Prop :=
  m.standing = .ready ∨ ∃ n d, m.standing = .called n d

theorem Member.Able.awake {m : Member σ (Option Decision)} (h : m.Able) : m.awake = m := by
  unfold Member.awake
  obtain hst | ⟨n, d, hst⟩ := h
  · rw [hst]
  · rw [hst]

/-- A caller that waits for nobody hears nothing. -/
theorem Occurrence.heard_of_not_waiting {m : Member σ (Option Decision)} (o : Occurrence σ)
    (n : Nat) (h : ∀ key, m.standing ≠ .waiting key) : o.heard n m = m := by
  cases o <;> simp [Occurrence.heard, Crowd.call, Member.awaits, h]

theorem Member.Able.heard {m : Member σ (Option Decision)} (h : m.Able) (o : Occurrence σ)
    (n : Nat) : o.heard n m = m := by
  refine o.heard_of_not_waiting n fun key hwaiting => ?_
  obtain hst | ⟨n', d, hst⟩ := h
  · cases hst.symm.trans hwaiting
  · cases hst.symm.trans hwaiting

/-- It stays as it is until it is chosen, but that it may be cancelled. -/
theorem Traffic.Orderly.next_of_able {t : Traffic σ} {ch : Choice σ} {i : Nat}
    {m : Member σ (Option Decision)} (h : t.Orderly) (hm : t.caller? i = some m) (hable : m.Able)
    (hne : ch ≠ .go i) :
    (t.next ch).caller? i = some m ∨ (t.next ch).caller? i = some m.cancelled := by
  obtain hsame | hcancelled | ⟨-, hwoken⟩ | ⟨o, n, hheard⟩ := h.next_of_unchosen hm hne
  · exact .inl hsame
  · exact .inr hcancelled
  · exact .inl (hable.awake ▸ hwoken)
  · exact .inl (hable.heard o n ▸ hheard)

/-! ## Positions -/

/-- Only a caller that has left is finished. -/
theorem Position.left_of_finished {key : DecisionKey} {pos : Position σ} {time : Nat}
    (h : pos.Stands key (.finished time)) : ∃ result, pos = .left result := by
  cases pos with
  | left result => exact ⟨result, rfl⟩
  | hearing d =>
      obtain ⟨n, hn⟩ := h
      cases hn
  | watching w =>
      obtain hready | ⟨time', hdue⟩ := h
      · cases hready
      · cases hdue
  | _ => cases h

/-- Only a caller that has yet to track its decision does so next. -/
theorem Position.tracking_of_program {key key' : DecisionKey} {resolve : Work σ Decision}
    {pos : Position σ} {rest : Program σ (Option Decision)}
    (h : pos.program key resolve = .track key' rest) :
    ∃ d, pos = .tracking d ∧ key = key' ∧ rest = .done (some d) := by
  cases pos with
  | tracking d =>
      cases h
      exact ⟨d, rfl, rfl, rfl⟩
  | making w =>
      have hstretch := Program.stretch_guarded w
      simp only [Position.program] at h
      generalize Program.guarded none w = q at h hstretch
      cases hstretch <;> cases h
  | _ => cases h

namespace Interleaving

variable {H : Interleaving σ} {i l n : Nat} {key : DecisionKey} {resolve : Work σ Decision}
  {d : Decision}

/-! ## Calls in progress -/

/-- The caller has called for the key before the moment, and has not returned. -/
def InProgress (H : Interleaving σ) (i : Nat) (key : DecisionKey) (n : Nat) : Prop :=
  ∃ l resolve, l < n ∧ H.event l = .calls i key resolve ∧
    ∀ k < n, ∀ result, H.event k ≠ .returns i result

/-- The caller has the decision of the key at the moment, and has yet to track it. -/
def YetToTrack (H : Interleaving σ) (i : Nat) (key : DecisionKey) (d : Decision) (n : Nat) : Prop :=
  ∃ resolve, H.IsAt i key resolve n (.tracking d)

/-- A caller that has returned has left. -/
theorem Course.left_of_returns {pos : Nat → Position σ} {k : Nat} {result : Option Decision}
    (h : H.Course i key resolve l pos) (hreturns : H.event k = .returns i result) (hkn : k < n) :
    pos n = .left result := by
  have hlk : l < k := by
    obtain ⟨l', _, _, _, hl', hcourse⟩ := exists_course_of_event (H := H) (n := k) (i := i)
      (by rw [hreturns]; rfl) (by simp [hreturns])
    rwa [calls_unique h.calls hcourse.calls]
  induction n with
  | zero => exact absurd hkn (Nat.not_lt_zero k)
  | succ n ih =>
      obtain hlt | rfl := Nat.lt_succ_iff_lt_or_eq.1 hkn
      · have hmove := h.moves n (Nat.lt_trans hlk hlt)
        rw [ih hlt] at hmove
        generalize H.event n = o, pos (n + 1) = pos' at hmove ⊢
        cases hmove with
        | stays => rfl
      · have hmove := h.moves k hlk
        rw [hreturns] at hmove
        generalize pos k = here, pos (k + 1) = there at hmove ⊢
        cases hmove with
        | stays _ hne _ => exact absurd rfl hne
        | returns => rfl

/-- A call is in progress until its caller has left. -/
theorem Course.inProgress {pos : Nat → Position σ} (h : H.Course i key resolve l pos) (hl : l < n)
    (hleft : ∀ result, pos n ≠ .left result) : H.InProgress i key n :=
  ⟨l, resolve, hl, h.calls, fun _ hk result hreturns =>
    hleft result (h.left_of_returns hreturns hk)⟩

/-- A caller that has left has returned. -/
theorem Course.exists_returns_of_left {pos : Nat → Position σ} {result : Option Decision}
    (h : H.Course i key resolve l pos) (hl : l < n) (hleft : pos n = .left result) :
    ∃ k < n, H.event k = .returns i result := by
  induction n with
  | zero => exact absurd hl (Nat.not_lt_zero l)
  | succ n ih =>
      obtain hlt | rfl := Nat.lt_succ_iff_lt_or_eq.1 hl
      · have hmove := h.moves n hlt
        rw [hleft] at hmove
        generalize ho : H.event n = o, hhere : pos n = here at hmove
        cases hmove with
        | stays =>
            obtain ⟨k, hk, hreturns⟩ := ih hlt hhere
            exact ⟨k, Nat.lt_succ_of_lt hk, hreturns⟩
        | returns => exact ⟨n, Nat.lt_succ_self n, ho⟩
      · rw [h.enters] at hleft
        cases hleft

/-- Nobody is in progress when all callers have finished. -/
theorem not_inProgress_of_finished
    (h : ∀ m ∈ (H.traffic n).crowd.members, ∃ time, m.standing = .finished time) :
    ¬ H.InProgress i key n := by
  rintro ⟨l, resolve, hl, hcalls, hnot⟩
  obtain ⟨pos, hcourse⟩ := exists_course hcalls
  obtain ⟨m, hm, hshows⟩ := hcourse.shows n hl
  obtain ⟨time, hst⟩ := h m (List.mem_of_getElem? hm)
  obtain ⟨result, hleft⟩ := Position.left_of_finished (hst ▸ hshows.standing)
  obtain ⟨k, hk, hreturns⟩ := hcourse.exists_returns_of_left hl hleft
  exact hnot k hk result hreturns

/-- All callers have come to their end, and so have all ends of scopes. -/
def idle (H : Interleaving σ) (n : Nat) : Bool :=
  ((H.traffic n).crowd.members.all fun m => m.standing matches .finished _) &&
    (H.traffic n).endings.all (·.contracts.isEmpty)

/-- Nobody is in progress in an idle state. -/
theorem nobody_of_idle (h : H.idle n = true) :
    (∀ i key, ¬ H.InProgress i key n) ∧ ∀ scope, ¬ H.Ending scope n := by
  obtain ⟨hmembers, hendings⟩ := Bool.and_eq_true_iff.1 h
  constructor
  · intro i key
    refine not_inProgress_of_finished fun m hm => ?_
    have hfinished := List.all_eq_true.1 hmembers m hm
    split at hfinished
    · next time hst => exact ⟨time, hst⟩
    · cases hfinished
  · rintro scope ⟨e, he, -, hne⟩
    exact hne (List.isEmpty_iff.1 (List.all_eq_true.1 hendings e he))

/-- Whoever has yet to track a decision is at that point of its course. -/
theorem YetToTrack.exists_course (h : H.YetToTrack i key d n) :
    ∃ l resolve pos, l < n ∧ H.Course i key resolve l pos ∧ pos n = .tracking d := by
  obtain ⟨resolve, m, hm, hshows⟩ := h
  obtain ⟨l, key', resolve', pos, hl, hcourse⟩ := exists_course_of_caller? hm
  obtain ⟨m', hm', hshows'⟩ := hcourse.shows n hl
  obtain rfl : m = m' := Option.some.inj (hm.symm.trans hm')
  obtain ⟨d', hpos, rfl, hrest⟩ :=
    Position.tracking_of_program (hshows'.program.symm.trans hshows.program)
  obtain rfl : d = d' := by
    cases hrest
    rfl
  exact ⟨l, resolve', pos, hl, hcourse, hpos⟩

/-- Whoever has yet to track a decision is in progress. -/
theorem YetToTrack.inProgress (h : H.YetToTrack i key d n) : H.InProgress i key n := by
  obtain ⟨l, resolve, pos, hl, hcourse, hpos⟩ := h.exists_course
  exact hcourse.inProgress hl (by simp [hpos])

/-- Whoever inserts a decision is in progress. -/
theorem inProgress_of_inserts (h : H.event n = .inserts i key d) : H.InProgress i key n := by
  obtain ⟨l, key', resolve, pos, hl, hcourse⟩ := exists_course_of_event (H := H) (n := n) (i := i)
    (by rw [h]; rfl) (by simp [h])
  have hmove := hcourse.moves n hl
  rw [h] at hmove
  generalize hhere : pos n = here, pos (n + 1) = there at hmove
  cases hmove with
  | stays _ hne _ => exact absurd rfl hne
  | hears hne => exact absurd rfl hne
  | inserts _ => exact hcourse.inProgress hl (by simp [hhere])

/-! ## Tracking -/

/-- A key is tracked by a caller that has yet to do so. -/
theorem exists_yetToTrack_of_tracks (h : H.upkeep n = .tracks key) :
    ∃ i d, H.choices n = .go i ∧ H.YetToTrack i key d n := by
  obtain ⟨i, m, rest, hgo, hm, -, hprog⟩ := Traffic.allows_of_upkeep h
  obtain ⟨key', resolve, pos, hshows⟩ := H.orderly n i m hm
  obtain ⟨d, rfl, rfl, -⟩ := Position.tracking_of_program (hshows.program.symm.trans hprog)
  exact ⟨i, d, hgo, resolve, m, hm, hshows⟩

/-- Whoever inserts a decision has yet to track it. -/
theorem yetToTrack_of_inserts (h : H.event n = .inserts i key d) :
    H.YetToTrack i key d (n + 1) := by
  obtain ⟨l, key', resolve, pos, hl, hcourse⟩ := exists_course_of_event (H := H) (n := n) (i := i)
    (by rw [h]; rfl) (by simp [h])
  have hmove := hcourse.moves n hl
  have hshows := hcourse.shows (n + 1) (Nat.lt_succ_of_lt hl)
  rw [h] at hmove
  generalize pos n = here, pos (n + 1) = there at hmove hshows
  cases hmove with
  | stays _ hne _ => exact absurd rfl hne
  | hears hne => exact absurd rfl hne
  | inserts _ => exact ⟨resolve, hshows⟩

/-- A caller stays where it is ready until it is chosen. -/
theorem IsAt.succ_of_unchosen {pos : Position σ} (h : H.IsAt i key resolve n pos)
    (hready : ∀ s, pos.Stands key s → s = .ready) (hne : H.choices n ≠ .go i) :
    H.IsAt i key resolve (n + 1) pos := by
  obtain ⟨m, hm, hshows⟩ := h
  obtain hsame | hcancelled :=
    (H.orderly n).next_of_able hm (.inl (hready m.standing hshows.standing)) hne
  · exact ⟨m, hsame, hshows⟩
  · exact ⟨m.cancelled, hcancelled, hshows.cancel⟩

/-- A caller that has yet to track its decision does so next, or has still to do so. -/
theorem YetToTrack.succ (h : H.YetToTrack i key d n) :
    H.upkeep n = .tracks key ∨ H.YetToTrack i key d (n + 1) := by
  obtain ⟨resolve, hat⟩ := h
  by_cases hgo : H.choices n = .go i
  · left
    obtain ⟨m, hm, hshows⟩ := hat
    have hst : m.standing = .ready := hshows.standing
    unfold upkeep
    rw [hgo, Traffic.upkeep_go hm]
    simp only [Member.upkeep, hst, hshows.program, Position.program]
  · exact .inr ⟨resolve, hat.succ_of_unchosen (fun _ => id) hgo⟩

end Interleaving

end TrialRouting
