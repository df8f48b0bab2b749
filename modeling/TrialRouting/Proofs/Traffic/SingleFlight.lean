import TrialRouting.Proofs.Traffic.Story

/-!
# TrialRouting.Proofs.Traffic.SingleFlight

One flight for each key.  The main theorem says of every interleaving of
callers, cancellations and removals that

1. no two callers make the decision of a key at the same time;
2. between two insertions for a key its entry was removed;
3. a caller that returns a decision returns one that was the entry of its key
   since its call, and that a completed run of a resolver brought forth;
4. so callers that come and go while no entry is removed return the same;
5. a run that is cut short ran for a cancelled caller and leaves no entry;
6. every run that was started has inserted, was cut short, or is under way.

The stories of the callers give what holds of all of them together (`Kept`):
somebody makes the decision of a key just while the key is in flight, nobody
else does, and meanwhile the key has no entry.
-/

namespace TrialRouting.Interleaving

variable {σ : Type} {H : Interleaving σ} {i j n : Nat} {key : DecisionKey} {d : Decision}

/-! ## All callers together -/

theorem flying_succ_of_starts {key' : DecisionKey} (key : DecisionKey)
    (h : H.event n = .starts i key') : H.flying key (n + 1) = (key == key' || H.flying key n) := by
  unfold flying
  rw [H.flights_succ, h]
  exact List.contains_cons

theorem flying_succ_of_ended {key' : DecisionKey} (key : DecisionKey)
    (h : (H.event n).ended? = some key') :
    H.flying key (n + 1) = (key != key' && H.flying key n) := by
  have hflights : (H.traffic (n + 1)).crowd.flights =
      (H.traffic n).crowd.flights.filter (· != key') := by
    rw [H.flights_succ]
    cases ho : H.event n with
    | inserts j key'' d =>
        rw [ho] at h
        cases h
        rfl
    | abandons j key'' =>
        rw [ho] at h
        cases h
        rfl
    | _ =>
        rw [ho] at h
        cases h
  unfold flying
  rw [hflights]
  by_cases hk : key = key'
  · simp [hk]
  · simp [hk, List.contains_eq_mem]

theorem flying_succ_of_quiet (key : DecisionKey) (hs : ∀ i key', H.event n ≠ .starts i key')
    (he : (H.event n).ended? = none) : H.flying key (n + 1) = H.flying key n := by
  unfold flying
  rw [H.flights_succ]
  cases ho : H.event n with
  | starts i key' => exact absurd ho (hs i key')
  | inserts j key' d =>
      rw [ho] at he
      cases he
  | abandons j key' =>
      rw [ho] at he
      cases he
  | _ => rfl

/-- What holds of the flight of a key at every moment. -/
structure Kept (H : Interleaving σ) (key : DecisionKey) (n : Nat) : Prop where
  flying : H.flying key n = true ↔ ∃ i, H.making i n = some key
  alone : ∀ i j, H.making i n = some key → H.making j n = some key → i = j
  vacant : H.flying key n = true → H.entry key n = none

theorem kept_zero (H : Interleaving σ) (key : DecisionKey) : H.Kept key 0 := by
  refine ⟨⟨nofun, ?_⟩, nofun, fun _ => rfl⟩
  rintro ⟨i, hi⟩
  cases hi

/-- What ends a flight is done by the caller that makes the decision. -/
theorem of_ended (h : (H.event n).ended? = some key) :
    ∃ j, (H.event n).caller? = some j ∧ H.making j n = some key := by
  cases ho : H.event n with
  | inserts j key' d =>
      rw [ho] at h
      cases h
      exact ⟨j, rfl, (of_inserts ho).1⟩
  | abandons j key' =>
      rw [ho] at h
      cases h
      exact ⟨j, rfl, (of_abandons ho).1⟩
  | _ =>
      rw [ho] at h
      cases h

/-- An entry that is not there is there at the next moment only if it is inserted. -/
theorem entry_succ_eq_none (h : H.entry key n = none) (hne : (H.event n).ended? ≠ some key) :
    H.entry key (n + 1) = none := by
  obtain heq | ⟨_, hnone⟩ := H.entry_succ key n
  · rw [heq, h]
    cases ho : H.event n with
    | inserts j key' d =>
        refine if_neg fun hk => hne ?_
        rw [ho, hk]
        rfl
    | _ => rfl
  · exact hnone

/-- The callers that make a decision are the same before and after a step that neither starts nor
ends a run. -/
theorem making_succ_of_quiet (hs : ∀ i key', H.event n ≠ .starts i key')
    (he : (H.event n).ended? = none) : H.making i (n + 1) = H.making i n := by
  cases ho : H.event n with
  | starts i key' => exact absurd ho (hs i key')
  | inserts j key' d =>
      rw [ho] at he
      cases he
  | abandons j key' =>
      rw [ho] at he
      cases he
  | _ => simp only [making, ho]

theorem Kept.alone_succ (h : H.Kept key n) (hi : H.making i (n + 1) = some key)
    (hj : H.making j (n + 1) = some key) : i = j := by
  have hno : ∀ {a b : Nat}, H.event n = .starts a key → H.making b n ≠ some key := by
    intro a b hstarts hb
    obtain ⟨_, _, hflying, _⟩ := of_starts hstarts
    rw [h.flying.2 ⟨b, hb⟩] at hflying
    cases hflying
  obtain hsi | hmi := making_of_succ hi <;> obtain hsj | hmj := making_of_succ hj
  · have heq : Occurrence.starts i key = .starts j key := hsi.symm.trans hsj
    injection heq
  · exact absurd hmj (hno hsi)
  · exact absurd hmi (hno hsj)
  · exact h.alone i j hmi hmj

/-- The start of a run for another key starts none for this one, and stops none. -/
theorem exists_making_succ_of_starts {key' : DecisionKey} (ho : H.event n = .starts j key')
    (hk : key ≠ key') :
    (∃ i, H.making i (n + 1) = some key) ↔ ∃ i, H.making i n = some key := by
  constructor
  · rintro ⟨i, hi⟩
    obtain hsi | hmi := making_of_succ hi
    · have heq : Occurrence.starts j key' = .starts i key := ho.symm.trans hsi
      injection heq with _ heq
      exact absurd heq.symm hk
    · exact ⟨i, hmi⟩
  · rintro ⟨i, hi⟩
    have hij : (H.event n).caller? ≠ some i := by
      intro heq
      obtain rfl : j = i := by simpa [ho, Occurrence.caller?] using heq
      rw [(of_starts ho).1] at hi
      cases hi
    exact ⟨i, (making_succ_of_ne hij).trans hi⟩

/-- The end of a run leaves the runs for the other keys, and none for its own. -/
theorem Kept.exists_making_succ_of_ended {key' : DecisionKey} (h : H.Kept key n)
    (he : (H.event n).ended? = some key') :
    (∃ i, H.making i (n + 1) = some key) ↔ (∃ i, H.making i n = some key) ∧ key ≠ key' := by
  obtain ⟨j, hj, hmj⟩ := of_ended he
  have hend : H.making j (n + 1) = none := making_succ_of_ended (by simp [he]) hj
  have hs : ∀ i key'', H.event n ≠ .starts i key'' := by
    intro i key'' ho
    rw [ho] at he
    cases he
  constructor
  · rintro ⟨i, hi⟩
    obtain hsi | hmi := making_of_succ hi
    · exact absurd hsi (hs i key)
    · have hne : key ≠ key' := by
        rintro rfl
        obtain rfl : i = j := h.alone i j hmi hmj
        rw [hend] at hi
        cases hi
      exact ⟨⟨i, hmi⟩, hne⟩
  · rintro ⟨⟨i, hi⟩, hk⟩
    have hij : (H.event n).caller? ≠ some i := by
      intro heq
      obtain rfl : j = i := Option.some.inj (hj.symm.trans heq)
      exact hk (Option.some.inj (hi.symm.trans hmj))
    exact ⟨i, (making_succ_of_ne hij).trans hi⟩

theorem Kept.flying_succ (h : H.Kept key n) :
    H.flying key (n + 1) = true ↔ ∃ i, H.making i (n + 1) = some key := by
  by_cases hstarts : ∃ j key', H.event n = .starts j key'
  · obtain ⟨j, key', ho⟩ := hstarts
    rw [flying_succ_of_starts key ho]
    by_cases hk : key = key'
    · subst hk
      simpa using ⟨j, making_succ_of_starts ho⟩
    · rw [beq_eq_false_iff_ne.2 hk, Bool.false_or, h.flying, exists_making_succ_of_starts ho hk]
  · have hs : ∀ i key', H.event n ≠ .starts i key' := fun i key' ho => hstarts ⟨i, key', ho⟩
    cases he : (H.event n).ended? with
    | none =>
        rw [flying_succ_of_quiet key hs he, h.flying]
        simp only [making_succ_of_quiet hs he]
    | some key' =>
        rw [flying_succ_of_ended key he, Bool.and_eq_true, h.flying, bne_iff_ne,
          h.exists_making_succ_of_ended he, and_comm]

theorem Kept.vacant_succ (h : H.Kept key n) (hf : H.flying key (n + 1) = true) :
    H.entry key (n + 1) = none := by
  have hne : (H.event n).ended? ≠ some key := by
    intro he
    rw [flying_succ_of_ended key he] at hf
    simp at hf
  refine entry_succ_eq_none ?_ hne
  obtain ⟨i, hi⟩ := h.flying_succ.1 hf
  obtain hstarts | hmaking := making_of_succ hi
  · exact (of_starts hstarts).2.1
  · exact h.vacant (h.flying.2 ⟨i, hmaking⟩)

/-- The flight of a key is kept by every step. -/
theorem kept (H : Interleaving σ) (key : DecisionKey) (n : Nat) : H.Kept key n := by
  induction n with
  | zero => exact kept_zero H key
  | succ n ih => exact ⟨ih.flying_succ, fun _ _ => ih.alone_succ, ih.vacant_succ⟩

/-! ## The life of an entry -/

/-- While the decision of a key is made it has no entry. -/
theorem entry_of_making (h : H.making i n = some key) : H.entry key n = none :=
  (H.kept key n).vacant ((H.kept key n).flying.2 ⟨i, h⟩)

/-- An entry stays as it is until it is removed. -/
theorem entry_succ_of_some (h : H.entry key n = some d) (hno : ¬ H.Removes key n) :
    H.entry key (n + 1) = some d := by
  obtain heq | ⟨_, hnone⟩ := H.entry_succ key n
  · cases ho : H.event n with
    | inserts j key' d' =>
        have hk : key ≠ key' := by
          rintro rfl
          rw [entry_of_making (of_inserts ho).1] at h
          cases h
        rw [heq, ho, h]
        exact if_neg hk
    | _ =>
        rw [heq, ho, h]
        rfl
  · exact absurd ⟨by rw [h]; rfl, hnone⟩ hno

theorem entry_of_no_removal {a b : Nat} (h : H.entry key a = some d) (hab : a ≤ b)
    (hno : ∀ k, a ≤ k → k < b → ¬ H.Removes key k) : H.entry key b = some d := by
  induction b with
  | zero =>
      obtain rfl : a = 0 := Nat.le_zero.1 hab
      exact h
  | succ b ih =>
      obtain rfl | hlt := Nat.eq_or_lt_of_le hab
      · exact h
      · have hle : a ≤ b := Nat.le_of_lt_succ hlt
        exact entry_succ_of_some (ih hle fun k hk hk' => hno k hk (Nat.lt_succ_of_lt hk'))
          (hno b hle (Nat.lt_succ_self b))

/-- Before moment `n` a run for the key ended with the decision, which its resolver yields. -/
def Resolved (H : Interleaving σ) (key : DecisionKey) (d : Decision) (n : Nat) : Prop :=
  ∃ i a b, b < n ∧ H.Run i key a b ∧ H.event b = .inserts i key d ∧
    ∃ l resolve, l < a ∧ H.event l = .calls i key resolve ∧ resolve.Yields d

/-- An insertion ends a completed run. -/
theorem resolved_of_inserts (h : H.event n = .inserts i key d) : H.Resolved key d (n + 1) := by
  obtain ⟨hmaking, l, resolve, _, hcalls, hyields⟩ := of_inserts h
  obtain ⟨a, hrun⟩ := exists_run hmaking
  obtain ⟨_, _, _, l', _, hl', hcalls'⟩ := of_starts hrun.starts
  obtain rfl : l = l' := calls_unique hcalls hcalls'
  exact ⟨i, a, n, Nat.lt_succ_self n, hrun, h, l, resolve, hl', hcalls, hyields⟩

/-- Every entry is what a completed run brought forth. -/
theorem resolved_of_entry (h : H.entry key n = some d) : H.Resolved key d n := by
  induction n with
  | zero => cases h
  | succ n ih =>
      by_cases hold : H.entry key n = some d
      · obtain ⟨i, a, b, hb, hrun⟩ := ih hold
        exact ⟨i, a, b, Nat.lt_succ_of_lt hb, hrun⟩
      · obtain heq | ⟨_, hnone⟩ := H.entry_succ key n
        · rw [h] at heq
          cases ho : H.event n with
          | inserts j key' d' =>
              rw [ho] at heq
              by_cases hk : key = key'
              · subst hk
                have hd : some d = some d' := heq.trans (if_pos rfl)
                obtain rfl := Option.some.inj hd
                exact resolved_of_inserts ho
              · exact absurd (heq.trans (if_neg hk)).symm hold
          | _ =>
              rw [ho] at heq
              exact absurd heq.symm hold
        · rw [h] at hnone
          cases hnone

/-- Between two insertions for a key its entry is removed. -/
theorem exists_removal {a b : Nat} {e : Decision} (hab : a < b)
    (ha : H.event a = .inserts i key d) (hb : H.event b = .inserts j key e) :
    ∃ k, a < k ∧ k < b ∧ H.Removes key k := by
  refine Classical.byContradiction fun hno => ?_
  have hkeep : H.entry key b = some d :=
    entry_of_no_removal (entry_succ_of_inserts ha) hab fun k hk hk' hr => hno ⟨k, hk, hk', hr⟩
  rw [entry_of_making (of_inserts hb).1] at hkeep
  cases hkeep

/-- A run that is cut short leaves no entry. -/
theorem exists_run_of_abandons (h : H.event n = .abandons i key) :
    ∃ a, H.Run i key a n ∧ ∀ k, a ≤ k → k ≤ n + 1 → H.entry key k = none := by
  obtain ⟨hmaking, _⟩ := of_abandons h
  obtain ⟨a, hrun⟩ := exists_run hmaking
  have hafter : H.entry key (n + 1) = none := by
    rw [H.entry_succ_of_ne_quiet (by simp [h]), h]
    exact entry_of_making hmaking
  have hvacant : ∀ k, a ≤ k → k ≤ n + 1 → H.entry key k = none := by
    intro k hk hk'
    obtain rfl | hlt := Nat.eq_or_lt_of_le hk
    · exact (of_starts hrun.starts).2.1
    · obtain rfl | hle := Nat.eq_or_lt_of_le hk'
      · exact hafter
      · exact entry_of_making (hrun.making k hlt (Nat.le_of_lt_succ hle))
  exact ⟨a, hrun, hvacant⟩

/-- The caller calls at moment `a` or later, and returns the decision by moment `b`. -/
def ReturnsWithin (H : Interleaving σ) (i : Nat) (key : DecisionKey) (d : Decision)
    (a b : Nat) : Prop :=
  ∃ l n resolve, a ≤ l ∧ n ≤ b ∧ H.event l = .calls i key resolve ∧
    H.event n = .returns i (some d)

/-- A caller that calls for the key and returns a decision has seen it as the entry since. -/
theorem had_of_returns {l : Nat} {resolve : Work σ Decision}
    (hcalls : H.event l = .calls i key resolve) (hreturns : H.event n = .returns i (some d)) :
    H.Had key d l n := by
  obtain ⟨l', key', resolve', _, hcalls', hhad⟩ := of_returns hreturns
  obtain rfl : l = l' := calls_unique hcalls hcalls'
  have heq : Occurrence.calls i key resolve = .calls i key' resolve' := hcalls.symm.trans hcalls'
  cases heq
  exact hhad

theorem ReturnsWithin.had {a b : Nat} (h : H.ReturnsWithin i key d a b) : H.Had key d a b := by
  obtain ⟨l, n, resolve, hl, hn, hcalls, hreturns⟩ := h
  obtain ⟨k, hk, hk', hentry⟩ := had_of_returns hcalls hreturns
  exact ⟨k, Nat.lt_of_le_of_lt hl hk, Nat.le_trans hk' hn, hentry⟩

/-- In a stretch without removal a key has one decision. -/
theorem Had.unique {a b : Nat} {e : Decision}
    (hno : ∀ k, a ≤ k → k < b → ¬ H.Removes key k)
    (h : H.Had key d a b) (h' : H.Had key e a b) : d = e := by
  obtain ⟨k, hk, hkb, hentry⟩ := h
  obtain ⟨k', hk', hkb', hentry'⟩ := h'
  have hd : H.entry key b = some d := entry_of_no_removal hentry hkb fun m hm => hno m (by omega)
  have he : H.entry key b = some e := entry_of_no_removal hentry' hkb' fun m hm => hno m (by omega)
  exact Option.some.inj (hd.symm.trans he)

/-! ## Counting runs -/

/-- How often up to the moment something has happened for the key that `f` looks for. -/
def count (H : Interleaving σ) (f : Occurrence σ → Option DecisionKey) (key : DecisionKey)
    (n : Nat) : Nat :=
  (List.range n).countP fun k => f (H.event k) == some key

theorem count_succ (f : Occurrence σ → Option DecisionKey) :
    H.count f key (n + 1) = H.count f key n + if f (H.event n) == some key then 1 else 0 := by
  unfold count
  rw [List.range_succ, List.countP_append]
  simp [List.countP_cons]

/-- Every run that was started has ended in one of two ways, or is under way. -/
theorem count_started (H : Interleaving σ) (key : DecisionKey) (n : Nat) :
    H.count Occurrence.started? key n =
      H.count Occurrence.inserted? key n + H.count Occurrence.abandoned? key n +
        if H.flying key n then 1 else 0 := by
  induction n with
  | zero => rfl
  | succ n ih =>
      rw [count_succ, count_succ, count_succ, ih]
      cases ho : H.event n with
      | starts i key' =>
          rw [flying_succ_of_starts key ho]
          by_cases hk : key = key'
          · subst hk
            simp [(of_starts ho).2.2.1, Occurrence.started?, Occurrence.inserted?,
              Occurrence.abandoned?]
          · simp [hk, Ne.symm hk, Occurrence.started?, Occurrence.inserted?,
              Occurrence.abandoned?]
      | inserts i key' d =>
          rw [flying_succ_of_ended key (congrArg Occurrence.ended? ho)]
          by_cases hk : key = key'
          · subst hk
            have hbefore := (H.kept key n).flying.2 ⟨i, (of_inserts ho).1⟩
            simp [hbefore, Occurrence.started?, Occurrence.inserted?, Occurrence.abandoned?]
            omega
          · simp [hk, Ne.symm hk, Occurrence.started?, Occurrence.inserted?,
              Occurrence.abandoned?]
      | abandons i key' =>
          rw [flying_succ_of_ended key (congrArg Occurrence.ended? ho)]
          by_cases hk : key = key'
          · subst hk
            have hbefore := (H.kept key n).flying.2 ⟨i, (of_abandons ho).1⟩
            simp [hbefore, Occurrence.started?, Occurrence.inserted?, Occurrence.abandoned?]
            omega
          · simp [hk, Ne.symm hk, Occurrence.started?, Occurrence.inserted?,
              Occurrence.abandoned?]
      | _ =>
          rw [flying_succ_of_quiet key (by simp [ho]) (by simp [ho, Occurrence.ended?])]
          simp [Occurrence.started?, Occurrence.inserted?, Occurrence.abandoned?]

/-- **Single flight and agreement.**  In every interleaving of callers, cancellations and removals:
no two callers make the decision of a key at once, and one does just while the key is in flight;
between two insertions for a key its entry is removed; a returned decision was the entry since the
call, as the outcome of a completed run; callers within a stretch without removal return the same;
a run is cut short for a cancelled caller only and leaves no entry; and the runs that were started
are those that inserted, those that were cut short, and the one that is under way. -/
theorem single_flight (H : Interleaving σ) (key : DecisionKey) :
    (∀ n i j, H.making i n = some key → H.making j n = some key → i = j) ∧
    (∀ n, H.flying key n = true ↔ ∃ i, H.making i n = some key) ∧
    (∀ a b i j d e, a < b → H.event a = .inserts i key d → H.event b = .inserts j key e →
      ∃ k, a < k ∧ k < b ∧ H.Removes key k) ∧
    (∀ l n i resolve d, H.event l = .calls i key resolve → H.event n = .returns i (some d) →
      ∃ k, l < k ∧ k ≤ n ∧ H.entry key k = some d ∧ H.Resolved key d k) ∧
    (∀ a b, (∀ k, a ≤ k → k < b → ¬ H.Removes key k) → ∀ i j d e,
      H.ReturnsWithin i key d a b → H.ReturnsWithin j key e a b → d = e) ∧
    (∀ n i, H.event n = .abandons i key → H.cancelled i n = true ∧
      ∃ a, H.Run i key a n ∧ ∀ k, a ≤ k → k ≤ n + 1 → H.entry key k = none) ∧
    ∀ n, H.count Occurrence.started? key n =
      H.count Occurrence.inserted? key n + H.count Occurrence.abandoned? key n +
        if H.flying key n then 1 else 0 := by
  have hreturned : ∀ l n i resolve d, H.event l = .calls i key resolve →
      H.event n = .returns i (some d) →
        ∃ k, l < k ∧ k ≤ n ∧ H.entry key k = some d ∧ H.Resolved key d k := by
    intro l n i resolve d hcalls hreturns
    obtain ⟨k, hk, hk', hentry⟩ := had_of_returns hcalls hreturns
    exact ⟨k, hk, hk', hentry, resolved_of_entry hentry⟩
  have hagree : ∀ a b, (∀ k, a ≤ k → k < b → ¬ H.Removes key k) → ∀ i j d e,
      H.ReturnsWithin i key d a b → H.ReturnsWithin j key e a b → d = e := by
    intro a b hno i j d e hi hj
    exact Had.unique hno hi.had hj.had
  have hcut : ∀ n i, H.event n = .abandons i key → H.cancelled i n = true ∧
      ∃ a, H.Run i key a n ∧ ∀ k, a ≤ k → k ≤ n + 1 → H.entry key k = none := by
    intro n i habandons
    exact ⟨(of_abandons habandons).2, exists_run_of_abandons habandons⟩
  exact ⟨fun n => (H.kept key n).alone, fun n => (H.kept key n).flying,
    fun _ _ _ _ _ _ => exists_removal, hreturned, hagree, hcut, H.count_started key⟩

/-! ## A cancelled run is taken over -/

def doorKey : DecisionKey :=
  ⟨⟨"door"⟩, ⟨"request"⟩⟩

def wideDoor : Decision :=
  .selected ⟨"wide"⟩ [⟨"narrow"⟩]

/-- Two callers for one key. The first is cancelled while its resolver sleeps; the second has waited
for it and makes the decision in its place. -/
def handover : Interleaving Unit where
  capacity := 4
  state := ()
  choices n :=
    ([.call doorKey (.wait 5 (.done wideDoor)), .call doorKey (.done wideDoor),
      .go 0, .go 0, .go 0, .go 0, .go 0, .go 1, .go 1, .cancel 0, .wake 0, .go 0, .go 0, .go 0,
      .go 1, .go 1, .go 1, .go 1, .go 1, .go 1, .go 1] : List (Choice Unit)).getD n (.go 0)

example : handover.event 12 = .abandons 0 doorKey ∧ handover.event 13 = .returns 0 none ∧
    handover.event 18 = .inserts 1 doorKey wideDoor ∧
    handover.event 20 = .returns 1 (some wideDoor) :=
  ⟨rfl, rfl, rfl, rfl⟩

end TrialRouting.Interleaving
