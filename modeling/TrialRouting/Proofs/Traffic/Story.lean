import TrialRouting.Proofs.Traffic.Interleaving

/-!
# TrialRouting.Proofs.Traffic.Story

What a caller has done, as far as its position tells.  A caller that wins a
claim makes the decision of the key (`making`), in a `Run` of its resolver,
until it inserts a decision or abandons the run.

`Story` reads the past of a caller off its position, and holds of every caller
on its course (`Course.story`).  From it follows under what circumstances a
run starts, inserts, is abandoned, and a decision is returned (`of_starts`,
`of_inserts`, `of_abandons`, `of_returns`).
-/

namespace TrialRouting.Interleaving

open DecisionCache

variable {σ : Type} {H : Interleaving σ} {i l n : Nat} {key : DecisionKey}
  {resolve : Work σ Decision} {d : Decision}

/-! ## Runs of resolvers -/

/-- The key whose decision the caller makes: from the start of its run until it inserts a decision
or abandons the run. -/
def making (H : Interleaving σ) (i : Nat) : Nat → Option DecisionKey
  | 0 => none
  | n + 1 =>
    match H.event n with
    | .starts j key => if i = j then some key else H.making i n
    | .inserts j _ _ => if i = j then none else H.making i n
    | .abandons j _ => if i = j then none else H.making i n
    | _ => H.making i n

/-- The caller makes the decision of the key after moment `a` up to moment `b`. -/
structure Run (H : Interleaving σ) (i : Nat) (key : DecisionKey) (a b : Nat) : Prop where
  starts : H.event a = .starts i key
  lt : a < b
  making : ∀ k, a < k → k ≤ b → H.making i k = some key

/-- The decision was the entry of the key at some moment after `l` and not after `n`. -/
def Had (H : Interleaving σ) (key : DecisionKey) (d : Decision) (l n : Nat) : Prop :=
  ∃ k, l < k ∧ k ≤ n ∧ H.entry key k = some d

theorem Had.succ (h : H.Had key d l n) : H.Had key d l (n + 1) := by
  obtain ⟨k, hlk, hkn, hentry⟩ := h
  exact ⟨k, hlk, Nat.le_succ_of_le hkn, hentry⟩

/-- A run goes on while the caller is not concerned. -/
theorem making_succ_of_ne (h : (H.event n).caller? ≠ some i) :
    H.making i (n + 1) = H.making i n := by
  cases ho : H.event n with
  | starts j key' =>
      have hne : i ≠ j := by simpa [ho, Occurrence.caller?, eq_comm] using h
      simp only [making, ho, if_neg hne]
  | inserts j key' d' =>
      have hne : i ≠ j := by simpa [ho, Occurrence.caller?, eq_comm] using h
      simp only [making, ho, if_neg hne]
  | abandons j key' =>
      have hne : i ≠ j := by simpa [ho, Occurrence.caller?, eq_comm] using h
      simp only [making, ho, if_neg hne]
  | _ => simp only [making, ho]

theorem making_succ_of_starts (h : H.event n = .starts i key) :
    H.making i (n + 1) = some key := by
  simp only [making, h, if_true]

/-- No run outlives its end. -/
theorem making_succ_of_ended (h : (H.event n).ended? ≠ none) (hm : (H.event n).caller? = some i) :
    H.making i (n + 1) = none := by
  cases ho : H.event n with
  | inserts j key' d' =>
      obtain rfl : j = i := by simpa [ho, Occurrence.caller?] using hm
      simp only [making, ho, if_true]
  | abandons j key' =>
      obtain rfl : j = i := by simpa [ho, Occurrence.caller?] using hm
      simp only [making, ho, if_true]
  | _ => simp [ho, Occurrence.ended?] at h

/-- Whoever has not called makes nothing. -/
theorem making_of_absent (h : (H.traffic n).caller? i = none) : H.making i n = none := by
  induction n with
  | zero => rfl
  | succ n ih =>
      cases hm : (H.traffic n).caller? i with
      | none =>
          obtain ⟨_, hother⟩ | ⟨key, resolve, _, hnew⟩ :=
            (H.orderly n).next_of_none (H.choices n) hm
          · rw [making_succ_of_ne hother]
            exact ih hm
          · have hsome : (H.traffic (n + 1)).caller? i = some (Traffic.newcomer key resolve) :=
              hnew
            rw [h] at hsome
            cases hsome
      | some m =>
          obtain ⟨key, resolve, pos, hs⟩ := H.orderly n i m hm
          obtain ⟨m', _, hm', _⟩ := (H.orderly n).advance_next (H.choices n) hm hs
          have hsome : (H.traffic (n + 1)).caller? i = some m' := hm'
          rw [h] at hsome
          cases hsome

/-! ## The story of a caller -/

/-- What the position of a caller that called at moment `l` tells of what has happened. -/
def Story (H : Interleaving σ) (i : Nat) (key : DecisionKey) (resolve : Work σ Decision)
    (l n : Nat) : Position σ → Prop
  | .opening => H.making i n = some key
  | .watching w => H.making i n = some key ∧ w.Remains resolve
  | .making w => H.making i n = some key ∧ w.Remains resolve
  | .failing => H.making i n = some key
  | .hearing (some d) => H.making i n = none ∧ H.Had key d l n
  | .tracking d => H.making i n = none ∧ H.Had key d l n
  | .leaving (some d) => H.making i n = none ∧ H.Had key d l n
  | .left (some d) => H.making i n = none ∧ H.Had key d l n
  | _ => H.making i n = none

/-- A story goes on while the caller does not move. -/
theorem Story.stays {pos : Position σ} (h : H.Story i key resolve l n pos)
    (hm : H.making i (n + 1) = H.making i n) : H.Story i key resolve l (n + 1) pos := by
  cases pos with
  | hearing d =>
      cases d with
      | none => exact hm.trans h
      | some d => exact ⟨hm.trans h.1, h.2.succ⟩
  | tracking d => exact ⟨hm.trans h.1, h.2.succ⟩
  | leaving d =>
      cases d with
      | none => exact hm.trans h
      | some d => exact ⟨hm.trans h.1, h.2.succ⟩
  | left d =>
      cases d with
      | none => exact hm.trans h
      | some d => exact ⟨hm.trans h.1, h.2.succ⟩
  | watching w => exact ⟨hm.trans h.1, h.2⟩
  | making w => exact ⟨hm.trans h.1, h.2⟩
  | _ => exact hm.trans h

/-- An inserted decision is the entry. -/
theorem entry_succ_of_inserts (h : H.event n = .inserts i key d) :
    H.entry key (n + 1) = some d := by
  rw [H.entry_succ_of_ne_quiet (by simp [h]), h]
  exact if_pos rfl

/-- A move takes the story on. -/
theorem Story.advance {pos pos' : Position σ} {flying cancelled : Bool}
    (hl : l < n) (h : H.Story i key resolve l n pos)
    (hadvance : Advance i key resolve (H.entry key n) flying cancelled (H.event n) pos pos') :
    H.Story i key resolve l (n + 1) pos' := by
  generalize ho : H.event n = o at hadvance
  generalize he : H.entry key n = entry at hadvance
  have hquiet : o = .quiet → H.making i (n + 1) = H.making i n := by
    rintro rfl
    exact making_succ_of_ne (by simp [ho, Occurrence.caller?])
  cases hadvance with
  | stays pos hother _ => exact h.stays (making_succ_of_ne (ho ▸ hother))
  | turnsBack _ => exact (hquiet rfl).trans h
  | enters _ => exact (hquiet rfl).trans h
  | hits hd => exact ⟨(hquiet rfl).trans h, n, hl, Nat.le_succ n, he.trans hd⟩
  | queues _ _ => exact (hquiet rfl).trans h
  | starts _ _ => exact making_succ_of_starts ho
  | hears hj =>
      refine ⟨?_, n + 1, Nat.lt_succ_of_lt hl, Nat.le_refl _, entry_succ_of_inserts ho⟩
      exact (making_succ_of_ne (by simpa [ho, Occurrence.caller?] using hj)).trans h
  | hearsNothing hj =>
      exact (making_succ_of_ne (by simpa [ho, Occurrence.caller?] using hj)).trans h
  | takes => exact ⟨(hquiet rfl).trans h.1, h.2.succ⟩
  | givesUp _ => exact (hquiet rfl).trans h
  | retries _ => exact (hquiet rfl).trans h
  | opens => exact ⟨(hquiet rfl).trans h, Work.remains_refl resolve⟩
  | stops _ => exact (hquiet rfl).trans h.1
  | works _ => exact ⟨(hquiet rfl).trans h.1, h.2⟩
  | goesOn hw => exact ⟨(hquiet rfl).trans h.1, hw.trans h.2⟩
  | sleeps hw => exact ⟨(hquiet rfl).trans h.1, hw.trans h.2⟩
  | inserts _ =>
      refine ⟨?_, n + 1, Nat.lt_succ_of_lt hl, Nat.le_refl _, entry_succ_of_inserts ho⟩
      exact making_succ_of_ended (by simp [ho, Occurrence.ended?]) (by simp [ho, Occurrence.caller?])
  | abandons =>
      exact making_succ_of_ended (by simp [ho, Occurrence.ended?]) (by simp [ho, Occurrence.caller?])
  | tracks => exact ⟨(hquiet rfl).trans h.1, h.2.succ⟩
  | @returns result =>
      have hm : H.making i (n + 1) = H.making i n := by simp only [making, ho]
      cases result with
      | none => exact hm.trans h
      | some d => exact ⟨hm.trans h.1, h.2.succ⟩

/-- On its course a caller tells its story. -/
theorem Course.story {pos : Nat → Position σ} (h : H.Course i key resolve l pos) (hl : l < n) :
    H.Story i key resolve l n (pos n) := by
  induction n with
  | zero => exact absurd hl (Nat.not_lt_zero l)
  | succ n ih =>
      obtain hlt | rfl := Nat.lt_succ_iff_lt_or_eq.1 hl
      · exact (ih hlt).advance hlt (h.moves n hlt)
      · rw [h.enters]
        have habsent : H.making i l = none := making_of_absent (caller?_of_calls h.calls).1
        show H.making i (l + 1) = none
        simp only [making, h.calls]
        exact habsent

/-! ## What a step tells of its caller -/

/-- What a caller does is a move from a position at which it tells its story. -/
theorem exists_move_of_event (h : (H.event n).caller? = some i)
    (hcall : ∀ key resolve, H.event n ≠ .calls i key resolve) :
    ∃ l key resolve pos pos', l < n ∧ H.event l = .calls i key resolve ∧
      H.IsAt i key resolve n pos ∧ H.Story i key resolve l n pos ∧
      Advance i key resolve (H.entry key n) (H.flying key n) (H.cancelled i n) (H.event n)
        pos pos' := by
  obtain ⟨l, key, resolve, pos, hl, hcourse⟩ := exists_course_of_event h hcall
  exact ⟨l, key, resolve, pos n, pos (n + 1), hl, hcourse.calls, hcourse.shows n hl,
    hcourse.story hl, hcourse.moves n hl⟩

/-- A run starts when there is neither an entry nor a flight, by a caller that makes nothing. -/
theorem of_starts (h : H.event n = .starts i key) :
    H.making i n = none ∧ H.entry key n = none ∧ H.flying key n = false ∧
      ∃ l resolve, l < n ∧ H.event l = .calls i key resolve := by
  obtain ⟨l, key', resolve, pos, pos', hl, hcalls, _, hstory, hmove⟩ :=
    exists_move_of_event (H := H) (n := n) (i := i) (by rw [h]; rfl) (by simp [h])
  rw [h] at hmove
  cases hmove with
  | stays _ hne _ => exact absurd rfl hne
  | starts he hf => exact ⟨hstory, he, hf, l, resolve, hl, hcalls⟩

/-- Only the caller that makes the decision inserts it, and its resolver yields it. -/
theorem of_inserts (h : H.event n = .inserts i key d) :
    H.making i n = some key ∧
      ∃ l resolve, l < n ∧ H.event l = .calls i key resolve ∧ resolve.Yields d := by
  obtain ⟨l, key', resolve, pos, pos', hl, hcalls, _, hstory, hmove⟩ :=
    exists_move_of_event (H := H) (n := n) (i := i) (by rw [h]; rfl) (by simp [h])
  rw [h] at hmove
  cases hmove with
  | stays _ hne _ => exact absurd rfl hne
  | hears hne => exact absurd rfl hne
  | inserts hw => exact ⟨hstory.1, l, resolve, hl, hcalls, hstory.2 d hw⟩

/-- Only a cancelled caller abandons the decision that it makes. -/
theorem of_abandons (h : H.event n = .abandons i key) :
    H.making i n = some key ∧ H.cancelled i n = true := by
  obtain ⟨l, key', resolve, pos, pos', hl, hcalls, ⟨m, hm, hs⟩, hstory, hmove⟩ :=
    exists_move_of_event (H := H) (n := n) (i := i) (by rw [h]; rfl) (by simp [h])
  rw [h] at hmove
  cases hmove with
  | stays _ hne _ => exact absurd rfl hne
  | hearsNothing hne => exact absurd rfl hne
  | abandons =>
      refine ⟨hstory, ?_⟩
      unfold cancelled
      rw [hm]
      exact hs.cancelled trivial

/-- A caller that returns a decision has seen it as the entry of its key since its call. -/
theorem of_returns (h : H.event n = .returns i (some d)) :
    ∃ l key resolve, l < n ∧ H.event l = .calls i key resolve ∧ H.Had key d l n := by
  obtain ⟨l, key, resolve, pos, pos', hl, hcalls, _, hstory, hmove⟩ :=
    exists_move_of_event (H := H) (n := n) (i := i) (by rw [h]; rfl) (by simp [h])
  rw [h] at hmove
  cases hmove with
  | stays _ hne _ => exact absurd rfl hne
  | returns => exact ⟨l, key, resolve, hl, hcalls, hstory.2⟩

/-- A run goes on since it was started. -/
theorem making_of_succ (h : H.making i (n + 1) = some key) :
    H.event n = .starts i key ∨ H.making i n = some key := by
  cases ho : H.event n with
  | starts j key' =>
      simp only [making, ho] at h
      split at h
      · next hij =>
          cases h
          exact .inl (by rw [hij])
      · exact .inr h
  | inserts j key' d =>
      simp only [making, ho] at h
      split at h
      · cases h
      · exact .inr h
  | abandons j key' =>
      simp only [making, ho] at h
      split at h
      · cases h
      · exact .inr h
  | _ =>
      simp only [making, ho] at h
      exact .inr h

/-- The decision that a caller makes it makes in a run. -/
theorem exists_run (h : H.making i n = some key) : ∃ a, H.Run i key a n := by
  induction n with
  | zero => cases h
  | succ n ih =>
      obtain hstarts | hmaking := making_of_succ h
      · refine ⟨n, hstarts, Nat.lt_succ_self n, fun k hk hk' => ?_⟩
        obtain rfl : k = n + 1 := by omega
        exact h
      · obtain ⟨a, hrun⟩ := ih hmaking
        refine ⟨a, hrun.starts, Nat.lt_succ_of_lt hrun.lt, fun k hk hk' => ?_⟩
        obtain rfl | hlt := Nat.eq_or_lt_of_le hk'
        · exact h
        · exact hrun.making k hk (Nat.le_of_lt_succ hlt)

end TrialRouting.Interleaving
