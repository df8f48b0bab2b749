import TrialRouting.Proofs.Traffic.Heeding

/-!
# TrialRouting.Proofs.Traffic.Cancellation

What a caller returns that is cancelled before there is a decision.  It returns
none if it looks at its token once more (`TrialRouting.Proofs.Traffic.Heeding`).
But a caller does not look when it hears of the decision of another caller, nor
between its look and its claim, nor when its own run comes to an end; so it
returns a decision just if it comes by one in one of these ways after it was
cancelled (`Obtains`), and while it waits for another caller it does not return
at all.

* `Position.Has` — the positions of a caller that has a decision;
* `Advance.obtains`, `Advance.has` — the moves to these positions, and on;
* `cancelled_call` — the main theorem.

A caller that waits in vain to be heard is `handedOver`.
-/

namespace TrialRouting

variable {σ : Type}

/-! ## Callers with a decision -/

/-- A caller there has the decision. -/
def Position.Has (d : Decision) : Position σ → Prop
  | .hearing result => result = some d
  | .tracking d' => d' = d
  | .leaving result => result = some d
  | .left result => result = some d
  | _ => False

section

variable {i : Nat} {key : DecisionKey} {resolve : Work σ Decision} {entry : Option Decision}
  {flying cancelled : Bool} {o : Occurrence σ} {pos pos' : Position σ} {d : Decision}

/-- A caller that has a decision keeps it. -/
theorem Advance.has (h : Advance i key resolve entry flying cancelled o pos pos')
    (hhas : pos.Has d) : pos'.Has d := by
  cases h with
  | stays pos _ _ => exact hhas
  | takes => exact Option.some.inj hhas
  | givesUp _ => cases hhas
  | retries _ => cases hhas
  | tracks => exact congrArg some hhas
  | returns => exact hhas
  | _ => exact hhas.elim

/-- A caller comes by a decision in one of three ways. -/
theorem Advance.obtains (h : Advance i key resolve entry flying cancelled o pos pos')
    (hnot : ¬ pos.Has d) (hhas : pos'.Has d) :
    o = .inserts i key d ∨ (pos = .queueing ∧ ∃ j, o = .inserts j key d) ∨
      (pos = .asking ∧ pos' = .tracking d ∧ entry = some d) := by
  cases h with
  | stays pos _ _ => exact absurd hhas hnot
  | turnsBack _ => cases hhas
  | hits he =>
      obtain rfl := hhas
      exact .inr (.inr ⟨rfl, rfl, he⟩)
  | @hears j d' _ =>
      cases hhas
      exact .inr (.inl ⟨rfl, j, rfl⟩)
  | hearsNothing _ => cases hhas
  | takes => exact absurd (congrArg some hhas) hnot
  | givesUp _ => cases hhas
  | inserts _ =>
      obtain rfl := hhas
      exact .inl rfl
  | abandons => cases hhas
  | tracks => exact absurd (Option.some.inj hhas) hnot
  | returns => exact absurd hhas hnot
  | _ => exact hhas.elim

end

/-- Only a caller at its claim that was told to wait is waiting. -/
theorem Position.queueing_of_waiting {key key' : DecisionKey} {pos : Position σ}
    (h : pos.Stands key (.waiting key')) : pos = .queueing := by
  cases pos with
  | queueing => rfl
  | hearing d =>
      obtain ⟨n, hn⟩ := h
      cases hn
  | watching w =>
      obtain hready | ⟨time, hdue⟩ := h
      · cases hready
      · cases hdue
  | left result =>
      obtain ⟨time, htime⟩ := h
      cases htime
  | _ => cases h

namespace Interleaving

variable {H : Interleaving σ} {i c l m n : Nat} {key : DecisionKey} {resolve : Work σ Decision}
  {d : Decision} {pos : Nat → Position σ} {result : Option Decision}

/-- The caller comes by the decision at the moment: its own run inserts it, or the run of another
caller for which it waits, or it finds it at its claim. -/
def Obtains (H : Interleaving σ) (i : Nat) (key : DecisionKey) (resolve : Work σ Decision)
    (d : Decision) (n : Nat) : Prop :=
  H.event n = .inserts i key d ∨
    (H.IsAt i key resolve n .queueing ∧ ∃ j, H.event n = .inserts j key d) ∨
    (H.IsAt i key resolve n .asking ∧ H.IsAt i key resolve (n + 1) (.tracking d) ∧
      H.entry key n = some d)

/-! ## On the course of a caller -/

theorem Course.obtains (h : H.Course i key resolve l pos) (hl : l < n) (hnot : ¬ (pos n).Has d)
    (hhas : (pos (n + 1)).Has d) : H.Obtains i key resolve d n := by
  obtain hown | ⟨hqueueing, hother⟩ | ⟨hasking, htracking, hentry⟩ :=
    (h.moves n hl).obtains hnot hhas
  · exact .inl hown
  · exact .inr (.inl ⟨hqueueing ▸ h.shows n hl, hother⟩)
  · exact .inr (.inr ⟨hasking ▸ h.shows n hl, htracking ▸ h.shows (n + 1) (Nat.lt_succ_of_lt hl),
      hentry⟩)

theorem Course.has_of_obtains (h : H.Course i key resolve l pos) (hl : l < n)
    (hobtains : H.Obtains i key resolve d n) : (pos (n + 1)).Has d := by
  have hmove := h.moves n hl
  obtain hown | ⟨⟨m, hm, hs⟩, j, hother⟩ | ⟨-, ⟨m, hm, hs⟩, -⟩ := hobtains
  · rw [hown] at hmove
    generalize pos n = here, pos (n + 1) = there at hmove ⊢
    cases hmove with
    | stays _ hne _ => exact absurd rfl hne
    | hears hne => exact absurd rfl hne
    | inserts _ => rfl
  · obtain ⟨m', hm', hs'⟩ := h.shows n hl
    obtain rfl : m = m' := Option.some.inj (hm.symm.trans hm')
    have hwaiting : m.standing = .waiting key := hs.standing
    have hqueueing : pos n = .queueing :=
      Position.queueing_of_waiting (hwaiting ▸ hs'.standing)
    rw [hqueueing, hother] at hmove
    generalize pos (n + 1) = there at hmove ⊢
    cases hmove with
    | stays _ _ hended => exact absurd rfl (hended rfl)
    | hears _ => rfl
  · obtain ⟨m', hm', hs'⟩ := h.shows (n + 1) (Nat.lt_succ_of_lt hl)
    obtain rfl : m = m' := Option.some.inj (hm.symm.trans hm')
    obtain ⟨d', hpos, -, hrest⟩ := Position.tracking_of_program (hs'.program.symm.trans hs.program)
    cases hrest
    rw [hpos]
    rfl

/-- Whoever has a decision keeps it. -/
theorem Course.has_of_le (h : H.Course i key resolve l pos) (hl : l < m) (hhas : (pos m).Has d)
    (hmn : m ≤ n) : (pos n).Has d := by
  induction hmn with
  | refl => exact hhas
  | step hle ih => exact (h.moves _ (Nat.lt_of_lt_of_le hl hle)).has ih

/-- Whoever comes to have a decision obtains it in between. -/
theorem Course.exists_obtains (h : H.Course i key resolve l pos) (hl : l < c) (hcn : c ≤ n)
    (hnot : ¬ (pos c).Has d) (hhas : (pos n).Has d) :
    ∃ m, c ≤ m ∧ m < n ∧ H.Obtains i key resolve d m := by
  induction hcn with
  | refl => exact absurd hhas hnot
  | @step n hle ih =>
      by_cases hbefore : (pos n).Has d
      · obtain ⟨m, hcm, hmn, hobtains⟩ := ih hbefore
        exact ⟨m, hcm, Nat.lt_succ_of_lt hmn, hobtains⟩
      · exact ⟨n, hle, Nat.lt_succ_self n, h.obtains (Nat.lt_of_lt_of_le hl hle) hbefore hhas⟩

/-- A caller returns what it is about to leave with. -/
theorem Course.leaving_of_returns (h : H.Course i key resolve l pos) (hl : l < n)
    (hreturns : H.event n = .returns i result) : pos n = .leaving result := by
  have hmove := h.moves n hl
  rw [hreturns] at hmove
  generalize pos n = here, pos (n + 1) = there at hmove ⊢
  cases hmove with
  | stays _ hne _ => exact absurd rfl hne
  | returns => rfl

/-- While there has been no decision since its call a caller has none. -/
theorem Course.not_has (h : H.Course i key resolve l pos) (hl : l < n)
    (hvacant : ∀ k, l < k → k ≤ n → H.entry key k = none) : ¬ (pos n).Has d := by
  intro hhas
  have hhad : H.Had key d l n := by
    have hstory := h.story hl
    generalize pos n = here at hhas hstory
    cases here with
    | hearing r =>
        cases hhas
        exact hstory.2
    | tracking d' =>
        obtain rfl := hhas
        exact hstory.2
    | leaving r =>
        cases hhas
        exact hstory.2
    | left r =>
        cases hhas
        exact hstory.2
    | _ => exact hhas.elim
  obtain ⟨k, hk, hk', hentry⟩ := hhad
  rw [hvacant k hk hk'] at hentry
  cases hentry

/-! ## Decisions that are made meanwhile -/

/-- A decision that was not there and is there has been inserted in between. -/
theorem exists_inserts_between (hcn : c ≤ n) (hnone : H.entry key c = none)
    (hsome : H.entry key n = some d) :
    ∃ j m, c ≤ m ∧ m < n ∧ H.event m = .inserts j key d := by
  induction hcn with
  | refl =>
      rw [hnone] at hsome
      cases hsome
  | @step n hle ih =>
      obtain hinserts | ⟨hkept, -, -⟩ := inserts_or_kept hsome
      · obtain ⟨j, hinserts⟩ := exists_inserts_of_upkeep hinserts
        exact ⟨j, n, hle, Nat.lt_succ_self n, hinserts⟩
      · obtain ⟨j, m, hcm, hmn, hinserts⟩ := ih hkept
        exact ⟨j, m, hcm, Nat.lt_succ_of_lt hmn, hinserts⟩

/-- What is obtained after a moment without a decision has been inserted since. -/
theorem Obtains.exists_inserts (h : H.Obtains i key resolve d m) (hcm : c ≤ m)
    (hnone : H.entry key c = none) : ∃ j k, c ≤ k ∧ k ≤ m ∧ H.event k = .inserts j key d := by
  obtain hown | ⟨-, j, hother⟩ | ⟨-, -, hentry⟩ := h
  · exact ⟨i, m, hcm, Nat.le_refl m, hown⟩
  · exact ⟨j, m, hcm, Nat.le_refl m, hother⟩
  · obtain ⟨j, k, hck, hkm, hinserts⟩ := exists_inserts_between hcm hnone hentry
    exact ⟨j, k, hck, Nat.le_of_lt hkm, hinserts⟩

/-- A caller waits until the decision for which it waits is made or given up. -/
theorem IsAt.queueing_of_le (h : H.IsAt i key resolve c .queueing) (hcn : c ≤ n)
    (hended : ∀ k, c ≤ k → k < n → (H.event k).ended? ≠ some key) :
    H.IsAt i key resolve n .queueing := by
  induction hcn with
  | refl => exact h
  | @step n hle ih =>
      have hne := hended n hle (Nat.lt_succ_self n)
      obtain ⟨pos', hat, hadvance⟩ :=
        (ih fun k hk hk' => hended k hk (Nat.lt_succ_of_lt hk')).exists_advance
      generalize H.event n = o at hne hadvance
      cases hadvance with
      | stays => exact hat
      | hears _ => exact absurd rfl hne
      | hearsNothing _ => exact absurd rfl hne

/-! ## Cancelled callers -/

/-- Where a caller is that has not returned and has no decision. -/
theorem Course.heeds_or_not (h : H.Course i key resolve l pos) (hl : l < n)
    (hopen : ∀ k < n, ∀ result, H.event k ≠ .returns i result) (hnot : ∀ d, ¬ (pos n).Has d) :
    (pos n).Heeds ∨ pos n = .asking ∨ pos n = .queueing ∨ ∃ w, pos n = .making w := by
  cases hpos : pos n with
  | asking => exact .inr (.inl rfl)
  | queueing => exact .inr (.inr (.inl rfl))
  | making w => exact .inr (.inr (.inr ⟨w, rfl⟩))
  | hearing r =>
      cases r with
      | none => exact .inl trivial
      | some d => exact absurd (by rw [hpos]; rfl) (hnot d)
  | tracking d => exact absurd (by rw [hpos]; rfl) (hnot d)
  | leaving r =>
      cases r with
      | none => exact .inl trivial
      | some d => exact absurd (by rw [hpos]; rfl) (hnot d)
  | left r =>
      obtain ⟨k, hk, hreturns⟩ := h.exists_returns_of_left hl hpos
      exact absurd hreturns (hopen k hk r)
  | _ => exact .inl trivial

/-- No caller returns twice. -/
theorem not_returns_of_lt {result' : Option Decision} (hreturns : H.event m = .returns i result)
    (hmn : m < n) : H.event n ≠ .returns i result' := by
  intro hreturns'
  obtain ⟨l, key, resolve, pos, hl, hcourse⟩ := exists_course_of_event (H := H) (n := m) (i := i)
    (by rw [hreturns]; rfl) (by simp [hreturns])
  have hleft := hcourse.left_of_returns hreturns hmn
  have hleaving := hcourse.leaving_of_returns (Nat.lt_trans hl hmn) hreturns'
  cases hleft.symm.trans hleaving

/-- A cancelled caller that heeds its cancellation returns no decision. -/
theorem IsAt.result_of_heeds {pos : Position σ} (h : H.IsAt i key resolve m pos)
    (hheeds : pos.Heeds) (hc : H.cancelled i m = true) (hmn : m ≤ n)
    (hreturns : H.event n = .returns i result) : result = none := by
  obtain ⟨k, rfl⟩ := Nat.exists_eq_add_of_le hmn
  clear hmn
  induction k generalizing m pos with
  | zero =>
      have hreturns : H.event m = .returns i result := hreturns
      obtain ⟨pos', -, hadvance⟩ := h.exists_advance
      rw [hreturns] at hadvance
      cases hadvance with
      | stays _ hne _ => exact absurd rfl hne
      | returns =>
          cases result with
          | none => rfl
          | some d => exact hheeds.elim
  | succ k ih =>
      have hreturns : H.event (m + 1 + k) = .returns i result := by
        rwa [Nat.add_right_comm, Nat.add_assoc]
      obtain ⟨pos', hat, hadvance⟩ := h.exists_advance
      rw [hc] at hadvance
      obtain rfl | ⟨hheeds', -⟩ | hnow := hadvance.heeds hheeds
      · exact ih hat hheeds (cancelled_succ hc) hreturns
      · exact ih hat hheeds' (cancelled_succ hc) hreturns
      · exact absurd hreturns (not_returns_of_lt hnow (by omega))

/-- **What becomes of a cancelled call.**  A caller is cancelled while its call is in progress, and
there has been no decision of its key since the call.  Then:
it is at a position of heed, or it has looked at its token and has yet to claim the key, or it waits
for another caller, or its own run is under way;
once it is at a position of heed it returns no decision, and does return if it is woken and chosen
again and again;
while it waits for another caller it goes on waiting until that caller's run ends;
and it returns a decision just if it obtains it after it was cancelled, which is one that was inserted
since. -/
theorem cancelled_call (hcalls : H.event l = .calls i key resolve) (hlc : l < c)
    (hopen : ∀ k < c, ∀ result, H.event k ≠ .returns i result)
    (hcancelled : H.cancelled i c = true)
    (hvacant : ∀ k, l < k → k ≤ c → H.entry key k = none) :
    (∃ pos, H.IsAt i key resolve c pos ∧
      (pos.Heeds ∨ pos = .asking ∨ pos = .queueing ∨ ∃ w, pos = .making w)) ∧
    (∀ m pos, c ≤ m → H.IsAt i key resolve m pos → pos.Heeds →
      (∀ n result, m ≤ n → H.event n = .returns i result → result = none) ∧
      (H.Attended i → ∃ n, m ≤ n ∧ H.event n = .returns i none)) ∧
    (H.IsAt i key resolve c .queueing → ∀ n, c ≤ n →
      (∀ k, c ≤ k → k < n → (H.event k).ended? ≠ some key) → H.IsAt i key resolve n .queueing) ∧
    ∀ n result, H.event n = .returns i result →
      (∀ d, result = some d ↔ ∃ m, c ≤ m ∧ m < n ∧ H.Obtains i key resolve d m) ∧
      ∀ d, result = some d → ∃ j m, c ≤ m ∧ m < n ∧ H.event m = .inserts j key d := by
  obtain ⟨pos, hcourse⟩ := exists_course hcalls
  have hnot (d : Decision) : ¬ (pos c).Has d := hcourse.not_has hlc hvacant
  refine ⟨⟨pos c, hcourse.shows c hlc, hcourse.heeds_or_not hlc hopen hnot⟩, ?_,
    fun hqueueing n hcn hended => hqueueing.queueing_of_le hcn hended, ?_⟩
  · intro m pos' hcm hat hheeds
    have hc := cancelled_of_le hcancelled hcm
    exact ⟨fun n result hmn hreturns => hat.result_of_heeds hheeds hc hmn hreturns,
      fun hattended => hat.exists_returns hheeds hc hattended⟩
  · intro n result hreturns
    have hcn : c ≤ n := Nat.le_of_not_lt fun hnc => hopen n hnc result hreturns
    have hln : l < n := Nat.lt_of_lt_of_le hlc hcn
    have hleaving := hcourse.leaving_of_returns hln hreturns
    have hobtains (d : Decision) :
        result = some d ↔ ∃ m, c ≤ m ∧ m < n ∧ H.Obtains i key resolve d m := by
      constructor
      · intro hresult
        have hhas : (pos n).Has d := by
          rw [hleaving]
          exact hresult
        exact hcourse.exists_obtains hlc hcn (hnot d) hhas
      · rintro ⟨m, hcm, hmn, hobtains⟩
        have hlm : l < m := Nat.lt_of_lt_of_le hlc hcm
        have hhas := hcourse.has_of_le (Nat.lt_succ_of_lt hlm)
          (hcourse.has_of_obtains hlm hobtains) hmn
        rw [hleaving] at hhas
        exact hhas
    refine ⟨hobtains, fun d hresult => ?_⟩
    obtain ⟨m, hcm, hmn, hobtained⟩ := (hobtains d).1 hresult
    obtain ⟨j, k, hck, hkm, hinserts⟩ :=
      hobtained.exists_inserts hcm (hvacant c hlc (Nat.le_refl c))
    exact ⟨j, k, hck, Nat.lt_of_le_of_lt hkm hmn, hinserts⟩

/-! ## A waiting caller is cancelled -/

/-- Two callers for one key. The second one waits for the first one, whose resolver sleeps, and is
cancelled. Then the first one inserts its decision. -/
def handedOver : Interleaving Unit where
  capacity := 4
  state := ()
  choices n :=
    ([.call doorKey (.wait 5 (.done wideDoor)), .call doorKey (.done wideDoor),
      .go 0, .go 0, .go 0, .go 0, .go 0, .go 1, .go 1, .cancel 1, .wake 0, .go 0, .go 0,
      .go 1, .go 1, .go 1] : List (Choice Unit)).getD n (.go 0)

/-- **A cancelled caller that waits returns a decision that is made after its cancellation.** -/
theorem cancelled_waiter_returns_decision :
    handedOver.event 1 = .calls 1 doorKey (.done wideDoor) ∧
      (∀ k ≤ 10, handedOver.entry doorKey k = none) ∧ handedOver.cancelled 1 10 = true ∧
      handedOver.event 12 = .inserts 0 doorKey wideDoor ∧
      handedOver.event 15 = .returns 1 (some wideDoor) :=
  ⟨rfl, by decide, rfl, rfl, rfl⟩

/-- The second caller obtains the decision of the first one after its cancellation. -/
theorem cancelled_call_handedOver :
    (∃ m, 10 ≤ m ∧ m < 15 ∧ handedOver.Obtains 1 doorKey (.done wideDoor) wideDoor m) ∧
      ∃ j m, 10 ≤ m ∧ m < 15 ∧ handedOver.event m = .inserts j doorKey wideDoor := by
  have hopen : ∀ k < 10, ∀ result, handedOver.event k ≠ .returns 1 result := by
    have hnone : ∀ k < 10, (handedOver.event k matches .returns _ _) = false := by decide
    intro k hk result hreturns
    have hfalse := hnone k hk
    rw [hreturns] at hfalse
    cases hfalse
  have hvacant : ∀ k < 11, handedOver.entry doorKey k = none := by decide
  obtain ⟨-, -, -, hresult⟩ := cancelled_call (H := handedOver) (l := 1) (c := 10) rfl (by decide)
    hopen rfl fun k _ hk => hvacant k (Nat.lt_succ_of_le hk)
  obtain ⟨hobtains, hinserts⟩ := hresult 15 (some wideDoor) rfl
  exact ⟨(hobtains wideDoor).1 rfl, hinserts wideDoor rfl⟩

end Interleaving

end TrialRouting
