import TrialRouting.Proofs.Traffic.Cancellation
import Mathlib.Data.List.Nodup

/-!
# TrialRouting.Proofs.Traffic.Retrying

What becomes of a caller that is not cancelled itself while others are.  It may
wait in vain, for one caller after another, and goes back to its claim each
time; it may then wait again, or make the decision in its turn.  Nothing in the
look-up counts how often.  The bound comes from the others: a wait is foiled by
a caller that abandons its run, and a caller abandons no more than one run.

* `Course.abandons_of_foils` — what foils a wait;
* `abandons_unique` — no caller does so twice;
* `Course.foilers_balance` — every foiled wait is followed by one retry, or is the last thing
  that has happened to the caller;
* `foreign_cancellation_isolated` — the main theorem.
-/

namespace TrialRouting

variable {σ : Type}

/-! ## Callers that have given up -/

/-- A caller there returns without a decision, and does nothing else. -/
def Position.GivenUp : Position σ → Prop
  | .leaving result => result = none
  | .left result => result = none
  | _ => False

/-- A caller that has given up has done so for good. -/
theorem Advance.givenUp {i : Nat} {key : DecisionKey} {resolve : Work σ Decision}
    {entry : Option Decision} {flying cancelled : Bool} {o : Occurrence σ} {pos pos' : Position σ}
    (h : Advance i key resolve entry flying cancelled o pos pos') (hup : pos.GivenUp) :
    pos'.GivenUp := by
  cases h with
  | stays => exact hup
  | returns => exact hup
  | _ => exact hup.elim

/-- A caller that makes a decision claims nothing. -/
theorem conclude_guarded_ne_claim {key key' : DecisionKey}
    {k : Claim → Program σ (Option Decision)} (w : Work σ Decision) :
    (Program.guarded none w).bind (DecisionCache.conclude key) ≠ .claim key' k := by
  induction w with
  | wait ms w ih =>
      unfold Program.guarded
      split
      · exact ih
      · simp [Program.sleepGuarded, Program.bind]
  | _ => simp [Program.guarded, Program.bind, DecisionCache.conclude]

/-- A caller that can go on and is at its claim has not yet waited for anybody. -/
theorem Position.asking_of_ready {key key' : DecisionKey} {resolve : Work σ Decision}
    {pos : Position σ} {m : Member σ (Option Decision)} {k : Claim → Program σ (Option Decision)}
    (h : pos.Shows key resolve m) (hst : m.standing = .ready)
    (hclaim : m.program = .claim key' k) : pos = .asking := by
  obtain ⟨hprog, hstands, -⟩ := h
  rw [hprog] at hclaim
  rw [hst] at hstands
  cases pos with
  | asking => rfl
  | queueing => cases hstands
  | hearing d =>
      obtain ⟨n, hn⟩ := hstands
      cases hn
  | making w => exact absurd hclaim (conclude_guarded_ne_claim w)
  | _ => cases hclaim

namespace Interleaving

/-! ## Waits in vain -/

/-- The caller waits for another one at the moment. -/
def waiting (H : Interleaving σ) (i n : Nat) : Bool :=
  ((H.traffic n).caller? i).any fun m => m.standing matches .waiting _

/-- The caller has waited in vain at the moment, and has not gone on since. -/
def foiled (H : Interleaving σ) (i n : Nat) : Bool :=
  ((H.traffic n).caller? i).any fun m => m.standing matches .called _ none

/-- The caller is about to claim its key at the moment. -/
def claiming (H : Interleaving σ) (i n : Nat) : Bool :=
  ((H.traffic n).caller? i).any fun m =>
    m.standing matches .ready && m.program matches .claim _ _

/-- What happens at the moment foils the wait of the caller. -/
def foils (H : Interleaving σ) (i n : Nat) : Bool :=
  H.waiting i n && H.foiled i (n + 1)

/-- The caller has waited in vain, and goes back to its claim at the moment. -/
def retries (H : Interleaving σ) (i n : Nat) : Bool :=
  H.foiled i n && H.claiming i (n + 1)

/-- How often the caller has gone back to its claim before the moment. -/
def rounds (H : Interleaving σ) (i n : Nat) : Nat :=
  (List.range n).countP (H.retries i)

/-- Whoever foiled a wait of the caller before the moment, one after another. -/
def foilers (H : Interleaving σ) (i n : Nat) : List Nat :=
  (List.range n).filterMap fun m => if H.foils i m then (H.event m).caller? else none

variable {H : Interleaving σ} {i j l m n : Nat} {key : DecisionKey} {resolve : Work σ Decision}
  {pos : Nat → Position σ}

theorem rounds_succ : H.rounds i (n + 1) = H.rounds i n + (H.retries i n).toNat := by
  unfold rounds
  rw [List.range_succ, List.countP_append]
  cases h : H.retries i n <;> simp [h]

/-! ## On the course of a caller -/

theorem Course.waiting_iff (h : H.Course i key resolve l pos) (hl : l < n) :
    H.waiting i n = true ↔ pos n = .queueing := by
  obtain ⟨m, hm, hs⟩ := h.shows n hl
  unfold waiting
  rw [hm]
  constructor
  · intro hw
    cases hst : m.standing with
    | waiting key' => exact Position.queueing_of_waiting (hst ▸ hs.standing)
    | _ => simp [hst] at hw
  · intro hpos
    rw [hpos] at hs
    have hst : m.standing = .waiting key := hs.standing
    simp [hst]

theorem Course.foiled_iff (h : H.Course i key resolve l pos) (hl : l < n) :
    H.foiled i n = true ↔ pos n = .hearing none := by
  obtain ⟨m, hm, hs⟩ := h.shows n hl
  unfold foiled
  rw [hm]
  constructor
  · intro hf
    cases hst : m.standing with
    | called k d =>
        cases d with
        | none => exact Position.hearing_of_called (hst ▸ hs.standing)
        | some d => simp [hst] at hf
    | _ => simp [hst] at hf
  · intro hpos
    rw [hpos] at hs
    obtain ⟨k, hst⟩ : ∃ k, m.standing = .called k none := hs.standing
    simp [hst]

theorem Course.claiming_iff (h : H.Course i key resolve l pos) (hl : l < n) :
    H.claiming i n = true ↔ pos n = .asking := by
  obtain ⟨m, hm, hs⟩ := h.shows n hl
  unfold claiming
  rw [hm]
  constructor
  · intro hc
    cases hst : m.standing with
    | ready =>
        cases hprog : m.program with
        | claim key' k => exact Position.asking_of_ready hs hst hprog
        | _ => simp [hprog] at hc
    | _ => simp [hst] at hc
  · intro hpos
    rw [hpos] at hs
    have hst : m.standing = .ready := hs.standing
    have hprog : m.program = .claim key (DecisionCache.answered key resolve) := hs.program
    simp [hst, hprog]

/-- What foils a wait is that another caller abandons the run for which the caller waits. -/
theorem Course.abandons_of_foils (h : H.Course i key resolve l pos) (hl : l < n)
    (hfoils : H.foils i n = true) : ∃ j, j ≠ i ∧ H.event n = .abandons j key := by
  obtain ⟨hwaiting, hfoiled⟩ := Bool.and_eq_true_iff.1 hfoils
  have hmove := h.moves n hl
  rw [(h.waiting_iff hl).1 hwaiting, (h.foiled_iff (Nat.lt_succ_of_lt hl)).1 hfoiled] at hmove
  generalize H.event n = o at hmove
  cases hmove with
  | hearsNothing hj => exact ⟨_, hj, rfl⟩

/-- A caller that has given up has done so for good. -/
theorem Course.givenUp_of_le (h : H.Course i key resolve l pos) (hl : l < m)
    (hup : (pos m).GivenUp) (hmn : m ≤ n) : (pos n).GivenUp := by
  induction hmn with
  | refl => exact hup
  | step hle ih => exact (h.moves _ (Nat.lt_of_lt_of_le hl hle)).givenUp ih

/-- A caller that abandons its run is at the place for it, and gives up. -/
theorem Course.failing_of_abandons {key' : DecisionKey} (h : H.Course i key resolve l pos)
    (hl : l < n) (habandons : H.event n = .abandons i key') :
    pos n = .failing ∧ (pos (n + 1)).GivenUp := by
  have hmove := h.moves n hl
  rw [habandons] at hmove
  generalize pos n = here, pos (n + 1) = there at hmove ⊢
  cases hmove with
  | stays _ hne _ => exact absurd rfl hne
  | hearsNothing hne => exact absurd rfl hne
  | abandons => exact ⟨rfl, rfl⟩

/-! ## No caller abandons two runs -/

theorem not_abandons_of_lt {key' : DecisionKey} (habandons : H.event m = .abandons j key)
    (hmn : m < n) : H.event n ≠ .abandons j key' := by
  intro habandons'
  obtain ⟨l, keyOf, resolve, pos, hl, hcourse⟩ := exists_course_of_event (H := H) (n := m) (i := j)
    (by rw [habandons]; rfl) (by simp [habandons])
  have hup := (hcourse.failing_of_abandons hl habandons).2
  have hlater : (pos n).GivenUp := hcourse.givenUp_of_le (Nat.lt_succ_of_lt hl) hup hmn
  rw [(hcourse.failing_of_abandons (Nat.lt_trans hl hmn) habandons').1] at hlater
  exact hlater

/-- No caller abandons two runs. -/
theorem abandons_unique {key' : DecisionKey} (h : H.event m = .abandons j key)
    (h' : H.event n = .abandons j key') : m = n := by
  obtain hlt | heq | hgt := Nat.lt_trichotomy m n
  · exact absurd h' (not_abandons_of_lt h hlt)
  · exact heq
  · exact absurd h (not_abandons_of_lt h' hgt)

/-! ## Counting rounds -/

/-- A caller that has not been cancelled had not been cancelled before. -/
theorem not_cancelled_of_le (h : H.cancelled i n = false) (hmn : m ≤ n) :
    H.cancelled i m = false := by
  cases hc : H.cancelled i m with
  | false => rfl
  | true => exact absurd (cancelled_of_le hc hmn) (by simp [h])

/-- Before its call there is no caller. -/
theorem caller?_of_le_calls (h : H.event l = .calls i key resolve) (hn : n ≤ l) :
    (H.traffic n).caller? i = none := by
  cases hm : (H.traffic n).caller? i with
  | none => rfl
  | some m =>
      obtain ⟨l', _, _, hl', hcalls⟩ := exists_calls_of_caller? hm
      have := calls_unique h hcalls
      omega

/-- Nothing foils a wait of a caller that has not called. -/
theorem foils_of_le_calls (h : H.event l = .calls i key resolve) (hn : n ≤ l) :
    H.foils i n = false := by
  simp [foils, waiting, caller?_of_le_calls h hn]

theorem retries_of_le_calls (h : H.event l = .calls i key resolve) (hn : n ≤ l) :
    H.retries i n = false := by
  simp [retries, foiled, caller?_of_le_calls h hn]

/-- Every foiled wait is listed with whoever foiled it. -/
theorem Course.length_foilers_succ (h : H.Course i key resolve l pos) (hl : l < n) :
    (H.foilers i (n + 1)).length = (H.foilers i n).length + (H.foils i n).toNat := by
  unfold foilers
  rw [List.range_succ, List.filterMap_append, List.length_append]
  cases hfoils : H.foils i n with
  | false => simp [hfoils]
  | true =>
      obtain ⟨j, -, habandons⟩ := h.abandons_of_foils hl hfoils
      simp [hfoils, habandons, Occurrence.caller?]

/-- A step of a caller that is not cancelled foils its wait, or finds it foiled, just if it takes the
caller back to its claim or leaves it foiled. -/
theorem Course.foils_add_foiled (h : H.Course i key resolve l pos) (hl : l < n)
    (hlive : H.cancelled i n = false) :
    (H.foils i n).toNat + (H.foiled i n).toNat =
      (H.retries i n).toNat + (H.foiled i (n + 1)).toNat := by
  have hl' := Nat.lt_succ_of_lt hl
  have hmove := h.moves n hl
  have hwaiting := h.waiting_iff hl
  have hfoiled := h.foiled_iff hl
  have hfoiled' := h.foiled_iff hl'
  have hclaiming := h.claiming_iff hl'
  rw [hlive] at hmove
  unfold foils retries
  generalize H.event n = o, pos n = here, pos (n + 1) = there
    at hmove hwaiting hfoiled hfoiled' hclaiming
  cases hmove with
  | stays => cases hf : H.foiled i n <;> cases hw : H.waiting i n <;> simp_all
  | _ => simp_all

/-- Up to its call nothing has happened to a caller. -/
theorem Course.foilers_calls (h : H.Course i key resolve l pos) :
    H.foilers i (l + 1) = [] ∧ H.rounds i (l + 1) = 0 ∧ H.foiled i (l + 1) = false := by
  refine ⟨?_, ?_, ?_⟩
  · refine List.filterMap_eq_nil_iff.2 fun k hk => ?_
    simp [foils_of_le_calls h.calls (Nat.le_of_lt_succ (List.mem_range.1 hk))]
  · refine List.countP_eq_zero.2 fun k hk => ?_
    simp [retries_of_le_calls h.calls (Nat.le_of_lt_succ (List.mem_range.1 hk))]
  · have hnot : ¬ H.foiled i (l + 1) = true := by
      rw [h.foiled_iff (Nat.lt_succ_self l), h.enters]
      simp
    simpa using hnot

/-- A caller that is not cancelled has gone back to its claim as often as its wait was foiled,
unless it is just about to go back. -/
theorem Course.foilers_balance (h : H.Course i key resolve l pos) (hl : l < n)
    (hlive : H.cancelled i n = false) :
    (H.foilers i n).length = H.rounds i n + (H.foiled i n).toNat := by
  induction n, hl using Nat.le_induction with
  | base =>
      obtain ⟨hfoilers, hrounds, hfoiled⟩ := h.foilers_calls
      simp [hfoilers, hrounds, hfoiled]
  | succ n hl ih =>
      have hbefore := not_cancelled_of_le hlive (Nat.le_succ n)
      have hstep := h.foils_add_foiled hl hbefore
      rw [h.length_foilers_succ hl, rounds_succ, ih hbefore]
      omega

/-- A caller is foiled by any other one at most once. -/
theorem Course.nodup_foilers (h : H.Course i key resolve l pos) : (H.foilers i n).Nodup := by
  have habandons (m j : Nat)
      (hj : j ∈ if H.foils i m then (H.event m).caller? else none) :
      H.event m = .abandons j key := by
    by_cases hfoils : H.foils i m = true
    · have hl : l < m := Nat.lt_of_not_le fun hml => by
        rw [foils_of_le_calls h.calls hml] at hfoils
        cases hfoils
      obtain ⟨j', -, heq⟩ := h.abandons_of_foils hl hfoils
      rw [if_pos hfoils, heq] at hj
      obtain rfl : j' = j := by simpa [Occurrence.caller?] using hj
      exact heq
    · rw [if_neg hfoils] at hj
      cases hj
  exact List.nodup_range.filterMap fun m m' j hj hj' =>
    abandons_unique (habandons m j hj) (habandons m' j hj')

/-! ## Callers that are not cancelled -/

/-- A caller that is not cancelled returns a decision. -/
theorem Course.result_of_returns {result : Option Decision} (h : H.Course i key resolve l pos)
    (hl : l < n) (hlive : H.cancelled i n = false) (hreturns : H.event n = .returns i result) :
    ∃ d, result = some d := by
  cases result with
  | some d => exact ⟨d, rfl⟩
  | none =>
      obtain ⟨m, hm, hs⟩ := h.shows n hl
      rw [h.leaving_of_returns hl hreturns] at hs
      rw [cancelled_eq_of_caller? hm, hs.cancelled trivial] at hlive
      cases hlive

/-- **The cancellation of others.**  A caller has not been cancelled by moment `n`.  Then:
whatever it has returned is a decision, which was the entry of its key since its call and which a
completed run brought forth;
every wait of it that was foiled was foiled by another caller, which had been cancelled and abandoned
its run for the key;
no caller foiled it twice; and it has gone back to its claim no more often than there are callers
that foiled it. -/
theorem foreign_cancellation_isolated (hcalls : H.event l = .calls i key resolve)
    (hlive : H.cancelled i n = false) :
    (∀ k ≤ n, ∀ result, H.event k = .returns i result →
      ∃ d m, result = some d ∧ l < m ∧ m ≤ k ∧ H.entry key m = some d ∧ H.Resolved key d m) ∧
    (∀ m < n, H.foils i m = true →
      ∃ j a, j ≠ i ∧ H.event m = .abandons j key ∧ H.cancelled j m = true ∧ H.Run j key a m) ∧
    (H.foilers i n).Nodup ∧ H.rounds i n ≤ (H.foilers i n).length := by
  obtain ⟨pos, hcourse⟩ := exists_course hcalls
  refine ⟨?_, ?_, hcourse.nodup_foilers, ?_⟩
  · intro k hk result hreturns
    obtain ⟨l', _, _, _, hl', hcourse'⟩ := exists_course_of_event (H := H) (n := k) (i := i)
      (by rw [hreturns]; rfl) (by simp [hreturns])
    obtain rfl : l = l' := calls_unique hcalls hcourse'.calls
    obtain ⟨d, rfl⟩ := hcourse.result_of_returns hl' (not_cancelled_of_le hlive hk) hreturns
    obtain ⟨m, hlm, hmk, hentry⟩ := had_of_returns hcalls hreturns
    exact ⟨d, m, rfl, hlm, hmk, hentry, resolved_of_entry hentry⟩
  · intro m _ hfoils
    have hlm : l < m := Nat.lt_of_not_le fun hml => by
      rw [foils_of_le_calls hcalls hml] at hfoils
      cases hfoils
    obtain ⟨j, hj, habandons⟩ := hcourse.abandons_of_foils hlm hfoils
    obtain ⟨a, hrun, -⟩ := exists_run_of_abandons habandons
    exact ⟨j, a, hj, habandons, (of_abandons habandons).2, hrun⟩
  · obtain hln | hnl := Nat.lt_or_ge l n
    · have hbalance := hcourse.foilers_balance hln hlive
      omega
    · have hzero : H.rounds i n = 0 := List.countP_eq_zero.2 fun k hk => by
        simp [retries_of_le_calls hcalls (Nat.le_trans (List.mem_range.1 hk).le hnl)]
      omega

/-- The second caller of `handover` waits for the first one in vain, goes back to its claim once, and
returns the decision that it then makes. -/
theorem foreign_cancellation_isolated_handover :
    handover.foilers 1 21 = [0] ∧ handover.rounds 1 21 = 1 ∧
      ∃ j a, j ≠ 1 ∧ handover.event 12 = .abandons j doorKey ∧ handover.cancelled j 12 = true ∧
        handover.Run j doorKey a 12 := by
  have hcalls : handover.event 1 = .calls 1 doorKey (.done wideDoor) := rfl
  have hlive : handover.cancelled 1 21 = false := rfl
  obtain ⟨-, hfoiled, -, -⟩ := foreign_cancellation_isolated hcalls hlive
  exact ⟨by decide, by decide, hfoiled 12 (by decide) rfl⟩

end Interleaving

end TrialRouting
