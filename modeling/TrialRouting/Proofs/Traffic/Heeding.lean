import Mathlib.Order.WellFounded
import TrialRouting.Proofs.Traffic.Progress

/-!
# TrialRouting.Proofs.Traffic.Heeding

Cancelled callers that heed their cancellation.  There are positions from which
a caller looks at its token before it makes anything of what it has
(`Position.Heeds`).  A cancelled caller goes from one to the next of them
(`Advance.heeds`), and it does go on when it is chosen
(`Traffic.exists_child_go`); so it returns without a decision, if only it is
woken and chosen again and again (`IsAt.exists_returns`).
-/

namespace TrialRouting

variable {σ : Type}

/-! ## One step of a member -/

namespace Crowd

theorem token_call {α : Type} (key : DecisionKey) (n : Nat) (d : Option Decision)
    (m : Member σ α) : (call key n d m).token = m.token := by
  unfold call
  split <;> rfl

theorem getElem?_between {β : Type} (before after : List β) (x : β) :
    (before ++ x :: after)[before.length]? = some x := by
  simp

/-- A member that is ready takes a step of its program, unless that is a claim or is done, and stays
cancelled. -/
theorem exists_afterReady (c : Crowd σ (Option Decision)) (p : Place c.members) :
    ∃ m, (c.afterReady p).members[p.before.length]? = some m ∧
      (p.element.token.cancelled = true → m.token.cancelled = true) ∧
      ((∃ key k, p.element.program = .claim key k) ∨ (∃ a, p.element.program = .done a) ∨
        Program.Child m.program p.element.program) := by
  unfold afterReady
  dsimp only
  have hat := getElem?_between p.before p.after
  cases hprog : p.element.program with
  | done a => exact ⟨_, hat _, id, .inr (.inl ⟨a, rfl⟩)⟩
  | note n q => exact ⟨_, hat _, id, .inr (.inr (.note n q))⟩
  | act u k => exact ⟨_, hat _, id, .inr (.inr (.act u k _))⟩
  | sleep ms q => exact ⟨_, hat _, fun h => by simp [Member.rest, h], .inr (.inr (.sleep ms q))⟩
  | cancelled k => exact ⟨_, hat _, id, .inr (.inr (.cancelled k _))⟩
  | cancel q => exact ⟨_, hat _, fun _ => rfl, .inr (.inr (.cancel q))⟩
  | claim key k =>
      dsimp only
      split
      · exact ⟨_, hat _, id, .inl ⟨key, k, rfl⟩⟩
      · split
        · exact ⟨_, hat _, fun h => by simp [Member.rest, h], .inl ⟨key, k, rfl⟩⟩
        · exact ⟨_, hat _, id, .inl ⟨key, k, rfl⟩⟩
  | settle key d q =>
      refine ⟨call key c.drawn d { p.element with program := q }, ?_, ?_, ?_⟩
      · show ((p.before ++ _ :: p.after).map (call key c.drawn d))[p.before.length]? = _
        rw [List.getElem?_map, hat, Option.map_some]
      · rw [token_call]
        exact id
      · rw [program_call]
        exact .inr (.inr (.settle key d q))
  | track key q => exact ⟨_, hat _, id, .inr (.inr (.track key q))⟩

/-- A member that hears of no decision gives up its claim if it has been cancelled. -/
theorem exists_afterCalled (c : Crowd σ (Option Decision)) (p : Place c.members)
    (d : Option Decision) :
    ∃ m, (c.afterCalled p d).members[p.before.length]? = some m ∧
      (p.element.token.cancelled = true → m.token.cancelled = true) ∧
      (d = none → p.element.token.cancelled = true → ∀ key k, p.element.program = .claim key k →
        Program.Child m.program p.element.program) := by
  unfold afterCalled
  dsimp only
  have hat := getElem?_between p.before p.after
  split
  · next key k hprog =>
      split
      · exact ⟨_, hat _, id, fun h => nomatch h⟩
      · split
        · refine ⟨_, hat _, id, fun _ _ key' k' hprog' => ?_⟩
          rw [hprog]
          exact .claim key k _
        · next hlive => exact ⟨_, hat _, id, fun _ hc => absurd hc hlive⟩
  · next hclaim =>
      exact ⟨_, hat _, id, fun _ _ key k hprog => absurd hprog (hclaim key k)⟩

end Crowd

theorem Occurrence.token_heard (o : Occurrence σ) (n : Nat) (m : Member σ (Option Decision)) :
    (o.heard n m).token = m.token := by
  cases o with
  | inserts i key d => exact Crowd.token_call key n (some d) m
  | abandons i key => exact Crowd.token_call key n none m
  | _ => rfl

theorem Member.token_awake (m : Member σ (Option Decision)) : m.awake.token = m.token := by
  unfold Member.awake
  split <;> rfl

namespace Traffic

variable {t : Traffic σ} {ch : Choice σ} {i : Nat} {m : Member σ (Option Decision)}

theorem caller?_next_of_go {c : Crowd σ (Option Decision)} (hgo : t.crowd.go i = c)
    (hm : c.members[i]? = some m) : (t.next (.go i)).caller? i = some m := by
  subst hgo
  exact hm

/-- A cancelled caller stays cancelled. -/
theorem Orderly.cancelled_next (h : t.Orderly) (hm : t.caller? i = some m)
    (hc : m.token.cancelled = true) :
    ∃ m', (t.next ch).caller? i = some m' ∧ m'.token.cancelled = true := by
  by_cases hgo : ch = .go i
  · subst hgo
    by_cases hready : m.standing = .ready
    · obtain ⟨p, rfl, rfl, hgo⟩ := Crowd.go_of_ready hm hready
      obtain ⟨m', hm', hc', -⟩ := Crowd.exists_afterReady t.crowd p
      exact ⟨m', caller?_next_of_go hgo hm', hc' hc⟩
    · by_cases hcalled : ∃ n d, m.standing = .called n d
      · obtain ⟨n, d, hcalled⟩ := hcalled
        obtain ⟨p, rfl, rfl, hgo⟩ := Crowd.go_of_called hm hcalled
        obtain ⟨m', hm', hc', -⟩ := Crowd.exists_afterCalled t.crowd p d
        exact ⟨m', caller?_next_of_go hgo hm', hc' hc⟩
      · have hstill := Crowd.go_of_resting hm hready fun n d h => hcalled ⟨n, d, h⟩
        exact ⟨m, caller?_next_of_go hstill hm, hc⟩
  · obtain hsame | hcancelled | ⟨-, hwoken⟩ | ⟨o, n, hheard⟩ := h.next_of_unchosen hm hgo
    · exact ⟨m, hsame, hc⟩
    · exact ⟨m.cancelled, hcancelled, rfl⟩
    · exact ⟨m.awake, hwoken, (congrArg Token.cancelled m.token_awake).trans hc⟩
    · exact ⟨o.heard n m, hheard, (congrArg Token.cancelled (o.token_heard n m)).trans hc⟩

end Traffic

/-! ## Positions of heed -/

namespace Position

/-- The positions from which a caller looks at its token before it makes anything of what it has, or
has done so. -/
def Heeds : Position σ → Prop
  | .entering => True
  | .hearing none => True
  | .opening => True
  | .watching _ => True
  | .failing => True
  | .leaving none => True
  | _ => False

/-- How many moves are left to a cancelled caller there, before it returns. -/
def rank : Position σ → Nat
  | .opening => 3
  | .watching _ => 2
  | .leaving _ => 0
  | _ => 1

variable {key key' : DecisionKey} {resolve : Work σ Decision} {pos : Position σ}

/-- Of these only a caller that has waited in vain claims next. -/
theorem Heeds.hearing_of_claim {k : Claim → Program σ (Option Decision)} (h : pos.Heeds)
    (hprog : pos.program key resolve = .claim key' k) : pos = .hearing none := by
  cases pos with
  | hearing d =>
      cases d with
      | none => rfl
      | some d => exact h.elim
  | asking => exact h.elim
  | queueing => exact h.elim
  | making w => exact h.elim
  | _ => cases hprog

/-- Of these only a caller that has nothing more to do is done. -/
theorem Heeds.leaving_of_done {a : Option Decision} (h : pos.Heeds)
    (hprog : pos.program key resolve = .done a) : pos = .leaving none := by
  cases pos with
  | leaving result =>
      cases result with
      | none => rfl
      | some d => exact h.elim
  | left result => exact h.elim
  | making w => exact h.elim
  | _ => cases hprog

/-- Only a caller that has waited is called. -/
theorem hearing_of_called {n : Nat} {d : Option Decision} (h : pos.Stands key (.called n d)) :
    pos = .hearing d := by
  cases pos with
  | hearing d' =>
      obtain ⟨n', hn'⟩ := h
      cases hn'
      rfl
  | watching w =>
      obtain hready | ⟨time, hdue⟩ := h
      · cases hready
      · cases hdue
  | left result =>
      obtain ⟨time, htime⟩ := h
      cases htime
  | _ => cases h

end Position

/-- A cancelled caller at a position of heed stays, or goes to the next one, or returns. -/
theorem Advance.heeds {i : Nat} {key : DecisionKey} {resolve : Work σ Decision}
    {entry : Option Decision} {flying : Bool} {o : Occurrence σ} {pos pos' : Position σ}
    (h : Advance i key resolve entry flying true o pos pos') (hheeds : pos.Heeds) :
    pos' = pos ∨ (pos'.Heeds ∧ pos'.rank < pos.rank) ∨ o = .returns i none := by
  cases h with
  | stays pos _ _ => exact .inl rfl
  | turnsBack _ => exact .inr (.inl ⟨trivial, Nat.zero_lt_one⟩)
  | enters hlive => cases hlive
  | givesUp _ => exact .inr (.inl ⟨trivial, Nat.zero_lt_one⟩)
  | retries hlive => cases hlive
  | opens => exact .inr (.inl ⟨trivial, Nat.lt_succ_self 2⟩)
  | stops _ => exact .inr (.inl ⟨trivial, Nat.lt_succ_self 1⟩)
  | works hlive => cases hlive
  | abandons => exact .inr (.inl ⟨trivial, Nat.zero_lt_one⟩)
  | @returns result =>
      cases result with
      | none => exact .inr (.inr rfl)
      | some d => exact hheeds.elim
  | _ => exact hheeds.elim

namespace Traffic

variable {t : Traffic σ} {i : Nat} {m : Member σ (Option Decision)} {key : DecisionKey}
  {resolve : Work σ Decision} {pos : Position σ}

/-- A cancelled caller at a position of heed takes a step of its program when it is chosen, or has
come to the end. -/
theorem exists_child_go (hm : t.caller? i = some m) (hs : pos.Shows key resolve m)
    (hheeds : pos.Heeds) (hend : pos ≠ .leaving none) (hc : m.token.cancelled = true)
    (hable : m.Able) :
    ∃ m', (t.next (.go i)).caller? i = some m' ∧ Program.Child m'.program m.program := by
  obtain hst | ⟨n, d, hst⟩ := hable
  · obtain ⟨p, rfl, rfl, hgo⟩ := Crowd.go_of_ready hm hst
    obtain ⟨m', hm', -, ⟨key', k, hclaim⟩ | ⟨a, hdone⟩ | hchild⟩ :=
      Crowd.exists_afterReady t.crowd p
    · obtain rfl := hheeds.hearing_of_claim (hs.program.symm.trans hclaim)
      obtain ⟨n, hcalled⟩ := hs.standing
      cases hst.symm.trans hcalled
    · exact absurd (hheeds.leaving_of_done (hs.program.symm.trans hdone)) hend
    · exact ⟨m', caller?_next_of_go hgo hm', hchild⟩
  · obtain rfl := Position.hearing_of_called (hst ▸ hs.standing)
    obtain ⟨p, rfl, rfl, hgo⟩ := Crowd.go_of_called hm hst
    obtain ⟨m', hm', -, hchild⟩ := Crowd.exists_afterCalled t.crowd p d
    have hd : d = none := by
      cases d with
      | none => rfl
      | some d => exact hheeds.elim
    exact ⟨m', caller?_next_of_go hgo hm', hchild hd hc key _ hs.program⟩

end Traffic

/-! ## A cancelled caller returns -/

namespace Interleaving

variable {H : Interleaving σ} {i n m : Nat} {key : DecisionKey} {resolve : Work σ Decision}
  {pos : Position σ}

theorem cancelled_eq_of_caller? {m : Member σ (Option Decision)}
    (hm : (H.traffic n).caller? i = some m) : H.cancelled i n = m.token.cancelled := by
  unfold cancelled
  rw [hm]
  rfl

theorem cancelled_succ (h : H.cancelled i n = true) : H.cancelled i (n + 1) = true := by
  cases hm : (H.traffic n).caller? i with
  | none =>
      unfold cancelled at h
      rw [hm] at h
      cases h
  | some m =>
      rw [cancelled_eq_of_caller? hm] at h
      obtain ⟨m', hm', hc'⟩ := (H.orderly n).cancelled_next hm h
      exact (cancelled_eq_of_caller? (n := n + 1) hm').trans hc'

theorem cancelled_of_le (h : H.cancelled i n = true) (hnm : n ≤ m) : H.cancelled i m = true := by
  induction hnm with
  | refl => exact h
  | step _ ih => exact cancelled_succ ih

/-- The caller is woken and chosen again and again. -/
def Attended (H : Interleaving σ) (i : Nat) : Prop :=
  ∀ n, (∃ k, H.choices (n + k) = .wake i) ∧ ∃ k, H.choices (n + k) = .go i

/-- The caller is at the position, and goes on as soon as it is chosen. -/
def IsAbleAt (H : Interleaving σ) (i : Nat) (key : DecisionKey) (resolve : Work σ Decision) (n : Nat)
    (pos : Position σ) : Prop :=
  ∃ m, (H.traffic n).caller? i = some m ∧ pos.Shows key resolve m ∧ m.Able

/-- A caller that can go on does so when it is chosen next. -/
theorem IsAbleAt.exists_go {k : Nat} (h : H.IsAbleAt i key resolve n pos)
    (hgo : H.choices (n + k) = .go i) :
    ∃ n', n ≤ n' ∧ H.IsAbleAt i key resolve n' pos ∧ H.choices n' = .go i := by
  induction k generalizing n with
  | zero => exact ⟨n, Nat.le_refl n, h, hgo⟩
  | succ k ih =>
      by_cases hnow : H.choices n = .go i
      · exact ⟨n, Nat.le_refl n, h, hnow⟩
      · obtain ⟨m, hm, hs, hable⟩ := h
        have hnext : H.IsAbleAt i key resolve (n + 1) pos := by
          obtain hsame | hcancelled := (H.orderly n).next_of_able hm hable hnow
          · exact ⟨m, hsame, hs, hable⟩
          · exact ⟨m.cancelled, hcancelled, hs.cancel, hable⟩
        obtain ⟨n', hn', h'⟩ := ih hnext (by rwa [Nat.add_right_comm, Nat.add_assoc])
        exact ⟨n', Nat.le_of_succ_le hn', h'⟩

/-- A caller that sleeps does so until it is woken, and then it can go on. -/
theorem sleeps_or_isAble {m : Member σ (Option Decision)} {time : Nat}
    (hm : (H.traffic n).caller? i = some m) (hs : pos.Shows key resolve m)
    (hst : m.standing = .due time) :
    H.IsAbleAt i key resolve (n + 1) pos ∨ H.choices n ≠ .wake i ∧
      ∃ m', (H.traffic (n + 1)).caller? i = some m' ∧ pos.Shows key resolve m' ∧
        m'.standing = .due time := by
  by_cases hgo : H.choices n = .go i
  · right
    have hrests : (H.traffic n).crowd.go i = (H.traffic n).crowd :=
      Crowd.go_of_resting hm (by simp [hst]) (by simp [hst])
    refine ⟨by simp [hgo], m, ?_, hs, hst⟩
    show ((H.traffic n).next (H.choices n)).caller? i = _
    rw [hgo]
    exact Traffic.caller?_next_of_go hrests hm
  · by_cases hwake : H.choices n = .wake i
    · left
      have hwoken := Traffic.caller?_modify (t := H.traffic n) (i := i) (j := i) Member.awake
      rw [if_pos rfl, hm] at hwoken
      refine ⟨m.awake, ?_, hs.awake, .inl ?_⟩
      · show ((H.traffic n).next (H.choices n)).caller? i = _
        rw [hwake]
        exact hwoken
      · unfold Member.awake
        rw [hst]
    · right
      refine ⟨hwake, ?_⟩
      obtain hsame | hcancelled | ⟨hwake', -⟩ | ⟨o, k, hheard⟩ :=
        (H.orderly n).next_of_unchosen hm hgo
      · exact ⟨m, hsame, hs, hst⟩
      · exact ⟨m.cancelled, hcancelled, hs.cancel, hst⟩
      · exact absurd hwake' hwake
      · rw [o.heard_of_not_waiting k (by simp [hst])] at hheard
        exact ⟨m, hheard, hs, hst⟩

/-- A caller that sleeps can go on when it is woken next. -/
theorem exists_isAbleAt_of_due {m : Member σ (Option Decision)} {time k : Nat}
    (hm : (H.traffic n).caller? i = some m) (hs : pos.Shows key resolve m)
    (hst : m.standing = .due time) (hwake : H.choices (n + k) = .wake i) :
    ∃ n', n ≤ n' ∧ H.IsAbleAt i key resolve n' pos := by
  induction k generalizing n m with
  | zero =>
      obtain hable | ⟨hne, -⟩ := sleeps_or_isAble hm hs hst
      · exact ⟨n + 1, Nat.le_succ n, hable⟩
      · exact absurd hwake hne
  | succ k ih =>
      obtain hable | ⟨-, m', hm', hs', hst'⟩ := sleeps_or_isAble hm hs hst
      · exact ⟨n + 1, Nat.le_succ n, hable⟩
      · obtain ⟨n', hn', h'⟩ := ih hm' hs' hst' (by rwa [Nat.add_right_comm, Nat.add_assoc])
        exact ⟨n', Nat.le_of_succ_le hn', h'⟩

/-- A caller at a position of heed that is woken again and again can go on at some time. -/
theorem IsAt.exists_isAbleAt (h : H.IsAt i key resolve n pos) (hheeds : pos.Heeds)
    (hattended : H.Attended i) : ∃ n', n ≤ n' ∧ H.IsAbleAt i key resolve n' pos := by
  obtain ⟨m, hm, hs⟩ := h
  have hstands := hs.standing
  have hnow (hable : m.Able) : ∃ n', n ≤ n' ∧ H.IsAbleAt i key resolve n' pos :=
    ⟨n, Nat.le_refl n, m, hm, hs, hable⟩
  cases pos with
  | watching w =>
      obtain hst | ⟨time, hst⟩ := hstands
      · exact hnow (.inl hst)
      · obtain ⟨k, hwake⟩ := (hattended n).1
        exact exists_isAbleAt_of_due hm hs hst hwake
  | hearing d =>
      obtain ⟨call, hst⟩ := hstands
      exact hnow (.inr ⟨call, d, hst⟩)
  | entering => exact hnow (.inl hstands)
  | opening => exact hnow (.inl hstands)
  | failing => exact hnow (.inl hstands)
  | leaving result => exact hnow (.inl hstands)
  | _ => exact hheeds.elim

/-- A cancelled caller at a position of heed that is chosen goes to the next one, or returns. -/
theorem IsAbleAt.heeds_go (h : H.IsAbleAt i key resolve n pos) (hheeds : pos.Heeds)
    (hc : H.cancelled i n = true) (hgo : H.choices n = .go i) :
    (∃ pos', H.IsAt i key resolve (n + 1) pos' ∧ pos'.Heeds ∧ pos'.rank < pos.rank) ∨
      H.event n = .returns i none := by
  obtain ⟨m, hm, hs, hable⟩ := h
  have hcm : m.token.cancelled = true := (cancelled_eq_of_caller? hm).symm.trans hc
  by_cases hend : pos = .leaving none
  · subst hend
    right
    have hst : m.standing = .ready := hs.standing
    unfold event
    rw [hgo, Traffic.occurrence_go hm]
    simp only [Traffic.stepOf, hst, hs.program, Position.program]
  · obtain ⟨m', hm', hchild⟩ := Traffic.exists_child_go hm hs hheeds hend hcm hable
    obtain ⟨m'', pos', hm'', hs', hadvance⟩ := (H.orderly n).advance_next (H.choices n) hm hs
    have hsame : m'' = m' := Option.some.inj (hm''.symm.trans (hgo ▸ hm'))
    rw [hcm] at hadvance
    obtain rfl | ⟨hheeds', hrank⟩ | hreturns := hadvance.heeds hheeds
    · rw [hsame.symm, hs'.program, hs.program] at hchild
      exact absurd hchild (Program.child_wf.irrefl.irrefl _)
    · exact .inl ⟨pos', ⟨m'', hm'', hs'⟩, hheeds', hrank⟩
    · exact .inr hreturns

/-- **A cancelled caller that heeds its cancellation returns without a decision.** -/
theorem IsAt.exists_returns (h : H.IsAt i key resolve n pos) (hheeds : pos.Heeds)
    (hc : H.cancelled i n = true) (hattended : H.Attended i) :
    ∃ n', n ≤ n' ∧ H.event n' = .returns i none := by
  induction hrank : pos.rank using Nat.strongRecOn generalizing n pos with
  | ind r ih =>
      obtain ⟨n₁, hn₁, hable⟩ := h.exists_isAbleAt hheeds hattended
      obtain ⟨k, hgo⟩ := (hattended n₁).2
      obtain ⟨n₂, hn₂, hable, hgo⟩ := hable.exists_go hgo
      have hle : n ≤ n₂ := Nat.le_trans hn₁ hn₂
      have hc₂ := cancelled_of_le hc hle
      obtain ⟨pos', hat, hheeds', hless⟩ | hreturns := hable.heeds_go hheeds hc₂ hgo
      · obtain ⟨n', hn', hreturns⟩ :=
          ih pos'.rank (hrank ▸ hless) hat hheeds' (cancelled_succ hc₂) rfl
        exact ⟨n', Nat.le_trans hle (Nat.le_of_succ_le hn'), hreturns⟩
      · exact ⟨n₂, hle, hreturns⟩

end Interleaving

end TrialRouting
