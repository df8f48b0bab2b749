import TrialRouting.Proofs.Unfolding
import TrialRouting.Proofs.Yields

/-!
# TrialRouting.Proofs.Unfolding.Guarded

Work under a guard, whatever others do meanwhile.  A guard cuts work off when
the budget is used up or somebody cancels, but it adds nothing to it:

* `guarded_bind` — of two works in sequence the second begins where the first
  has finished, within what is left of the budget, or does not begin at all;
* `plain_guarded_of_remarks` — what is noted are remarks of the work;
* `yields_of_unfolds_guarded` — work that finishes gives what it yields.
-/

namespace TrialRouting

variable {σ α β : Type}

/-- Each remark of the work satisfies `P`. -/
def Work.Remarks (P : Remark → Prop) : Work σ α → Prop
  | .done _ => True
  | .remark r w => P r ∧ w.Remarks P
  | .act _ k => ∀ s, (k s).Remarks P
  | .wait _ w => w.Remarks P
  | .cancel w => w.Remarks P

theorem Work.remarks_bind {P : Remark → Prop} {w : Work σ α} {f : α → Work σ β}
    (hw : w.Remarks P) (hf : ∀ a, w.Yields a → (f a).Remarks P) : (w.bind f).Remarks P := by
  induction w with
  | done a => exact hf a (.done a)
  | remark r w ih => exact ⟨hw.1, ih hw.2 fun a ha => hf a (.remark ha)⟩
  | act u k ih => exact fun s => ih s (hw s) fun a ha => hf a (.act s ha)
  | wait ms w ih => exact ih hw fun a ha => hf a (.wait ha)
  | cancel w ih => exact ih hw fun a ha => hf a (.cancel ha)

namespace Program

/-- Guarded work that tells at its end what is left of its budget. -/
def guardedLeft : Option Nat → Work σ α → Program σ (Guarded (α × Option Nat))
  | budget, .done a => .done (.finished (a, budget))
  | budget, .remark r w => .note (.remark r) (guardedLeft budget w)
  | budget, .act u k => .act u fun s => guardedLeft budget (k s)
  | budget, .cancel w => .cancel (guardedLeft budget w)
  | none, .wait ms w =>
    if ms = 0 then guardedLeft none w else sleepGuarded ms (guardedLeft none w)
  | some left, .wait ms w =>
    if ms = 0 then guardedLeft (some left) w
    else if ms ≤ left then sleepGuarded ms (guardedLeft (some (left - ms)) w)
    else if left = 0 then .done .expired
    else sleepGuarded left (.done .expired)

/-- Goes on with more work, within what is left of the budget, if the first came to its end. -/
def resume (f : α → Work σ β) : Guarded (α × Option Nat) → Program σ (Guarded β)
  | .finished (a, left) => guarded left (f a)
  | .expired => .done .expired
  | .cancelled => .done .cancelled

/-- What a wait within a budget comes to. -/
inductive WaitsAs (σ : Type) (budget : Option Nat) (ms : Nat) : Prop where
  | none (left : Option Nat) :
    (∀ {α : Type} (w : Work σ α), guarded budget (.wait ms w) = guarded left w ∧
      guardedLeft budget (.wait ms w) = guardedLeft left w) → WaitsAs σ budget ms
  | whole (left : Option Nat) :
    (∀ {α : Type} (w : Work σ α), guarded budget (.wait ms w) = sleepGuarded ms (guarded left w) ∧
      guardedLeft budget (.wait ms w) = sleepGuarded ms (guardedLeft left w)) → WaitsAs σ budget ms
  | expired :
    (∀ {α : Type} (w : Work σ α), guarded budget (.wait ms w) = .done .expired ∧
      guardedLeft budget (.wait ms w) = .done .expired) → WaitsAs σ budget ms
  | cut (short : Nat) :
    (∀ {α : Type} (w : Work σ α), guarded budget (.wait ms w) = sleepGuarded short (.done .expired) ∧
      guardedLeft budget (.wait ms w) = sleepGuarded short (.done .expired)) → WaitsAs σ budget ms

theorem waitsAs (σ : Type) (budget : Option Nat) (ms : Nat) : WaitsAs σ budget ms := by
  by_cases hzero : ms = 0
  · refine .none budget fun w => ?_
    cases budget <;> simp [guarded, guardedLeft, hzero]
  · cases budget with
    | none => exact .whole none fun w => by simp [guarded, guardedLeft, hzero]
    | some left =>
        by_cases hle : ms ≤ left
        · exact .whole (some (left - ms)) fun w => by simp [guarded, guardedLeft, hzero, hle]
        · by_cases hleft : left = 0
          · exact .expired fun w => by simp [guarded, guardedLeft, hzero, hleft]
          · exact .cut left fun w => by simp [guarded, guardedLeft, hzero, hle, hleft]

theorem sleepGuarded_bind_resume (ms : Nat) (p : Program σ (Guarded (α × Option Nat)))
    (f : α → Work σ β) :
    (sleepGuarded ms p).bind (resume f) = sleepGuarded ms (p.bind (resume f)) := by
  refine congrArg (fun k => Program.sleep ms (.cancelled k)) (funext fun c => ?_)
  cases c <;> rfl

/-- **Two works under one guard** share its budget; the second begins only when the first has
finished. -/
theorem guarded_bind (budget : Option Nat) (w : Work σ α) (f : α → Work σ β) :
    guarded budget (w.bind f) = (guardedLeft budget w).bind (resume f) := by
  induction w generalizing budget with
  | done a => rfl
  | remark r w ih => exact congrArg (Program.note (.remark r)) (ih budget)
  | act u k ih => exact congrArg (Program.act u) (funext fun s => ih s budget)
  | cancel w ih => exact congrArg Program.cancel (ih budget)
  | wait ms w ih =>
      rw [Work.bind]
      obtain ⟨left, hw⟩ | ⟨left, hw⟩ | hw | ⟨short, hw⟩ := waitsAs σ budget ms
      · rw [(hw _).1, (hw w).2, ih]
      · rw [(hw _).1, (hw w).2, sleepGuarded_bind_resume, ih]
      · rw [(hw _).1, (hw w).2]
        rfl
      · rw [(hw _).1, (hw w).2, sleepGuarded_bind_resume]
        rfl

theorem guarded_eq_guardedLeft (budget : Option Nat) (w : Work σ α) :
    guarded budget w = (guardedLeft budget w).bind (resume .done) := by
  rw [← guarded_bind, Work.bind_done]

theorem plain_sleepGuarded {P : Note → Prop} {p : Program σ (Guarded α)} (hp : p.Plain P)
    (ms : Nat) : (sleepGuarded ms p).Plain P := by
  intro c
  cases c with
  | true => trivial
  | false => exact hp

/-- Guarded work leaves the remarks of the work and no other notes. -/
theorem plain_guardedLeft {P : Remark → Prop} {w : Work σ α} (hw : w.Remarks P)
    (budget : Option Nat) :
    (guardedLeft budget w).Plain fun n => ∃ r, n = .remark r ∧ P r := by
  induction w generalizing budget with
  | done a => trivial
  | remark r w ih => exact ⟨⟨r, rfl, hw.1⟩, ih hw.2 budget⟩
  | act u k ih => exact fun s => ih s (hw s) budget
  | cancel w ih => exact ih hw budget
  | wait ms w ih =>
      obtain ⟨left, hwait⟩ | ⟨left, hwait⟩ | hwait | ⟨short, hwait⟩ := waitsAs σ budget ms
      · rw [(hwait w).2]
        exact ih hw left
      · rw [(hwait w).2]
        exact plain_sleepGuarded (ih hw left) ms
      · rw [(hwait w).2]
        trivial
      · rw [(hwait w).2]
        refine plain_sleepGuarded ?_ short
        trivial

theorem plain_guarded_of_remarks {P : Remark → Prop} {w : Work σ α} (hw : w.Remarks P)
    (budget : Option Nat) : (guarded budget w).Plain fun n => ∃ r, n = .remark r ∧ P r := by
  rw [guarded_eq_guardedLeft]
  refine plain_bind (plain_guardedLeft hw budget) fun g => ?_
  cases g <;> trivial

theorem unfolds_sleepGuarded {ms : Nat} {p : Program σ (Guarded α)} {h : History σ} {a : α}
    (hu : (sleepGuarded ms p).Unfolds h (.finished a)) :
    ∃ h', h = .slept ms :: .asked false :: h' ∧ p.Unfolds h' (.finished a) := by
  cases hu with
  | sleep _ hu =>
      cases hu with
      | cancelled c hu =>
          cases c with
          | true => cases hu
          | false => exact ⟨_, rfl, hu⟩

/-- Guarded work that finishes gives what the work yields. -/
theorem yields_of_unfolds_guardedLeft {w : Work σ α} {budget left : Option Nat} {h : History σ}
    {a : α} (hu : (guardedLeft budget w).Unfolds h (.finished (a, left))) : w.Yields a := by
  induction w generalizing budget h with
  | done b =>
      cases hu
      exact .done a
  | remark r w ih =>
      cases hu with
      | note _ hu => exact .remark (ih hu)
  | act u k ih =>
      cases hu with
      | act _ s hu => exact .act s (ih s hu)
  | cancel w ih =>
      cases hu with
      | cancel hu => exact .cancel (ih hu)
  | wait ms w ih =>
      refine .wait ?_
      obtain ⟨left, hwait⟩ | ⟨left, hwait⟩ | hwait | ⟨short, hwait⟩ := waitsAs σ budget ms
      · rw [(hwait w).2] at hu
        exact ih hu
      · rw [(hwait w).2] at hu
        obtain ⟨_, _, hu⟩ := unfolds_sleepGuarded hu
        exact ih hu
      · rw [(hwait w).2] at hu
        cases hu
      · rw [(hwait w).2] at hu
        obtain ⟨_, _, hu⟩ := unfolds_sleepGuarded hu
        cases hu

theorem yields_of_unfolds_guarded {w : Work σ α} {budget : Option Nat} {h : History σ} {a : α}
    (hu : (guarded budget w).Unfolds h (.finished a)) : w.Yields a := by
  rw [guarded_eq_guardedLeft] at hu
  obtain ⟨g, _, _, _, hleft, hu⟩ := unfolds_bind hu
  cases g with
  | finished x =>
      cases hu
      exact yields_of_unfolds_guardedLeft hleft
  | expired => cases hu
  | cancelled => cases hu

end Program

end TrialRouting
