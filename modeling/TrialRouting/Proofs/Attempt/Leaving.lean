import TrialRouting.Proofs.Attempt

/-!
# TrialRouting.Proofs.Attempt.Leaving

What leaves the outermost decorator of an attempt.  A decorator settles what it
surrounds, or lets it proceed and makes something of what comes out of it.
`Leaves` says this of one decorator after the other, from the call outwards, by
the works of the decorators alone; it is what the chain as one work comes to
(`performs_surround_iff`).

* `outcome_cases` — an attempt that is not cut counts as what leaves its
  outermost decorator counts (`CountsAs`);
* `exists_unfolds_of_leaves` — whatever may leave does leave some attempt.
-/

namespace TrialRouting

variable {σ α β : Type}

/-! ## What work performs -/

namespace Work

variable {pass : Nat → Prop} {w : Work σ α} {f : α → Work σ β} {h h' : History σ} {a : α} {b : β}

/-- What work does in sequence it does one after the other. -/
theorem RunsTo.bind {w' : Work σ β} (hw : w.RunsTo pass h (.done a))
    (hf : (f a).RunsTo pass h' w') : (w.bind f).RunsTo pass (h ++ h') w' := by
  generalize hend : (Work.done a : Work σ α) = ended at hw
  induction hw with
  | here w =>
      subst hend
      exact hf
  | remark r _ ih => exact .remark r (ih hend)
  | act u s _ ih => exact .act u s (ih hend)
  | cancel _ ih => exact .cancel (ih hend)
  | wait hpass _ ih => exact .wait hpass (ih hend)

theorem performs_bind (hb : (w.bind f).Performs h (.done b)) :
    ∃ a h₁ h₂, h = h₁ ++ h₂ ∧ w.Performs h₁ (.done a) ∧ (f a).Performs h₂ (.done b) := by
  induction w generalizing h with
  | done a => exact ⟨a, [], h, rfl, .here _, hb⟩
  | remark r w ih =>
      cases hb with
      | remark _ hb =>
          obtain ⟨a, h₁, h₂, rfl, hw, hf⟩ := ih hb
          exact ⟨a, _, h₂, rfl, .remark r hw, hf⟩
  | act u k ih =>
      cases hb with
      | act _ s hb =>
          obtain ⟨a, h₁, h₂, rfl, hw, hf⟩ := ih s hb
          exact ⟨a, _, h₂, rfl, .act u s hw, hf⟩
  | wait ms w ih =>
      cases hb with
      | wait _ hb =>
          obtain ⟨a, h₁, h₂, rfl, hw, hf⟩ := ih hb
          exact ⟨a, h₁, h₂, rfl, .wait trivial hw, hf⟩
  | cancel w ih =>
      cases hb with
      | cancel hb =>
          obtain ⟨a, h₁, h₂, rfl, hw, hf⟩ := ih hb
          exact ⟨a, _, h₂, rfl, .cancel hw, hf⟩

theorem performs_done {h : History σ} {a a' : α} (hd : (Work.done a : Work σ α).Performs h (.done a')) :
    h = [] ∧ a = a' := by
  cases hd
  exact ⟨rfl, rfl⟩

/-- Work that nobody cuts off comes to its end under a guard without a budget. -/
theorem Performs.exists_unfolds (hw : w.Performs h (.done a)) :
    ∃ whole, (Program.guarded none w).Unfolds whole (.finished a) ∧ whole.own = h := by
  generalize hend : (Work.done a : Work σ α) = ended at hw
  induction hw with
  | here w =>
      subst hend
      exact ⟨[], .done _, rfl⟩
  | remark r _ ih =>
      obtain ⟨whole, hu, hown⟩ := ih hend
      exact ⟨_, .note _ hu, congrArg (_ :: ·) hown⟩
  | act u s _ ih =>
      obtain ⟨whole, hu, hown⟩ := ih hend
      exact ⟨_, .act u s hu, congrArg (_ :: ·) hown⟩
  | cancel _ ih =>
      obtain ⟨whole, hu, hown⟩ := ih hend
      exact ⟨_, .cancel hu, congrArg (_ :: ·) hown⟩
  | @wait ms w w' h _ _ ih =>
      obtain ⟨whole, hu, hown⟩ := ih hend
      by_cases hzero : ms = 0
      · exact ⟨whole, by simpa [Program.guarded, hzero] using hu, hown⟩
      · refine ⟨.slept ms :: .asked false :: whole, ?_, hown⟩
        simp only [Program.guarded, hzero, if_false]
        exact .sleep ms (.cancelled false hu)

end Work

/-! ## From the call outwards -/

/-- `Leaves a call ds h y`: the decorators and the call that they surround come to their end by the
steps of `h`, and `y` leaves the outermost of them. -/
inductive Leaves (a : Attempt) (call : Work σ Yield) :
    List (Decorator σ) → History σ → Yield → Prop where
  | called {h : History σ} {y : Yield} : call.Performs h (.done y) → Leaves a call [] h y
  | settled {d : Decorator σ} (ds : List (Decorator σ)) {h : History σ} {y : Yield} :
    (d.around a).Performs h (.done (.settle y)) → Leaves a call (d :: ds) h y
  | passed {d : Decorator σ} {ds : List (Decorator σ)} {after : Yield → Work σ Yield}
    {before inside behind : History σ} {inner y : Yield} :
    (d.around a).Performs before (.done (.proceed after)) → Leaves a call ds inside inner →
    (after inner).Performs behind (.done y) →
    Leaves a call (d :: ds) (before ++ (inside ++ behind)) y

variable {ds : List (Decorator σ)} {a : Attempt} {call : Work σ Yield} {h : History σ} {y : Yield}
  {o : AttemptOutcome} {budget : Option Duration}

/-- **What leaves the chain** leaves one decorator after the other. -/
theorem performs_surround_iff : (surround ds a call).Performs h (.done y) ↔ Leaves a call ds h y := by
  constructor
  · intro hp
    induction ds generalizing h y with
    | nil => exact .called hp
    | cons d ds ih =>
        obtain ⟨stance, _, _, rfl, haround, hp⟩ := Work.performs_bind hp
        cases stance with
        | settle y' =>
            obtain ⟨rfl, rfl⟩ := Work.performs_done hp
            rw [List.append_nil]
            exact .settled ds haround
        | proceed after =>
            obtain ⟨inner, _, _, rfl, hinner, hafter⟩ := Work.performs_bind hp
            exact .passed haround (ih hinner) hafter
  · intro hl
    induction hl with
    | called hcall => exact hcall
    | @settled d ds h y haround =>
        rw [← List.append_nil h]
        exact haround.bind (.here (.done y))
    | passed haround _ hafter ih => exact haround.bind (ih.bind hafter)

/-! ## What an attempt counts as -/

/-- The attempt counts as what leaves its decorators: an output of the type of the call is a success
and an error of its type a failure of the trial, and anything else breaks the pipeline. -/
structure CountsAs (o : AttemptOutcome) (y : Yield) : Prop where
  success : ∀ value, o = .success value ↔ y = .output value
  failed : ∀ error, o = .failed error ↔ y = .failure error
  pipeline : ∀ error, o = .pipeline error ↔ y = .foreignFailure error ∨
    y = .foreignOutput ∧
      error = "decorator replaced the trial output with a value of another type"

theorem countsAs_verdict (y : Yield) : CountsAs (.ofVerdict y.verdict) y := by
  cases y with
  | foreignOutput =>
      constructor <;> intro text <;> simp [Yield.verdict, AttemptOutcome.ofVerdict, eq_comm]
  | _ => constructor <;> simp [Yield.verdict, AttemptOutcome.ofVerdict]

/-- **An attempt that is not cut** counts as what leaves its outermost decorator. -/
theorem outcome_cases (hu : (runAttempt ds a call budget).Unfolds h o) :
    o = .cancelled ∨ (∃ after, budget = some after ∧ o = .timedOut after) ∨
      ∃ y, Leaves a call ds h.own y ∧ o = .ofVerdict y.verdict := by
  have hw := unfolds_runAttempt_iff.mp hu
  obtain ⟨-, rfl⟩ | ⟨y, hdone, rfl⟩ | ⟨ms, rest, -, -, rfl | ⟨after, rfl⟩⟩ := hw.performs
  · exact .inl rfl
  · exact .inr (.inr ⟨y, performs_surround_iff.mp hdone, rfl⟩)
  · exact .inl rfl
  · exact .inr (.inl ⟨after, hw.budget_of_timedOut, rfl⟩)

/-- Whatever may leave the decorators decides an attempt without a budget that nobody cancels. -/
theorem exists_unfolds_of_leaves (hl : Leaves a call ds h y) :
    ∃ whole, (runAttempt ds a call none).Unfolds whole (.ofVerdict y.verdict) ∧ whole.own = h := by
  obtain ⟨whole, hu, rfl⟩ := (performs_surround_iff.mpr hl).exists_unfolds
  exact ⟨_, .cancelled false (hu.map (AttemptOutcome.ofGuarded none)), rfl⟩

end TrialRouting
