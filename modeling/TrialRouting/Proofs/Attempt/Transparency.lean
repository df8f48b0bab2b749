import TrialRouting.Proofs.Attempt.Leaving
import TrialRouting.Proofs.Growth

/-!
# TrialRouting.Proofs.Attempt.Transparency

The built-in decorators around an attempt.  They let every attempt proceed and
hand on what it yields (`Decorator.BuiltIn.around_eq`); all that they add are
their lines of the log and what an observer does.  So an attempt only grows when
built-in decorators are put into its chain, at whatever places
(`growsTo_runAttempt`).

The observer is somebody else's.  Of what it does all is known that `observed`
says of its steps, and that it does not wait: nobody waits for an observer.
-/

namespace TrialRouting

variable {σ α β : Type} {alike : σ → σ → Prop} {observed : Step σ → Prop}

/-! ## Observers -/

/-- Work that does not wait, and takes only steps that satisfy `observed`. -/
def Work.Prompt (observed : Step σ → Prop) : Work σ α → Prop
  | .done _ => True
  | .remark r w => observed (.noted (.remark r)) ∧ w.Prompt observed
  | .act u k => (∀ s, observed (.acted u s)) ∧ ∀ s, (k s).Prompt observed
  | .wait _ _ => False
  | .cancel w => observed .cancelled ∧ w.Prompt observed

/-- The steps of the built-in decorators and of their observers. -/
inductive Step.BuiltIn (observed : Step σ → Prop) : Step σ → Prop where
  | creating {name : String} : name = "timing" ∨ name = "error_logging" →
    BuiltIn observed (.noted (.creating name))
  | made {u : σ → σ} (s : σ) : (∀ s, u s = s) → BuiltIn observed (.acted u s)
  | timed (a : Attempt) (ok : Bool) :
    BuiltIn observed (.noted (.remark (.event (.attemptTimed a ok))))
  | failed (a : Attempt) (identity : Option String) (error : String) :
    BuiltIn observed (.noted (.remark (.event (.attemptFailed a identity error))))
  | remarked {r : Remark} : observed (.noted (.remark r)) → BuiltIn observed (.noted (.remark r))
  | acted {u : σ → σ} {s : σ} : observed (.acted u s) → BuiltIn observed (.acted u s)
  | cancelled : observed .cancelled → BuiltIn observed .cancelled

/-- Where nobody notices the observers, nobody notices the built-in decorators. -/
theorem unnoticed_builtIn (hobserved : ∀ step, observed step → step.Unnoticed alike) {step : Step σ}
    (hstep : step.BuiltIn observed) : step.Unnoticed alike := by
  cases hstep with
  | made _ hu => exact fun s s' hs => (hu s').symm ▸ hs
  | acted hacted => exact hobserved _ hacted
  | cancelled hcancelled => exact hobserved _ hcancelled
  | _ => trivial

theorem Work.Prompt.growsTo {V : α → α → Prop} {w : Work σ β} {a b : α} (hw : w.Prompt observed)
    (hab : V a b) :
    (Work.done a).GrowsTo alike (Step.BuiltIn observed) V (w.bind fun _ => .done b) := by
  induction w with
  | done _ => exact .done hab
  | remark r w ih => exact .addRemark (.remarked hw.1) (ih hw.2)
  | act u k ih => exact .addAct (fun s => .acted (hw.1 s)) fun s => ih s (hw.2 s)
  | wait ms w _ => exact hw.elim
  | cancel w ih => exact .addCancel (.cancelled hw.1) (ih hw.2)

/-! ## Built-in decorators -/

/-- The built-in decorators, with observers whose steps satisfy `observed`. -/
inductive Decorator.BuiltIn (observed : Step σ → Prop) : Decorator σ → Prop where
  | timing (observer : Option (TimingObserver σ)) :
    (∀ observe ∈ observer, ∀ a ok, (observe a ok).Prompt observed) →
    BuiltIn observed (timingDecorator observer)
  | errorLogging (identity : Option String) : BuiltIn observed (errorLoggingDecorator identity)

/-- **A built-in decorator** lets every attempt proceed and hands on what it yields. -/
theorem Decorator.BuiltIn.around_eq {d : Decorator σ} (hd : d.BuiltIn observed) (a : Attempt) :
    ∃ after, d.around a = .done (.proceed after) ∧ ∀ alike y,
      (Work.done y).GrowsTo alike (Step.BuiltIn observed) (· = ·) (after y) := by
  cases hd with
  | timing observer hobserver =>
      refine ⟨_, rfl, fun alike y => .addRemark (.timed a y.isOk) ?_⟩
      cases observer with
      | none => exact .done rfl
      | some observe => exact (hobserver observe rfl a y.isOk).growsTo rfl
  | errorLogging identity =>
      refine ⟨_, rfl, fun alike y => ?_⟩
      split
      · exact .done rfl
      · exact .addRemark (.failed a identity _) (.done rfl)

/-! ## Other decorators -/

/-- The stances are the same, but for additions to what follows. -/
inductive Stance.GrowsTo (alike : σ → σ → Prop) (added : Step σ → Prop) :
    Stance σ → Stance σ → Prop where
  | settle (y : Yield) : Stance.GrowsTo alike added (.settle y) (.settle y)
  | proceed {after after' : Yield → Work σ Yield} :
    (∀ y, (after y).GrowsTo alike added (· = ·) (after' y)) →
    Stance.GrowsTo alike added (.proceed after) (.proceed after')

theorem Stance.GrowsTo.mono {added added' : Step σ → Prop} (hadded : ∀ step, added step → added' step)
    {stance stance' : Stance σ} (hs : stance.GrowsTo alike added stance') :
    stance.GrowsTo alike added' stance' := by
  cases hs with
  | settle y => exact .settle y
  | proceed hafter => exact .proceed fun y => (hafter y).mono hadded fun _ _ => id

/-- The decorators do the same from alike states. -/
def Decorator.Alike (alike : σ → σ → Prop) (d d' : Decorator σ) : Prop :=
  ∀ a, (d.around a).GrowsTo alike (fun _ => False) (Stance.GrowsTo alike fun _ => False) (d'.around a)

theorem Decorator.Alike.growsTo {d d' : Decorator σ} (hd : Decorator.Alike alike d d') (a : Attempt)
    (added : Step σ → Prop) :
    (d.around a).GrowsTo alike added (Stance.GrowsTo alike added) (d'.around a) :=
  (hd a).mono (fun _ => False.elim) fun _ _ => Stance.GrowsTo.mono fun _ => False.elim

/-- Where no two states are alike, every decorator does the same from alike states. -/
theorem Decorator.alike_eq (d : Decorator σ) : Decorator.Alike (· = ·) d d := by
  refine fun a => (d.around a).heeds_eq.mono (fun _ => id) fun stance _ hstance => ?_
  subst hstance
  cases stance with
  | settle y => exact .settle y
  | proceed after => exact .proceed fun y => (after y).heeds_eq

/-! ## The chain -/

variable {ds ds' : List (Decorator σ)} {call : Work σ Yield}

/-- **A chain grows** when built-in decorators are put into it, at whatever places. -/
theorem growsTo_surround
    (hds : Interspersed (Decorator.Alike alike) (Decorator.BuiltIn observed) ds ds')
    (a : Attempt) (hcall : call.Heeds alike) :
    (surround ds a call).GrowsTo alike (Step.BuiltIn observed) (· = ·) (surround ds' a call) := by
  induction hds with
  | nil => exact hcall.growsTo _
  | keep hd _ ih =>
      rw [surround_cons, surround_cons]
      refine Work.growsTo_bind (hd.growsTo a _) fun stance stance' hstance => ?_
      cases hstance with
      | settle y => exact .done rfl
      | proceed hafter => exact Work.growsTo_bind ih fun y _ hy => hy ▸ hafter y
  | @insert d ds ds' hd _ ih =>
      obtain ⟨after, haround, hafter⟩ := hd.around_eq a
      rw [surround_cons, haround, ← Work.bind_done (surround ds a call)]
      exact Work.growsTo_bind ih fun y _ hy => hy ▸ hafter alike y

/-- **An attempt grows** when built-in decorators are put into its chain. -/
theorem growsTo_runAttempt
    (hds : Interspersed (Decorator.Alike alike) (Decorator.BuiltIn observed) ds ds')
    (a : Attempt) (hcall : call.Heeds alike) (budget : Option Duration) :
    (runAttempt ds a call budget).GrowsTo alike (Step.BuiltIn observed) (· = ·)
      (runAttempt ds' a call budget) := by
  refine .cancelled fun c => ?_
  cases c with
  | true => exact .done rfl
  | false =>
      have hguarded := Program.growsTo_guarded (growsTo_surround hds a hcall)
        (budget.map Duration.clockMillis)
      exact Program.growsTo_bind hguarded fun g _ hg => hg ▸ .done rfl

/-! ## Built-in decorators alone -/

/-- Work that grows from work that is done comes to the same end. -/
theorem Work.GrowsTo.eq_of_performs {added : Step σ → Prop} {a b : α} {w : Work σ α} {h : History σ}
    (hw : (Work.done a).GrowsTo alike added (· = ·) w) (hp : w.Performs h (.done b)) : a = b := by
  generalize hdone : (Work.done a : Work σ α) = start at hw
  induction hw generalizing h with
  | done hab =>
      cases hdone
      exact hab.trans (performs_done hp).2
  | addRemark _ _ ih =>
      cases hp with
      | remark _ hp => exact ih hp hdone
  | addAct _ _ ih =>
      cases hp with
      | act _ s hp => exact ih s hp hdone
  | addCancel _ _ ih =>
      cases hp with
      | cancel hp => exact ih hp hdone
  | remark _ _ _ => cases hdone
  | act _ _ _ => cases hdone
  | wait _ _ _ => cases hdone
  | cancel _ _ => cases hdone

/-- What leaves a chain of built-in decorators is what the call has come to. -/
theorem exists_performs_of_leaves {a : Attempt} {h : History σ} {y : Yield}
    (hds : ∀ d ∈ ds, d.BuiltIn observed) (hl : Leaves a call ds h y) :
    ∃ steps, steps <+: h ∧ call.Performs steps (.done y) := by
  induction hl with
  | called hdone => exact ⟨_, List.prefix_rfl, hdone⟩
  | settled ds haround =>
      obtain ⟨after, hproceeds, -⟩ := (hds _ List.mem_cons_self).around_eq a
      rw [hproceeds] at haround
      cases haround
  | passed haround _ hafter ih =>
      obtain ⟨after', hproceeds, hgrows⟩ := (hds _ List.mem_cons_self).around_eq a
      rw [hproceeds] at haround
      cases haround
      obtain ⟨steps, hprefix, hcall⟩ := ih fun d hd => hds d (List.mem_cons_of_mem _ hd)
      obtain rfl := (hgrows (· = ·) _).eq_of_performs hafter
      exact ⟨steps, hprefix.trans (List.prefix_append _ _), hcall⟩

/-- **Built-in decorators alone** hand on what the call has come to: its output counts as a success and
its error as a failure of the trial. -/
theorem outcome_of_builtIns {a : Attempt} {budget : Option Duration} {h : History σ}
    {o : AttemptOutcome} (hds : ∀ d ∈ ds, d.BuiltIn observed)
    (hu : (runAttempt ds a call budget).Unfolds h o) :
    o = .cancelled ∨ (∃ after, budget = some after ∧ o = .timedOut after) ∨
      ∃ steps y, steps <+: h.own ∧ call.Performs steps (.done y) ∧ CountsAs o y := by
  obtain hcut | hcut | ⟨y, hleaves, rfl⟩ := outcome_cases hu
  · exact .inl hcut
  · exact .inr (.inl hcut)
  · obtain ⟨steps, hprefix, hcall⟩ := exists_performs_of_leaves hds hleaves
    exact .inr (.inr ⟨steps, y, hprefix, hcall, countsAs_verdict y⟩)

/-- The call comes to outputs and errors of its own types only. -/
def Work.Typed (call : Work σ Yield) : Prop :=
  ∀ steps y, call.Performs steps (.done y) → (∃ value, y = .output value) ∨ ∃ error, y = .failure error

/-- So a call of the trial's types never breaks the pipeline. -/
theorem ne_pipeline_of_builtIns {a : Attempt} {budget : Option Duration} {h : History σ}
    {o : AttemptOutcome} (hds : ∀ d ∈ ds, d.BuiltIn observed) (hcall : call.Typed)
    (hu : (runAttempt ds a call budget).Unfolds h o) (error : String) : o ≠ .pipeline error := by
  rintro rfl
  obtain hcut | ⟨_, -, hcut⟩ | ⟨steps, y, -, hperforms, hcounts⟩ := outcome_of_builtIns hds hu
  · cases hcut
  · cases hcut
  · obtain ⟨value, rfl⟩ | ⟨error', rfl⟩ := hcall steps y hperforms
    · cases (hcounts.success value).mpr rfl
    · cases (hcounts.failed error').mpr rfl

end TrialRouting
