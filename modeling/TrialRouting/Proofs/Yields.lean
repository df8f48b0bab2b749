import TrialRouting.Program.Session

/-!
# TrialRouting.Proofs.Yields

What work may end with.  The state that work acts on is shared: between two of
its steps others may change it.  So `w.Yields a` says that `w` ends with `a`
for some states that its actions find, one chosen anew at each action.

Work under a guard without a budget goes on step by step, and what is left of
it is again work under the guard: `stretch_guarded` lists the steps, and says
that what is left yields nothing that the whole did not (`Remains`).  So a run
that finishes gives what the work yields (`yields_of_run_guarded`).
-/

namespace TrialRouting

variable {σ α β : Type}

namespace Work

/-! ## What work yields -/

/-- The work may end with the value, whatever others do to the state meanwhile. -/
inductive Yields : Work σ α → α → Prop where
  | done (a : α) : Yields (.done a) a
  | remark {r : Remark} {w : Work σ α} {a : α} : Yields w a → Yields (.remark r w) a
  | act {u : σ → σ} {k : σ → Work σ α} {a : α} (s : σ) : Yields (k s) a → Yields (.act u k) a
  | wait {ms : Nat} {w : Work σ α} {a : α} : Yields w a → Yields (.wait ms w) a
  | cancel {w : Work σ α} {a : α} : Yields w a → Yields (.cancel w) a

/-- `Remains w' w`: what `w'` yields `w` yields too, as is the case when `w'` is left of `w`. -/
def Remains (w' w : Work σ α) : Prop :=
  ∀ a, w'.Yields a → w.Yields a

theorem remains_refl (w : Work σ α) : Remains w w := fun _ h => h

theorem Remains.trans {w₁ w₂ w₃ : Work σ α} (h : Remains w₁ w₂) (h' : Remains w₂ w₃) :
    Remains w₁ w₃ :=
  fun a ha => h' a (h a ha)

theorem yields_bind {w : Work σ α} {f : α → Work σ β} {b : β} (h : (w.bind f).Yields b) :
    ∃ a, w.Yields a ∧ (f a).Yields b := by
  induction w with
  | done a => exact ⟨a, .done a, h⟩
  | remark r w ih =>
      cases h with
      | remark h =>
          obtain ⟨a, ha, hb⟩ := ih h
          exact ⟨a, .remark ha, hb⟩
  | act u k ih =>
      cases h with
      | act s h =>
          obtain ⟨a, ha, hb⟩ := ih s h
          exact ⟨a, .act s ha, hb⟩
  | wait ms w ih =>
      cases h with
      | wait h =>
          obtain ⟨a, ha, hb⟩ := ih h
          exact ⟨a, .wait ha, hb⟩
  | cancel w ih =>
      cases h with
      | cancel h =>
          obtain ⟨a, ha, hb⟩ := ih h
          exact ⟨a, .cancel ha, hb⟩

end Work

namespace Program

/-! ## Guarded work, step by step -/

/-- `Stretch w p`: the first step of `p`, after which either the value of `w` is there or
something that remains of `w` goes on under the guard. -/
inductive Stretch (w : Work σ α) : Program σ (Guarded α) → Prop where
  | done {a : α} : w.Yields a → Stretch w (.done (.finished a))
  | note (n : Note) {w' : Work σ α} : w'.Remains w → Stretch w (.note n (guarded none w'))
  | act (u : σ → σ) {k : σ → Work σ α} :
    (∀ s, (k s).Remains w) → Stretch w (.act u fun s => guarded none (k s))
  | sleep (ms : Nat) {w' : Work σ α} :
    w'.Remains w → Stretch w (sleepGuarded ms (guarded none w'))
  | cancel {w' : Work σ α} : w'.Remains w → Stretch w (.cancel (guarded none w'))

theorem Stretch.mono {w w' : Work σ α} {p : Program σ (Guarded α)} (hw : w'.Remains w)
    (h : Stretch w' p) : Stretch w p := by
  cases h with
  | done ha => exact .done (hw _ ha)
  | note n h => exact .note n (h.trans hw)
  | act u h => exact .act u fun s => (h s).trans hw
  | sleep ms h => exact .sleep ms (h.trans hw)
  | cancel h => exact .cancel (h.trans hw)

/-- Guarded work takes one of these steps; a wait of no length is none. -/
theorem stretch_guarded (w : Work σ α) : Stretch w (guarded none w) := by
  induction w with
  | done a => exact .done (.done a)
  | remark r w _ => exact .note (.remark r) fun _ h => .remark h
  | act u k _ => exact .act u fun s _ h => .act s h
  | cancel w _ => exact .cancel fun _ h => .cancel h
  | wait ms w ih =>
      have hw : w.Remains (.wait ms w) := fun _ h => .wait h
      unfold guarded
      split
      · exact ih.mono hw
      · exact .sleep ms hw

/-- A run of guarded work that finishes gives what the work yields. -/
theorem yields_of_run_guarded {w : Work σ α} {t : Token} {s : Session σ} {a : α}
    (h : ((guarded none w).run t s).value = .finished a) : w.Yields a := by
  induction w generalizing t s with
  | done b =>
      cases h
      exact .done a
  | remark r w ih => exact .remark (ih h)
  | act u k ih => exact .act s.state (ih s.state h)
  | cancel w ih => exact .cancel (ih h)
  | wait ms w ih =>
      refine .wait ?_
      rw [guarded] at h
      split at h
      · exact ih h
      · simp only [sleepGuarded, unlessCancelled, run] at h
        split at h
        · cases h
        · exact ih h

end Program

end TrialRouting
