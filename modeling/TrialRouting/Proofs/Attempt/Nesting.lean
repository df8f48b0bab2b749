import TrialRouting.Proofs.Attempt.Leaving

/-!
# TrialRouting.Proofs.Attempt.Nesting

Decorators that keep a log.  Before it takes its stance a logging decorator
enters a mark into the journal, and when it is through with the attempt it may
enter another one, whether it has settled the attempt or let it proceed.  How a
decorator went through an attempt is its `Course`.

`nest` is the log of an attempt by the courses of the decorators that were
reached: their first marks from the outermost inwards, the call if the last of
them let it proceed, and their last marks in reverse.

* `exists_nested_of_leaves` — an attempt that comes to its end logs a nest;
* `log_of_unfolds_runAttempt` — an attempt that is cut logs the beginning of one.
-/

namespace TrialRouting

variable {σ α : Type}

/-! ## The log -/

/-- What an entry of the journal tells of a decorator of an attempt, or of its call. -/
inductive Mark where
  | before (decorator : String) (trial : TrialKey) (number : Nat)
  | called (i : Implementation)
  | after (decorator : String) (trial : TrialKey) (number : Nat)
  deriving DecidableEq, Repr

/-- The mark that a note makes when journal entries are read in the given way. -/
def Note.mark? (read : Entry → Option Mark) : Note → Option Mark
  | .remark (.entry e) => read e
  | _ => none

/-- The marks of a history. -/
def History.log (read : Entry → Option Mark) (h : History σ) : List Mark :=
  h.notes.filterMap (Note.mark? read)

theorem History.log_append (read : Entry → Option Mark) (h h' : History σ) :
    History.log read (h ++ h') = h.log read ++ h'.log read := by
  rw [log, notes_append, List.filterMap_append]
  rfl

/-- The log is the work's own: a guard notes nothing. -/
theorem History.log_own (read : Entry → Option Mark) (h : History σ) : h.own.log read = h.log read := by
  have hnotes : h.own.notes = h.notes := by
    induction h with
    | nil => rfl
    | cons step h ih =>
        cases step with
        | noted n => exact congrArg (n :: ·) ih
        | _ => exact ih
  rw [log, log, hnotes]

/-! ## Courses -/

/-- How a decorator goes through an attempt that it is reached in: whether it lets the attempt
proceed, and whether it makes a mark at the end. -/
structure Course where
  decorator : String
  proceeds : Bool
  logsAfter : Bool
  deriving DecidableEq, Repr

/-- The mark at the end of a course. -/
def Course.ending (a : Attempt) (c : Course) : List Mark :=
  if c.logsAfter then [.after c.decorator a.trial a.number] else []

/-- The log of an attempt in which the reached decorators go through the given courses, the outermost
first. -/
def nest (a : Attempt) (i : Implementation) (cs : List Course) : List Mark :=
  cs.map (fun c => .before c.decorator a.trial a.number) ++
    ((if cs.all Course.proceeds then [.called i] else []) ++ cs.reverse.flatMap (Course.ending a))

/-- The courses are those of the decorators that are reached: each but the last of them let the attempt
proceed, and if that one did too it is the innermost decorator. -/
structure Nested (habit : Course → Prop) (ds : List (Decorator σ)) (cs : List Course) : Prop where
  names : cs.map Course.decorator <+: ds.map Decorator.name
  passed : ∀ c ∈ cs.dropLast, c.proceeds = true
  whole : cs.all Course.proceeds = true → cs.length = ds.length
  habits : ∀ c ∈ cs, habit c

/-- The decorator logs each attempt that it is reached in, by courses of the given habit. -/
structure Decorator.Logs (read : Entry → Option Mark) (habit : Course → Prop) (d : Decorator σ) :
    Prop where
  settles : ∀ a h y, (d.around a).Performs h (.done (.settle y)) →
    ∃ logsAfter, habit ⟨d.name, false, logsAfter⟩ ∧
      h.log read = .before d.name a.trial a.number :: Course.ending a ⟨d.name, false, logsAfter⟩
  proceeds : ∀ a h after, (d.around a).Performs h (.done (.proceed after)) →
    h.log read = [.before d.name a.trial a.number] ∧
      ∀ y h' y', (after y).Performs h' (.done y') →
        ∃ logsAfter, habit ⟨d.name, true, logsAfter⟩ ∧
          h'.log read = Course.ending a ⟨d.name, true, logsAfter⟩

variable {read : Entry → Option Mark} {habit : Course → Prop} {d : Decorator σ}
  {ds : List (Decorator σ)} {a : Attempt} {i : Implementation} {c : Course} {cs : List Course}

theorem nest_settled (hc : c.proceeds = false) :
    nest a i [c] = .before c.decorator a.trial a.number :: c.ending a := by
  simp [nest, hc]

theorem nest_passed (hc : c.proceeds = true) :
    nest a i (c :: cs) = .before c.decorator a.trial a.number :: (nest a i cs ++ c.ending a) := by
  simp [nest, hc]

theorem nested_nil (habit : Course → Prop) : Nested habit ([] : List (Decorator σ)) [] where
  names := List.nil_prefix
  passed := by simp
  whole := fun _ => rfl
  habits := by simp

theorem nested_settled (hname : c.decorator = d.name) (hc : c.proceeds = false) (hhabit : habit c) :
    Nested habit (d :: ds) [c] where
  names := by simp [hname]
  passed := by simp
  whole := by simp [hc]
  habits := by simpa using hhabit

theorem Nested.passing (hn : Nested habit ds cs) (hname : c.decorator = d.name)
    (hc : c.proceeds = true) (hhabit : habit c) : Nested habit (d :: ds) (c :: cs) where
  names := by
    rw [List.map_cons, List.map_cons, hname]
    exact (List.prefix_cons_inj d.name).mpr hn.names
  passed := by
    cases cs with
    | nil => simp
    | cons next cs => exact List.forall_mem_cons.mpr ⟨hc, hn.passed⟩
  whole := fun hall => congrArg (· + 1) (hn.whole (by simpa [hc] using hall))
  habits := List.forall_mem_cons.mpr ⟨hhabit, hn.habits⟩

/-! ## The log of an attempt -/

variable {call : Work σ Yield} {h : History σ} {y : Yield} {o : AttemptOutcome}
  {budget : Option Duration}

/-- **An attempt that comes to its end logs a nest.** -/
theorem exists_nested_of_leaves (hlogs : ∀ d ∈ ds, d.Logs read habit)
    (hcall : ∀ h y, call.Performs h (.done y) → h.log read = [.called i])
    (hl : Leaves a call ds h y) : ∃ cs, Nested habit ds cs ∧ h.log read = nest a i cs := by
  induction hl with
  | called hdone => exact ⟨[], nested_nil habit, hcall _ _ hdone⟩
  | settled ds haround =>
      obtain ⟨logsAfter, hhabit, hlog⟩ := (hlogs _ List.mem_cons_self).settles _ _ _ haround
      refine ⟨_, nested_settled rfl rfl hhabit, ?_⟩
      rw [hlog, nest_settled rfl]
  | passed haround _ hafter ih =>
      obtain ⟨hbefore, hends⟩ := (hlogs _ List.mem_cons_self).proceeds _ _ _ haround
      obtain ⟨logsAfter, hhabit, hending⟩ := hends _ _ _ hafter
      obtain ⟨cs, hnested, hinside⟩ := ih fun d hd => hlogs d (List.mem_cons_of_mem _ hd)
      refine ⟨_, hnested.passing rfl rfl hhabit, ?_⟩
      rw [History.log_append, History.log_append, hbefore, hinside, hending, nest_passed rfl]
      rfl

/-- Work can always be brought to its end. -/
theorem Work.exists_performs_done (s : σ) (w : Work σ α) : ∃ h b, w.Performs h (.done b) := by
  induction w with
  | done b => exact ⟨[], b, .here _⟩
  | remark r w ih =>
      obtain ⟨h, b, hw⟩ := ih
      exact ⟨_, b, .remark r hw⟩
  | act u k ih =>
      obtain ⟨h, b, hw⟩ := ih s
      exact ⟨_, b, .act u s hw⟩
  | wait ms w ih =>
      obtain ⟨h, b, hw⟩ := ih
      exact ⟨h, b, .wait trivial hw⟩
  | cancel w ih =>
      obtain ⟨h, b, hw⟩ := ih
      exact ⟨_, b, .cancel hw⟩

/-- However far the decorators and their call have got, they have logged the beginning of a nest. -/
theorem exists_prefix_of_performs (s : σ) (hlogs : ∀ d ∈ ds, d.Logs read habit)
    (hcall : ∀ h y, call.Performs h (.done y) → h.log read = [.called i]) {w : Work σ Yield}
    (hw : (surround ds a call).Performs h w) :
    ∃ cs, Nested habit ds cs ∧ h.log read <+: nest a i cs := by
  -- what the whole chain would log if the work came to its end begins with what it has logged
  obtain ⟨rest, y, hrest⟩ := w.exists_performs_done s
  obtain ⟨cs, hnested, hlog⟩ :=
    exists_nested_of_leaves hlogs hcall (performs_surround_iff.mp (hw.trans hrest))
  refine ⟨cs, hnested, ?_⟩
  rw [← hlog, History.log_append]
  exact List.prefix_append _ _

/-- **An attempt logs a nest**, or the beginning of one if its budget or a cancellation cuts it. -/
theorem log_of_unfolds_runAttempt (s : σ) (hlogs : ∀ d ∈ ds, d.Logs read habit)
    (hcall : ∀ h y, call.Performs h (.done y) → h.log read = [.called i])
    (hu : (runAttempt ds a call budget).Unfolds h o) :
    ∃ cs, Nested habit ds cs ∧ h.log read <+: nest a i cs ∧
      (o = .cancelled ∨ (∃ after, budget = some after ∧ o = .timedOut after) ∨
        h.log read = nest a i cs) := by
  have hw := unfolds_runAttempt_iff.mp hu
  rw [← History.log_own]
  obtain ⟨rfl, rfl⟩ | ⟨y, hdone, rfl⟩ | ⟨ms, rest, -, hcut, ho⟩ := hw.performs
  · obtain ⟨cs, hnested, hlog⟩ := exists_prefix_of_performs s hlogs hcall
      (.here (surround ds a call))
    exact ⟨cs, hnested, hlog, .inl rfl⟩
  · obtain ⟨cs, hnested, hlog⟩ :=
      exists_nested_of_leaves hlogs hcall (performs_surround_iff.mp hdone)
    exact ⟨cs, hnested, hlog ▸ List.prefix_rfl, .inr (.inr hlog)⟩
  · obtain ⟨cs, hnested, hlog⟩ := exists_prefix_of_performs s hlogs hcall hcut
    obtain rfl | ⟨after, rfl⟩ := ho
    · exact ⟨cs, hnested, hlog, .inl rfl⟩
    · exact ⟨cs, hnested, hlog, .inr (.inl ⟨after, hw.budget_of_timedOut, rfl⟩)⟩

end TrialRouting
