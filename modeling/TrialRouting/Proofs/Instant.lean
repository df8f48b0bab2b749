import TrialRouting.Proofs.Invocation

/-!
# TrialRouting.Proofs.Instant

Work that takes no time.  It neither waits nor cancels, so no budget and no
cancellation cuts it off, and under any guard it does what it does alone
(`run_guarded_of_instant`).  So a selection that is made at once is decided as
it is made (`run_decide_of_instant`), and an attempt of a trial that answers at
once as the trial answers (`run_attempt_of_instant`).

The journal of a run (`journal`) are the entries that parties have written,
without the lines of the log.
-/

namespace TrialRouting

variable {σ α β : Type}

/-! ## The journal -/

/-- The journal entry that a remark is. -/
def Remark.entry? : Remark → Option Entry
  | .entry e => some e
  | .event _ => none

/-- The journal entry that is noted. -/
def Note.entry? : Note → Option Entry
  | .remark r => r.entry?
  | _ => none

/-- The journal entries that the notes tell of, in their order. -/
def journal (ns : List Note) : List Entry :=
  ns.filterMap Note.entry?

@[simp] theorem journal_nil : journal [] = [] := rfl

@[simp] theorem journal_append (ns ms : List Note) :
    journal (ns ++ ms) = journal ns ++ journal ms :=
  List.filterMap_append

/-- Of remarks, the journal has the entries. -/
theorem journal_map_remark (rs : List Remark) :
    journal (rs.map Note.remark) = rs.filterMap Remark.entry? := by
  unfold journal
  rw [List.filterMap_map]
  rfl

theorem reports_map_remark (rs : List Remark) : reports (rs.map Note.remark) = [] := by
  refine reports_eq_nil_of_forall fun n hn => ?_
  obtain ⟨r, -, rfl⟩ := List.mem_map.mp hn
  rfl

theorem journal_map_telemetry (calls : List TelemetryCall) :
    journal (calls.map Note.telemetry) = [] := by
  refine List.filterMap_eq_nil_iff.mpr fun n hn => ?_
  obtain ⟨call, -, rfl⟩ := List.mem_map.mp hn
  rfl

/-! ## Work without waits -/

namespace Work

/-- Nothing can cut the work off: it does not wait, and does not cancel. -/
def Instant : Work σ α → Prop
  | .done _ => True
  | .remark _ w => w.Instant
  | .act _ k => ∀ s, (k s).Instant
  | .wait _ _ => False
  | .cancel _ => False

theorem instant_bind {w : Work σ α} {f : α → Work σ β} (hw : w.Instant)
    (hf : ∀ a, (f a).Instant) : (w.bind f).Instant := by
  induction w with
  | done a => exact hf a
  | remark r w ih => exact ih hw
  | act u k ih => exact fun s => ih s (hw s)
  | wait ms w => exact hw.elim
  | cancel w => exact hw.elim

/-- One work after another: the second starts with the state that the first leaves. -/
theorem alone_bind (w : Work σ α) (f : α → Work σ β) (s : σ) :
    (w.bind f).alone s =
      let x := w.alone s
      let y := (f x.1).alone x.2.1
      (y.1, y.2.1, x.2.2 ++ y.2.2) := by
  induction w generalizing s with
  | done a => rfl
  | remark r w ih => simp [bind, alone, ih]
  | act u k ih => simp [bind, alone, ih]
  | wait ms w ih => simp [bind, alone, ih]
  | cancel w ih => simp [bind, alone, ih]

end Work

/-- **Instant work under a guard** comes to its end, whatever its budget, and does what it does
alone. -/
theorem Program.run_guarded_of_instant {w : Work σ α} (hw : w.Instant) (budget : Option Nat)
    (t : Token) (s : Session σ) :
    (guarded budget w).run t s =
      let x := w.alone s.state
      ⟨.finished x.1, t, { s with state := x.2.1 }, x.2.2.map Note.remark⟩ := by
  induction w generalizing budget s with
  | done a => rfl
  | remark r w ih => simp [guarded, run, ih hw, Work.alone]
  | act u k ih => simp [guarded, run, ih _ (hw _), Work.alone]
  | wait ms w => exact hw.elim
  | cancel w => exact hw.elim

theorem Implementation.as?_type (i : Implementation) : i.as? i.type = some i :=
  if_pos rfl

namespace Dispatcher

variable {disp : Dispatcher σ} {type : ImplementationType} {call : Implementation → Work σ Yield}
  {d : Definition σ} {ctx : Context} {trial : Trial} {i i' : Implementation} {t : Token}
  {s : Session σ}

/-! ## Instant selections -/

theorem run_replaceDisabled_of_allOn (hboard : disp.board = .allOn) (d : Definition σ)
    (kept : Decision) (t : Token) (s : Session σ) :
    (disp.replaceDisabled d kept).run t s = ⟨kept, t, s, []⟩ := by
  simp only [replaceDisabled, hboard]
  split <;> rfl

/-- Where nothing is switched off, to decide is to look the decision up. -/
theorem run_decide_of_allOn (hboard : disp.board = .allOn) (d : Definition σ) (ctx : Context)
    (t : Token) (s : Session σ) :
    (disp.decide d ctx).run t s =
      (DecisionCache.getOrResolve ⟨d.contract, ctx.scope⟩ (d.select ctx)).run t s := by
  have hon : disp.board.experimentDisabled s.state d.contract = false := by
    rw [hboard]
    rfl
  rw [run_decide_of_enabled disp d ctx t s hon]
  simp only [run_replaceDisabled_of_allOn hboard, List.append_nil]
  obtain ⟨decision, t', s', ns⟩ :=
    (DecisionCache.getOrResolve ⟨d.contract, ctx.scope⟩ (d.select ctx)).run t s
  cases decision <;> rfl

/-- **An instant selection** where nothing is kept or switched off is decided as the selection is
alone, and kept. -/
theorem run_decide_of_instant (hboard : disp.board = .allOn) (hlive : t.cancelled = false)
    (hnone : s.cache.get? ⟨d.contract, ctx.scope⟩ = none) (hinstant : (d.select ctx).Instant) :
    (disp.decide d ctx).run t s =
      let key : DecisionKey := ⟨d.contract, ctx.scope⟩
      let x := (d.select ctx).alone s.state
      ⟨some x.1, t, { s with state := x.2.1, cache := (s.cache.insert key x.1).track key },
        .selecting key :: x.2.2.map Note.remark⟩ := by
  rw [run_decide_of_allOn hboard, DecisionCache.run_getOrResolve_of_miss hlive hnone,
    Program.run_guarded_of_instant hinstant]
  simp only [DecisionCache.run_conclude, List.append_nil]

/-! ## Instant trials -/

theorem run_implementation_of_resolved (hi : disp.resolver d.contract trial s.state = .ok i)
    (htype : i.as? type = some i') (t : Token) :
    (disp.implementation type d trial).run t s =
      ⟨.ok i', t, s, [.resolving d.contract trial]⟩ := by
  rw [implementation, Program.run, Program.run_bind, Program.run_view, hi]
  simp only [htype]
  rfl

/-- **An attempt of an instant trial** that is implemented ends as the trial and its decorators do
alone. -/
theorem run_attempt_of_instant (htrial : d.trials.get? trial.key = some trial)
    (hi : disp.resolver d.contract trial s.state = .ok i) (htype : i.as? type = some i')
    {decorators : List (Decorator σ)} {number : Nat}
    (hinstant : (surround decorators (.of ctx trial.key number) (call i')).Instant)
    (hlive : t.cancelled = false) :
    (disp.attempt type call d ctx decorators trial.key number).run t s =
      let x := (surround decorators (.of ctx trial.key number) (call i')).alone s.state
      ⟨.ofVerdict x.1.verdict, t, { s with state := x.2.1 },
        .resolving d.contract trial :: .event (.attemptStarted trial.key number d.contract) ::
          x.2.2.map Note.remark⟩ := by
  have hguarded := Program.run_guarded_of_instant hinstant
    ((disp.attemptBudget d).map Duration.clockMillis) t s
  simp [attempt, htrial, Program.run_bind, run_implementation_of_resolved hi htype, runAttempt,
    Program.run, hlive, hguarded, AttemptOutcome.ofGuarded]

end Dispatcher

end TrialRouting
