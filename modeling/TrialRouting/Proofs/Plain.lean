import TrialRouting.Dispatcher
import TrialRouting.Program.Session

/-!
# TrialRouting.Proofs.Plain

Programs that take no part in the sharing of decisions.  All that follows the
decision of an invocation is of this kind: it runs trials and decorators, asks
the switches and reports, but it neither looks a decision up nor keeps one.

`Program.Plain P p` says this of a program `p`, and that every note of `p`
satisfies `P`.  The predicate is closed under sequencing (`plain_bind`) and
holds of guarded work (`plain_guarded`), so the parts of an invocation have it
by their shape:

* `plain_createDecorators`, `plain_attempt` — neither an attempt nor a report
  is noted while decorators are made or an attempt runs (`Note.Inward`);
* `plain_replay` — no selection is noted while trials are attempted.

`cache_run_of_plain` and `notes_run_of_plain` are what a run makes of it.
-/

namespace TrialRouting

/-! ## What a note says -/

namespace Note

/-- The trial and the number of the attempt that begins. -/
def attempt? : Note → Option (TrialKey × Nat)
  | .attempting trial number => some (trial, number)
  | _ => none

/-- The report that is made. -/
def report? : Note → Option TelemetryCall
  | .telemetry call => some call
  | _ => none

/-- The key for which a selection begins. -/
def selection? : Note → Option DecisionKey
  | .selecting key => some key
  | _ => none

/-- Notes from within a step of an invocation: what parties remark, which
decorators are made and which implementations are looked up. -/
structure Inward (n : Note) : Prop where
  attempt : n.attempt? = none
  report : n.report? = none
  selection : n.selection? = none

theorem inward_remark (r : Remark) : Inward (.remark r) := ⟨rfl, rfl, rfl⟩

theorem inward_event (e : Event) : Inward (.event e) := ⟨rfl, rfl, rfl⟩

theorem inward_creating (name : String) : Inward (.creating name) := ⟨rfl, rfl, rfl⟩

theorem inward_resolving (contract : ContractId) (trial : Trial) :
    Inward (.resolving contract trial) := ⟨rfl, rfl, rfl⟩

end Note

/-- The attempts that the notes tell of, in their order. -/
def attempts (ns : List Note) : List (TrialKey × Nat) :=
  ns.filterMap Note.attempt?

/-- The reports that the notes tell of, in their order. -/
def reports (ns : List Note) : List TelemetryCall :=
  ns.filterMap Note.report?

@[simp] theorem attempts_nil : attempts [] = [] := rfl

@[simp] theorem attempts_append (ns ms : List Note) :
    attempts (ns ++ ms) = attempts ns ++ attempts ms :=
  List.filterMap_append

@[simp] theorem attempts_attempting (key : TrialKey) (number : Nat) (ns : List Note) :
    attempts (.attempting key number :: ns) = (key, number) :: attempts ns := rfl

theorem mem_attempts_iff {ns : List Note} {key : TrialKey} {number : Nat} :
    (key, number) ∈ attempts ns ↔ .attempting key number ∈ ns := by
  unfold attempts
  rw [List.mem_filterMap]
  constructor
  · rintro ⟨n, hn, hkey⟩
    cases n with
    | attempting key' number' =>
        cases hkey
        exact hn
    | _ => cases hkey
  · intro hn
    exact ⟨_, hn, rfl⟩

theorem attempts_eq_nil_of_forall {ns : List Note} (h : ∀ n ∈ ns, n.attempt? = none) :
    attempts ns = [] :=
  List.filterMap_eq_nil_iff.mpr h

@[simp] theorem reports_nil : reports [] = [] := rfl

@[simp] theorem reports_append (ns ms : List Note) :
    reports (ns ++ ms) = reports ns ++ reports ms :=
  List.filterMap_append

theorem reports_eq_nil_of_forall {ns : List Note} (h : ∀ n ∈ ns, n.report? = none) :
    reports ns = [] :=
  List.filterMap_eq_nil_iff.mpr h

/-! ## Plain programs -/

namespace Program

variable {σ α β : Type} {P Q : Note → Prop}

/-- The program takes no part in the sharing of decisions, and each of its
notes satisfies `P`. -/
def Plain (P : Note → Prop) : Program σ α → Prop
  | .done _ => True
  | .note n p => P n ∧ p.Plain P
  | .act _ k => ∀ s, (k s).Plain P
  | .sleep _ p => p.Plain P
  | .cancelled k => ∀ c, (k c).Plain P
  | .cancel p => p.Plain P
  | .claim _ _ => False
  | .settle _ _ _ => False
  | .track _ _ => False

theorem Plain.mono (h : ∀ n, P n → Q n) {p : Program σ α} (hp : p.Plain P) : p.Plain Q := by
  induction p with
  | done a => trivial
  | note n p ih => exact ⟨h n hp.1, ih hp.2⟩
  | act u k ih => exact fun s => ih s (hp s)
  | sleep ms p ih => exact ih hp
  | cancelled k ih => exact fun c => ih c (hp c)
  | cancel p ih => exact ih hp
  | claim key k => exact hp.elim
  | settle key d p => exact hp.elim
  | track key p => exact hp.elim

theorem plain_bind {p : Program σ α} {f : α → Program σ β} (hp : p.Plain P)
    (hf : ∀ a, (f a).Plain P) : (p.bind f).Plain P := by
  induction p with
  | done a => exact hf a
  | note n p ih => exact ⟨hp.1, ih hp.2⟩
  | act u k ih => exact fun s => ih s (hp s)
  | sleep ms p ih => exact ih hp
  | cancelled k ih => exact fun c => ih c (hp c)
  | cancel p ih => exact ih hp
  | claim key k => exact hp.elim
  | settle key d p => exact hp.elim
  | track key p => exact hp.elim

theorem plain_view (f : σ → α) : (view f).Plain P := fun _ => trivial

theorem plain_modifyGet (f : σ → α × σ) : (modifyGet f).Plain P := fun _ => trivial

theorem plain_tellAll {ns : List Note} (h : ∀ n ∈ ns, P n) :
    (tellAll ns : Program σ Unit).Plain P := by
  induction ns with
  | nil => trivial
  | cons n ns ih =>
      exact ⟨h n List.mem_cons_self, ih fun m hm => h m (List.mem_cons_of_mem n hm)⟩

/-- Guarded work is plain, whatever the work: a party only leaves remarks. -/
theorem plain_guarded (h : ∀ r, P (.remark r)) (budget : Option Nat) (w : Work σ α) :
    (guarded budget w).Plain P := by
  induction w generalizing budget with
  | done a => trivial
  | remark r w ih => exact ⟨h r, ih budget⟩
  | act u k ih => exact fun s => ih s budget
  | cancel w ih => exact ih budget
  | wait ms w ih =>
      have hsleep : ∀ (ms : Nat) (p : Program σ (Guarded α)), p.Plain P →
          (sleepGuarded ms p).Plain P := by
        intro ms p hp c
        cases c with
        | true => trivial
        | false => exact hp
      cases budget with
      | none =>
          rw [guarded]
          split
          · exact ih none
          · exact hsleep ms _ (ih none)
      | some left =>
          rw [guarded]
          split
          · exact ih (some left)
          · split
            · exact hsleep ms _ (ih (some (left - ms)))
            · split
              · trivial
              · exact hsleep left _ trivial

/-! ## Runs of plain programs -/

/-- A plain program runs alike whatever decisions are kept. -/
theorem run_of_plain {p : Program σ α} (hp : p.Plain P) (t : Token) (s : Session σ)
    (cache : DecisionCache) :
    p.run t { s with cache } =
      { p.run t s with session := { (p.run t s).session with cache } } := by
  induction p generalizing t s with
  | done a => rfl
  | note n p ih => rw [run, run, ih hp.2]
  | act u k ih => exact ih s.state (hp s.state) t { s with state := u s.state }
  | sleep ms p ih => exact ih hp _ { s with clock := (t.sleep s.clock ms).2 }
  | cancelled k ih => exact ih t.cancelled (hp t.cancelled) t s
  | cancel p ih => exact ih hp { t with cancelled := true } s
  | claim key k => exact hp.elim
  | settle key d p => exact hp.elim
  | track key p => exact hp.elim

/-- A plain program leaves the decisions as they are. -/
theorem cache_run_of_plain {p : Program σ α} (hp : p.Plain P) (t : Token) (s : Session σ) :
    (p.run t s).session.cache = s.cache :=
  congrArg (·.session.cache) (run_of_plain hp t s s.cache)

/-- The notes of a run satisfy what the notes of the program satisfy. -/
theorem notes_run_of_plain {p : Program σ α} (hp : p.Plain P) (t : Token) (s : Session σ) :
    ∀ n ∈ (p.run t s).notes, P n := by
  induction p generalizing t s with
  | done a => simp [run]
  | note n p ih =>
      intro m hm
      rcases List.mem_cons.mp hm with rfl | hm
      · exact hp.1
      · exact ih hp.2 t s m hm
  | act u k ih => exact ih s.state (hp s.state) t { s with state := u s.state }
  | sleep ms p ih => exact ih hp _ { s with clock := (t.sleep s.clock ms).2 }
  | cancelled k ih => exact ih t.cancelled (hp t.cancelled) t s
  | cancel p ih => exact ih hp { t with cancelled := true } s
  | claim key k => exact hp.elim
  | settle key d p => exact hp.elim
  | track key p => exact hp.elim

/-- No attempt begins within the steps of an invocation. -/
theorem attempts_run_of_inward {p : Program σ α} (hp : p.Plain Note.Inward) (t : Token)
    (s : Session σ) : attempts (p.run t s).notes = [] :=
  attempts_eq_nil_of_forall fun n hn => (notes_run_of_plain hp t s n hn).attempt

/-- Telling notes is all that `tellAll` does. -/
@[simp] theorem run_tellAll (ns : List Note) (t : Token) (s : Session σ) :
    (tellAll ns : Program σ Unit).run t s = ⟨(), t, s, ns⟩ := by
  induction ns with
  | nil => rfl
  | cons n ns ih => simp [tellAll, run, ih]

/-- Looking at the state changes nothing. -/
@[simp] theorem run_view (f : σ → α) (t : Token) (s : Session σ) :
    (view f).run t s = ⟨f s.state, t, s, []⟩ := rfl

end Program

/-! ## The parts of an invocation -/

variable {σ : Type}

theorem plain_runAttempt {P : Note → Prop} (h : ∀ r, P (.remark r))
    (decorators : List (Decorator σ)) (a : Attempt) (call : Work σ Yield)
    (budget : Option Duration) : (runAttempt decorators a call budget).Plain P := by
  intro c
  cases c with
  | true => trivial
  | false => exact Program.plain_bind (Program.plain_guarded h _ _) fun _ => trivial

namespace Dispatcher

theorem plain_createDecorators (ctx : Context) (fs : List (DecoratorFactory σ)) :
    (createDecorators ctx fs).Plain Note.Inward := by
  induction fs with
  | nil => trivial
  | cons f fs ih =>
      refine ⟨Note.inward_creating f.name, ?_⟩
      refine Program.plain_bind (Program.plain_modifyGet _) fun x => ?_
      refine Program.plain_bind (Program.plain_tellAll ?_) fun _ => ?_
      · intro n hn
        obtain ⟨r, -, rfl⟩ := List.mem_map.mp hn
        exact Note.inward_remark r
      · exact Program.plain_bind ih fun _ => trivial

theorem plain_implementation (disp : Dispatcher σ) (type : ImplementationType)
    (d : Definition σ) (trial : Trial) :
    (disp.implementation type d trial).Plain Note.Inward := by
  refine ⟨Note.inward_resolving d.contract trial, ?_⟩
  refine Program.plain_bind (Program.plain_view _) fun x => ?_
  cases x with
  | error e => trivial
  | ok i => cases h : i.as? type <;> simp [h, Program.Plain]

theorem plain_attempt (disp : Dispatcher σ) (type : ImplementationType)
    (call : Implementation → Work σ Yield) (d : Definition σ) (ctx : Context)
    (decorators : List (Decorator σ)) (key : TrialKey) (number : Nat) :
    (disp.attempt type call d ctx decorators key number).Plain Note.Inward := by
  unfold attempt
  split
  · trivial
  · refine Program.plain_bind (plain_implementation disp type d _) fun x => ?_
    cases x with
    | error e => trivial
    | ok i => exact ⟨Note.inward_event _, plain_runAttempt Note.inward_remark _ _ _ _⟩

end Dispatcher

namespace Definition

theorem plain_firstEnabled (d : Definition σ) (board : Switchboard σ) (keys : List TrialKey)
    {P : Note → Prop} : (d.firstEnabled board keys).Plain P := by
  induction keys with
  | nil => trivial
  | cons key keys ih =>
      rw [firstEnabled]
      split
      · trivial
      · refine Program.plain_bind (Program.plain_view _) fun b => ?_
        cases b with
        | true => exact Program.plain_bind ih fun _ => trivial
        | false => trivial

theorem plain_onward {d : Definition σ} {attempted : List TrialKey} {current next : TrialKey}
    {rest : Program σ (Except DispatchError String)}
    (h : rest.Plain fun n => n.selection? = none) :
    (d.onward attempted current next rest).Plain fun n => n.selection? = none := by
  intro c
  cases c with
  | true => trivial
  | false => exact ⟨rfl, rfl, h⟩

/-- No selection begins while trials are attempted. -/
theorem plain_replay (d : Definition σ) (board : Switchboard σ)
    {attempt : TrialKey → Nat → Program σ AttemptOutcome}
    (ha : ∀ key number, (attempt key number).Plain fun n => n.selection? = none)
    (before : List TrialKey) (current : TrialKey) :
    (d.replay board attempt before current).Plain fun n => n.selection? = none := by
  fun_induction replay d board attempt before current with
  | case1 before current attempted ihFailed ihTimedOut =>
      refine ⟨rfl, Program.plain_bind (ha _ _) fun outcome => ?_⟩
      cases outcome with
      | success value => trivial
      | failed error =>
          refine Program.plain_bind (plain_firstEnabled d board _) fun found => ?_
          cases found with
          | none => trivial
          | some next => exact plain_onward (ihFailed next)
      | timedOut after =>
          dsimp only
          split
          · trivial
          · next next h => exact plain_onward (ihTimedOut next h)
      | cancelled => trivial
      | unresolvable source => trivial
      | pipeline error => trivial

end Definition

end TrialRouting
