import TrialRouting.Proofs.Traffic
import TrialRouting.Proofs.Yields

/-!
# TrialRouting.Proofs.Traffic.Caller

How far a caller has come.  A `Position` names the point in the course of a
look-up; it fixes what is left of the caller's program, and what the caller
is up to (`Position.Shows`).

`Advance` lists the moves from one position to another.  Each is labelled with
the occurrence that it is, and says on what it depends: the entry and the
flight of the key, and whether the caller has been cancelled.

* `moves_of_shows` — a step of a caller at a position is a move;
* `advance_of_heard` — so is what it hears of the step of another caller.
-/

namespace TrialRouting

open DecisionCache

variable {σ : Type}

/-! ## Positions -/

/-- How far a caller has come. -/
inductive Position (σ : Type) where
  | entering
  | asking
  | queueing
  | hearing (d : Option Decision)
  | opening
  | watching (left : Work σ Decision)
  | making (left : Work σ Decision)
  | failing
  | tracking (d : Decision)
  | leaving (result : Option Decision)
  | left (result : Option Decision)

namespace Position

/-- What is left of the look-up. -/
def program (key : DecisionKey) (resolve : Work σ Decision) :
    Position σ → Program σ (Option Decision)
  | .entering => getOrResolve key resolve
  | .asking => .claim key (answered key resolve)
  | .queueing => .claim key (answered key resolve)
  | .hearing _ => .claim key (answered key resolve)
  | .opening => resolveClaimed key resolve
  | .watching w => (Program.unlessCancelled (Program.guarded none w)).bind (conclude key)
  | .making w => (Program.guarded none w).bind (conclude key)
  | .failing => .settle key none (.done none)
  | .tracking d => .track key (.done (some d))
  | .leaving result => .done result
  | .left result => .done result

/-- What the caller is up to there. -/
def Stands (key : DecisionKey) : Position σ → Standing → Prop
  | .queueing, s => s = .waiting key
  | .hearing d, s => ∃ n, s = .called n d
  | .watching _, s => s = .ready ∨ ∃ time, s = .due time
  | .left _, s => ∃ time, s = .finished time
  | _, s => s = .ready

/-- The positions to which only a cancellation leads. -/
def Forsaken : Position σ → Prop
  | .failing => True
  | .leaving none => True
  | .left none => True
  | _ => False

/-- The caller with this key and this resolver is at the position. -/
structure Shows (pos : Position σ) (key : DecisionKey) (resolve : Work σ Decision)
    (m : Member σ (Option Decision)) : Prop where
  program : m.program = pos.program key resolve
  standing : pos.Stands key m.standing
  cancelled : pos.Forsaken → m.token.cancelled = true

end Position

/-! ## Moves -/

/-- The moves of a caller with its number, its key and its resolver. They depend on the entry of
the key, on whether the key is in flight, and on whether the caller has been cancelled. -/
inductive Advance (i : Nat) (key : DecisionKey) (resolve : Work σ Decision)
    (entry : Option Decision) (flying cancelled : Bool) :
    Occurrence σ → Position σ → Position σ → Prop where
  | stays {o : Occurrence σ} (pos : Position σ) :
    o.caller? ≠ some i → (pos = .queueing → o.ended? ≠ some key) →
    Advance i key resolve entry flying cancelled o pos pos
  | turnsBack : cancelled = true →
    Advance i key resolve entry flying cancelled .quiet .entering (.leaving none)
  | enters : cancelled = false →
    Advance i key resolve entry flying cancelled .quiet .entering .asking
  | hits {d : Decision} : entry = some d →
    Advance i key resolve entry flying cancelled .quiet .asking (.tracking d)
  | queues : entry = none → flying = true →
    Advance i key resolve entry flying cancelled .quiet .asking .queueing
  | starts : entry = none → flying = false →
    Advance i key resolve entry flying cancelled (.starts i key) .asking .opening
  | hears {j : Nat} {d : Decision} : j ≠ i →
    Advance i key resolve entry flying cancelled (.inserts j key d) .queueing (.hearing (some d))
  | hearsNothing {j : Nat} : j ≠ i →
    Advance i key resolve entry flying cancelled (.abandons j key) .queueing (.hearing none)
  | takes {d : Decision} :
    Advance i key resolve entry flying cancelled .quiet (.hearing (some d)) (.tracking d)
  | givesUp : cancelled = true →
    Advance i key resolve entry flying cancelled .quiet (.hearing none) (.leaving none)
  | retries : cancelled = false →
    Advance i key resolve entry flying cancelled .quiet (.hearing none) .asking
  | opens :
    Advance i key resolve entry flying cancelled .quiet .opening (.watching resolve)
  | stops {w : Work σ Decision} : cancelled = true →
    Advance i key resolve entry flying cancelled .quiet (.watching w) .failing
  | works {w : Work σ Decision} : cancelled = false →
    Advance i key resolve entry flying cancelled .quiet (.watching w) (.making w)
  | goesOn {w w' : Work σ Decision} : w'.Remains w →
    Advance i key resolve entry flying cancelled .quiet (.making w) (.making w')
  | sleeps {w w' : Work σ Decision} : w'.Remains w →
    Advance i key resolve entry flying cancelled .quiet (.making w) (.watching w')
  | inserts {w : Work σ Decision} {d : Decision} : w.Yields d →
    Advance i key resolve entry flying cancelled (.inserts i key d) (.making w) (.tracking d)
  | abandons :
    Advance i key resolve entry flying cancelled (.abandons i key) .failing (.leaving none)
  | tracks {d : Decision} :
    Advance i key resolve entry flying cancelled .quiet (.tracking d) (.leaving (some d))
  | returns {result : Option Decision} :
    Advance i key resolve entry flying cancelled (.returns i result) (.leaving result)
      (.left result)

/-- A quiet step of nobody in particular leaves a caller where it is. -/
theorem Advance.rests {i : Nat} {key : DecisionKey} {resolve : Work σ Decision}
    {entry : Option Decision} {flying cancelled : Bool} (pos : Position σ) :
    Advance i key resolve entry flying cancelled .quiet pos pos :=
  .stays pos (Occurrence.caller?_quiet_ne i) fun _ => by simp [Occurrence.ended?]

/-! ## What a step does -/

/-- `Effect t t' i m' o`: the step of caller `i` is `o`; the caller becomes `m'`, and all else
becomes what `o` makes of it. -/
structure Effect (t t' : Traffic σ) (i : Nat) (m' : Member σ (Option Decision))
    (o : Occurrence σ) : Prop where
  self : t'.caller? i = some m'
  others : ∀ j, j ≠ i → t'.caller? j = (t.caller? j).map (o.heard t.crowd.drawn)
  flights : t'.crowd.flights = o.flights t.crowd.flights
  entry : ∀ key, t'.entry key = o.entry key (t.entry key)

namespace Traffic

variable {t : Traffic σ} {i : Nat} {m : Member σ (Option Decision)} {key : DecisionKey}
  {resolve : Work σ Decision}

/-- A step of caller `i` from the position is a move to another one. -/
def Moves (t : Traffic σ) (i : Nat) (m : Member σ (Option Decision)) (key : DecisionKey)
    (resolve : Work σ Decision) (pos : Position σ) : Prop :=
  ∃ m' pos', Effect t (t.next (.go i)) i m' (t.stepOf i m) ∧ pos'.Shows key resolve m' ∧
    Advance i key resolve (t.entry key) (t.crowd.flights.contains key) m.token.cancelled
      (t.stepOf i m) pos pos'

/-- The effect of a step that replaces the member at its place. -/
theorem effect_of_members {p : Crowd.Place t.crowd.members} {c' : Crowd σ (Option Decision)}
    {m' : Member σ (Option Decision)} {o : Occurrence σ}
    (hm : c'.members = (p.before ++ m' :: p.after).map (o.heard t.crowd.drawn))
    (hself : o.heard t.crowd.drawn m' = m')
    (hf : c'.flights = o.flights t.crowd.flights)
    (he : ∀ key, c'.session.cache.get? key = o.entry key (t.entry key)) :
    Effect t { t with crowd := c' } p.before.length m' o := by
  have hget : ∀ j : Nat, c'.members[j]? =
      (t.crowd.members.set p.before.length m')[j]?.map (o.heard t.crowd.drawn) := by
    intro j
    rw [hm, p.replace_eq_set, List.getElem?_map]
  have hlt : p.before.length < t.crowd.members.length := by
    rw [(congrArg List.length p.eq : t.crowd.members.length = _)]
    simp
  constructor
  · show c'.members[p.before.length]? = _
    rw [hget, List.getElem?_set_self hlt, Option.map_some, hself]
  · intro j hj
    show c'.members[j]? = _
    rw [hget, List.getElem?_set_ne hj.symm]
    rfl
  · exact hf
  · exact he

/-- A caller that can go on waits for nobody, and so hears nothing. -/
theorem heard_of_ready {o : Occurrence σ} {n : Nat} {m : Member σ (Option Decision)}
    (hst : m.standing = .ready) : o.heard n m = m := by
  cases o <;> simp [Occurrence.heard, Crowd.call, Member.awaits, hst]

/-- A step that replaces the member at its place is a move if it leads to a position. -/
theorem moves_of_members {p : Crowd.Place t.crowd.members} {c' : Crowd σ (Option Decision)}
    {m' : Member σ (Option Decision)} {pos pos' : Position σ} {o : Occurrence σ}
    (hgo : t.crowd.go p.before.length = c') (ho : t.stepOf p.before.length p.element = o)
    (ha : Advance p.before.length key resolve (t.entry key) (t.crowd.flights.contains key)
      p.element.token.cancelled o pos pos')
    (hm : c'.members = (p.before ++ m' :: p.after).map (o.heard t.crowd.drawn))
    (hself : o.heard t.crowd.drawn m' = m')
    (hf : c'.flights = o.flights t.crowd.flights)
    (he : ∀ key, c'.session.cache.get? key = o.entry key (t.entry key))
    (hs : pos'.Shows key resolve m') :
    t.Moves p.before.length p.element key resolve pos := by
  have hnext : t.next (.go p.before.length) = { t with crowd := c' } := by
    rw [← hgo]
    rfl
  have heffect : Effect t (t.next (.go p.before.length)) p.before.length m' o := by
    rw [hnext]
    exact effect_of_members hm hself hf he
  exact ⟨m', pos', ho ▸ heffect, hs, ho ▸ ha⟩

/-- The other callers do not hear of a step that ends no decision, and no entry changes. -/
theorem moves_of_unheard {p : Crowd.Place t.crowd.members} {c' : Crowd σ (Option Decision)}
    {m' : Member σ (Option Decision)} {pos pos' : Position σ} {o : Occurrence σ}
    (hgo : t.crowd.go p.before.length = c') (ho : t.stepOf p.before.length p.element = o)
    (ha : Advance p.before.length key resolve (t.entry key) (t.crowd.flights.contains key)
      p.element.token.cancelled o pos pos')
    (hend : o.ended? = none) (hm : c'.members = p.before ++ m' :: p.after)
    (hf : c'.flights = o.flights t.crowd.flights)
    (he : ∀ key, c'.session.cache.get? key = t.entry key)
    (hs : pos'.Shows key resolve m') :
    t.Moves p.before.length p.element key resolve pos := by
  have hid : o.heard t.crowd.drawn = id := by
    cases o <;> first | rfl | contradiction
  have hentry : ∀ key former, o.entry key former = former := by
    cases o <;> first | exact fun _ _ => rfl | contradiction
  have hmap : c'.members = (p.before ++ m' :: p.after).map (o.heard t.crowd.drawn) := by
    rw [hm, hid, List.map_id]
  have hself : o.heard t.crowd.drawn m' = m' := by
    rw [hid]
    rfl
  have hkept : ∀ key, c'.session.cache.get? key = o.entry key (t.entry key) := by
    intro key
    rw [he, hentry]
  exact moves_of_members hgo ho ha hmap hself hf hkept hs

/-! ## One move for each position -/

theorem moves_entering (hm : t.caller? i = some m) (hs : Position.entering.Shows key resolve m) :
    t.Moves i m key resolve .entering := by
  obtain ⟨hprog, (hst : m.standing = .ready), _⟩ := hs
  obtain ⟨p, rfl, rfl, hgo⟩ := Crowd.go_of_ready hm hst
  have ho : t.stepOf p.before.length p.element = .quiet := by
    simp only [stepOf, hst, hprog, Position.program, getOrResolve]
  simp only [Crowd.afterReady, hprog, Position.program, getOrResolve] at hgo
  cases hc : p.element.token.cancelled with
  | true =>
      rw [hc] at hgo
      exact moves_of_unheard hgo ho (.turnsBack hc) rfl rfl rfl (fun _ => rfl)
        ⟨rfl, hst, fun _ => hc⟩
  | false =>
      rw [hc] at hgo
      exact moves_of_unheard hgo ho (.enters hc) rfl rfl rfl (fun _ => rfl)
        ⟨rfl, hst, False.elim⟩

theorem moves_asking (hm : t.caller? i = some m) (hs : Position.asking.Shows key resolve m) :
    t.Moves i m key resolve .asking := by
  obtain ⟨hprog, (hst : m.standing = .ready), _⟩ := hs
  obtain ⟨p, rfl, rfl, hgo⟩ := Crowd.go_of_ready hm hst
  simp only [Crowd.afterReady, hprog, Position.program] at hgo
  have ho : t.stepOf p.before.length p.element =
      if (t.entry key).isNone && !t.crowd.flights.contains key then
        .starts p.before.length key else .quiet := by
    simp only [stepOf, hst, hprog, Position.program]
  cases he : t.crowd.session.cache.get? key with
  | some d =>
      have he' : t.entry key = some d := he
      rw [he] at hgo
      rw [he'] at ho
      exact moves_of_unheard hgo ho (.hits he') rfl rfl rfl (fun _ => rfl)
        ⟨rfl, hst, False.elim⟩
  | none =>
      have he' : t.entry key = none := he
      rw [he] at hgo
      rw [he'] at ho
      cases hf : t.crowd.flights.contains key with
      | true =>
          rw [hf] at hgo ho
          exact moves_of_unheard hgo ho (.queues he' hf) rfl rfl rfl (fun _ => rfl)
            ⟨rfl, rfl, False.elim⟩
      | false =>
          rw [hf] at hgo ho
          exact moves_of_unheard hgo ho (.starts he' hf) rfl rfl rfl (fun _ => rfl)
            ⟨rfl, hst, False.elim⟩

theorem moves_hearing {d : Option Decision} (hm : t.caller? i = some m)
    (hs : (Position.hearing d).Shows key resolve m) : t.Moves i m key resolve (.hearing d) := by
  obtain ⟨hprog, ⟨n, hst⟩, _⟩ := hs
  obtain ⟨p, rfl, rfl, hgo⟩ := Crowd.go_of_called hm hst
  have ho : t.stepOf p.before.length p.element = .quiet := by
    simp only [stepOf, hst]
  simp only [Crowd.afterCalled, hprog, Position.program] at hgo
  cases d with
  | some d =>
      exact moves_of_unheard hgo ho .takes rfl rfl rfl (fun _ => rfl)
        ⟨rfl, rfl, False.elim⟩
  | none =>
      cases hc : p.element.token.cancelled with
      | true =>
          rw [hc] at hgo
          exact moves_of_unheard hgo ho (.givesUp hc) rfl rfl rfl (fun _ => rfl)
            ⟨rfl, rfl, fun _ => hc⟩
      | false =>
          rw [hc] at hgo
          exact moves_of_unheard hgo ho (.retries hc) rfl rfl rfl (fun _ => rfl)
            ⟨rfl, rfl, False.elim⟩

theorem moves_opening (hm : t.caller? i = some m) (hs : Position.opening.Shows key resolve m) :
    t.Moves i m key resolve .opening := by
  obtain ⟨hprog, (hst : m.standing = .ready), _⟩ := hs
  obtain ⟨p, rfl, rfl, hgo⟩ := Crowd.go_of_ready hm hst
  have ho : t.stepOf p.before.length p.element = .quiet := by
    simp only [stepOf, hst, hprog, Position.program, resolveClaimed]
  simp only [Crowd.afterReady, hprog, Position.program, resolveClaimed] at hgo
  exact moves_of_unheard hgo ho .opens rfl rfl rfl (fun _ => rfl)
    ⟨rfl, .inl hst, False.elim⟩

theorem moves_watching {w : Work σ Decision} (hm : t.caller? i = some m)
    (hs : (Position.watching w).Shows key resolve m) (hst : m.standing = .ready) :
    t.Moves i m key resolve (.watching w) := by
  obtain ⟨hprog, _, _⟩ := hs
  obtain ⟨p, rfl, rfl, hgo⟩ := Crowd.go_of_ready hm hst
  have ho : t.stepOf p.before.length p.element = .quiet := by
    simp only [stepOf, hst, hprog, Position.program, Program.unlessCancelled, Program.bind]
  simp only [Crowd.afterReady, hprog, Position.program, Program.unlessCancelled, Program.bind]
    at hgo
  cases hc : p.element.token.cancelled with
  | true =>
      rw [hc] at hgo
      exact moves_of_unheard hgo ho (.stops hc) rfl rfl rfl (fun _ => rfl)
        ⟨rfl, hst, fun _ => hc⟩
  | false =>
      rw [hc] at hgo
      exact moves_of_unheard hgo ho (.works hc) rfl rfl rfl (fun _ => rfl)
        ⟨rfl, hst, False.elim⟩

theorem moves_making {w : Work σ Decision} (hm : t.caller? i = some m)
    (hs : (Position.making w).Shows key resolve m) : t.Moves i m key resolve (.making w) := by
  obtain ⟨hprog, (hst : m.standing = .ready), _⟩ := hs
  obtain ⟨p, rfl, rfl, hgo⟩ := Crowd.go_of_ready hm hst
  have hstretch := Program.stretch_guarded w
  simp only [Position.program] at hprog
  generalize Program.guarded none w = q at hprog hstretch
  cases hstretch with
  | @done d hd =>
      have ho : t.stepOf p.before.length p.element = .inserts p.before.length key d := by
        simp only [stepOf, hst, hprog, Program.bind, conclude]
      simp only [Crowd.afterReady, hprog, Program.bind, conclude] at hgo
      refine moves_of_members hgo ho (.inserts hd) rfl (heard_of_ready hst) rfl ?_
        ⟨rfl, hst, False.elim⟩
      intro key'
      rw [Option.map_some, Option.getD_some, get?_insert]
      rfl
  | note n hw =>
      have ho : t.stepOf p.before.length p.element = .quiet := by
        simp only [stepOf, hst, hprog, Program.bind]
      simp only [Crowd.afterReady, hprog, Program.bind] at hgo
      exact moves_of_unheard hgo ho (.goesOn hw) rfl rfl rfl (fun _ => rfl) ⟨rfl, hst, False.elim⟩
  | act u hw =>
      have ho : t.stepOf p.before.length p.element = .quiet := by
        simp only [stepOf, hst, hprog, Program.bind]
      simp only [Crowd.afterReady, hprog, Program.bind] at hgo
      exact moves_of_unheard hgo ho (.goesOn (hw _)) rfl rfl rfl (fun _ => rfl) ⟨rfl, hst, False.elim⟩
  | cancel hw =>
      have ho : t.stepOf p.before.length p.element = .quiet := by
        simp only [stepOf, hst, hprog, Program.bind]
      simp only [Crowd.afterReady, hprog, Program.bind] at hgo
      exact moves_of_unheard hgo ho (.goesOn hw) rfl rfl rfl (fun _ => rfl) ⟨rfl, hst, False.elim⟩
  | sleep ms hw =>
      have ho : t.stepOf p.before.length p.element = .quiet := by
        simp only [stepOf, hst, hprog, Program.sleepGuarded, Program.bind]
      simp only [Crowd.afterReady, hprog, Program.sleepGuarded, Program.bind] at hgo
      refine moves_of_unheard hgo ho (.sleeps hw) rfl rfl rfl (fun _ => rfl) ⟨rfl, ?_, False.elim⟩
      simp only [Member.rest, Position.Stands]
      split
      · exact .inl rfl
      · exact .inr ⟨_, rfl⟩

theorem moves_failing (hm : t.caller? i = some m) (hs : Position.failing.Shows key resolve m) :
    t.Moves i m key resolve .failing := by
  obtain ⟨hprog, (hst : m.standing = .ready), hc⟩ := hs
  obtain ⟨p, rfl, rfl, hgo⟩ := Crowd.go_of_ready hm hst
  have ho : t.stepOf p.before.length p.element = .abandons p.before.length key := by
    simp only [stepOf, hst, hprog, Position.program]
  simp only [Crowd.afterReady, hprog, Position.program] at hgo
  exact moves_of_members hgo ho .abandons rfl (heard_of_ready hst) rfl (fun _ => rfl)
    ⟨rfl, hst, fun _ => hc trivial⟩

theorem moves_tracking {d : Decision} (hm : t.caller? i = some m)
    (hs : (Position.tracking d).Shows key resolve m) : t.Moves i m key resolve (.tracking d) := by
  obtain ⟨hprog, (hst : m.standing = .ready), _⟩ := hs
  obtain ⟨p, rfl, rfl, hgo⟩ := Crowd.go_of_ready hm hst
  have ho : t.stepOf p.before.length p.element = .quiet := by
    simp only [stepOf, hst, hprog, Position.program]
  simp only [Crowd.afterReady, hprog, Position.program] at hgo
  exact moves_of_unheard hgo ho .tracks rfl rfl rfl (get?_track _ _)
    ⟨rfl, hst, False.elim⟩

theorem moves_leaving {result : Option Decision} (hm : t.caller? i = some m)
    (hs : (Position.leaving result).Shows key resolve m) :
    t.Moves i m key resolve (.leaving result) := by
  obtain ⟨hprog, (hst : m.standing = .ready), hc⟩ := hs
  obtain ⟨p, rfl, rfl, hgo⟩ := Crowd.go_of_ready hm hst
  have ho : t.stepOf p.before.length p.element = .returns p.before.length result := by
    simp only [stepOf, hst, hprog, Position.program]
  simp only [Crowd.afterReady, hprog, Position.program] at hgo
  have hleft : (Position.left result : Position σ).Forsaken → p.element.token.cancelled = true := by
    cases result with
    | none => exact hc
    | some d => exact False.elim
  exact moves_of_unheard hgo ho .returns rfl rfl rfl (fun _ => rfl) ⟨hprog, ⟨_, rfl⟩, hleft⟩

/-- A caller that cannot go on stays where it is. -/
theorem moves_of_resting {pos : Position σ} (hm : t.caller? i = some m)
    (hs : pos.Shows key resolve m) (hr : m.standing ≠ .ready)
    (hc : ∀ n d, m.standing ≠ .called n d) : t.Moves i m key resolve pos := by
  have hnext : t.next (.go i) = t := by
    show ({ t with crowd := t.crowd.go i } : Traffic σ) = t
    rw [Crowd.go_of_resting hm hr hc]
  have ho : t.stepOf i m = .quiet := by
    unfold stepOf
    split <;> first | rfl | contradiction
  refine ⟨m, pos, ?_, hs, ho ▸ .rests pos⟩
  rw [hnext, ho]
  refine ⟨hm, fun j _ => ?_, rfl, fun _ => rfl⟩
  cases t.caller? j <;> rfl

/-- A step of a caller that is at a position is a move to another one. -/
theorem moves_of_shows {pos : Position σ} (hm : t.caller? i = some m)
    (hs : pos.Shows key resolve m) : t.Moves i m key resolve pos := by
  cases pos with
  | entering => exact moves_entering hm hs
  | asking => exact moves_asking hm hs
  | queueing =>
      have hst : m.standing = .waiting key := hs.standing
      exact moves_of_resting hm hs (by simp [hst]) (by simp [hst])
  | hearing d => exact moves_hearing hm hs
  | opening => exact moves_opening hm hs
  | watching w =>
      obtain hst | ⟨time, hst⟩ := hs.standing
      · exact moves_watching hm hs hst
      · exact moves_of_resting hm hs (by simp [hst]) (by simp [hst])
  | making w => exact moves_making hm hs
  | failing => exact moves_failing hm hs
  | tracking d => exact moves_tracking hm hs
  | leaving result => exact moves_leaving hm hs
  | left result =>
      obtain ⟨time, hst⟩ := hs.standing
      exact moves_of_resting hm hs (by simp [hst]) (by simp [hst])

end Traffic

/-! ## What is done to a caller -/

namespace Position

variable {pos : Position σ} {key : DecisionKey} {resolve : Work σ Decision}
  {m : Member σ (Option Decision)}

/-- The end of a sleep leaves a caller where it is. -/
theorem Shows.awake (h : pos.Shows key resolve m) : pos.Shows key resolve m.awake := by
  have hst := h.standing
  unfold Member.awake
  split
  · next time hdue =>
      refine ⟨h.program, ?_, h.cancelled⟩
      rw [hdue] at hst
      cases pos <;> simp_all [Stands]
  · exact h

/-- A cancellation leaves a caller where it is. -/
theorem Shows.cancel (h : pos.Shows key resolve m) : pos.Shows key resolve m.cancelled :=
  ⟨h.program, h.standing, fun _ => rfl⟩

/-- A caller that does not wait for the key does not hear of it. -/
theorem Shows.call_of_not_queueing {key' : DecisionKey} {n : Nat} {d : Option Decision}
    (h : pos.Shows key resolve m) (hq : pos = .queueing → key' ≠ key) :
    Crowd.call key' n d m = m := by
  have hst := h.standing
  unfold Crowd.call
  split
  · next hw =>
      have hw : m.standing = .waiting key' := by simpa [Member.awaits] using hw
      rw [hw] at hst
      cases pos <;> simp_all [Stands]
  · rfl

/-- A caller that waits for the key hears how its decision ended. -/
theorem Shows.call_of_queueing {n : Nat} {d : Option Decision}
    (h : Position.queueing.Shows key resolve m) :
    (Position.hearing d).Shows key resolve (Crowd.call key n d m) := by
  have hst : m.standing = .waiting key := h.standing
  have hcall : Crowd.call key n d m = { m with standing := .called n d } := by
    simp [Crowd.call, Member.awaits, hst]
  rw [hcall]
  exact ⟨h.program, ⟨n, rfl⟩, False.elim⟩

end Position

/-- A caller that hears of the step of another one. -/
theorem advance_of_heard {i : Nat} {key : DecisionKey} {resolve : Work σ Decision}
    {pos : Position σ} {m : Member σ (Option Decision)} (entry : Option Decision)
    (flying cancelled : Bool) (o : Occurrence σ) (n : Nat)
    (hs : pos.Shows key resolve m) (ho : o.caller? ≠ some i) :
    ∃ pos' : Position σ, pos'.Shows key resolve (o.heard n m) ∧
      Advance i key resolve entry flying cancelled o pos pos' := by
  by_cases hq : pos = .queueing ∧ o.ended? = some key
  · obtain ⟨rfl, hend⟩ := hq
    cases o with
    | inserts j key' d =>
        obtain rfl : key' = key := Option.some.inj hend
        exact ⟨_, hs.call_of_queueing, .hears fun hj => ho (congrArg some hj)⟩
    | abandons j key' =>
        obtain rfl : key' = key := Option.some.inj hend
        exact ⟨_, hs.call_of_queueing, .hearsNothing fun hj => ho (congrArg some hj)⟩
    | _ => exact absurd hend (by simp [Occurrence.ended?])
  · have hne : pos = .queueing → o.ended? ≠ some key := fun h h' => hq ⟨h, h'⟩
    refine ⟨pos, ?_, .stays pos ho hne⟩
    cases o with
    | inserts j key' d =>
        have hcall : Crowd.call key' n (some d) m = m :=
          hs.call_of_not_queueing fun h h' => hne h (congrArg some h')
        simpa only [Occurrence.heard, hcall] using hs
    | abandons j key' =>
        have hcall : Crowd.call key' n none m = m :=
          hs.call_of_not_queueing fun h h' => hne h (congrArg some h')
        simpa only [Occurrence.heard, hcall] using hs
    | _ => exact hs

end TrialRouting
