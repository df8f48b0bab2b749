import TrialRouting.Proofs.Unfolding.Guarded

/-!
# TrialRouting.Proofs.Growth

Work and programs to which steps are added that take no time: notes, changes of
the state, and cancellations.  `w.GrowsTo w'` and `p.GrowsTo q` say that the
second is the first with such additions; `added` says which steps are added,
`alike` which states are the same to everybody who takes the other steps, and
`V` relates the values at the end.  They are closed under sequencing
(`growsTo_bind`) and under a guard (`growsTo_guarded`), so a program grows when
one of its parts does.

The main theorem says that a program that has grown does what it did before
(`GrowsTo.matchedBy`).  Whatever others do it can take the same courses, with
additions (`Interspersed`), and no other ones; and alone it comes to the same
value at the same time, if nobody else notices the added steps
(`Step.Unnoticed`).
-/

namespace TrialRouting

variable {σ α β γ : Type}

/-! ## Lists with additions -/

/-- The second list is the first one with new elements at any places; those of the first list may be
replaced by others that are alike. -/
inductive Interspersed (alike : α → β → Prop) (new : β → Prop) : List α → List β → Prop where
  | nil : Interspersed alike new [] []
  | keep {x : α} {y : β} {xs : List α} {ys : List β} :
    alike x y → Interspersed alike new xs ys → Interspersed alike new (x :: xs) (y :: ys)
  | insert {y : β} {xs : List α} {ys : List β} :
    new y → Interspersed alike new xs ys → Interspersed alike new xs (y :: ys)

/-- A view that does not show what is new shows both lists alike. -/
theorem Interspersed.filterMap_eq {alike : α → β → Prop} {new : β → Prop} {xs : List α}
    {ys : List β} {f : α → Option γ} {g : β → Option γ}
    (halike : ∀ x y, alike x y → g y = f x) (hnew : ∀ y, new y → g y = none)
    (hi : Interspersed alike new xs ys) : ys.filterMap g = xs.filterMap f := by
  induction hi with
  | nil => rfl
  | keep hxy _ ih => rw [List.filterMap_cons, List.filterMap_cons, halike _ _ hxy, ih]
  | insert hy _ ih => rw [List.filterMap_cons, hnew _ hy, ih]

theorem Interspersed.mono {alike alike' : α → β → Prop} {new new' : β → Prop} {xs : List α}
    {ys : List β} (halike : ∀ x ∈ xs, ∀ y, alike x y → alike' x y) (hnew : ∀ y, new y → new' y)
    (hi : Interspersed alike new xs ys) : Interspersed alike' new' xs ys := by
  induction hi with
  | nil => exact .nil
  | keep hxy _ ih =>
      obtain ⟨hx, hxs⟩ := List.forall_mem_cons.mp halike
      exact .keep (hx _ hxy) (ih hxs)
  | insert hy _ ih => exact .insert (hnew _ hy) (ih halike)

/-! ## Work that grows -/

/-- The changes keep alike states alike. -/
def Congruent (alike : σ → σ → Prop) (update update' : σ → σ) : Prop :=
  ∀ s s', alike s s' → alike (update s) (update' s')

namespace Work

/-- `w.GrowsTo alike added V w'`: from alike states `w'` does what `w` does, with added steps. -/
inductive GrowsTo (alike : σ → σ → Prop) (added : Step σ → Prop) (V : α → α → Prop) :
    Work σ α → Work σ α → Prop where
  | done {a b : α} : V a b → GrowsTo alike added V (.done a) (.done b)
  | remark (r : Remark) {w w' : Work σ α} :
    GrowsTo alike added V w w' → GrowsTo alike added V (.remark r w) (.remark r w')
  | act {u u' : σ → σ} {k k' : σ → Work σ α} :
    Congruent alike u u' → (∀ s s', alike s s' → GrowsTo alike added V (k s) (k' s')) →
    GrowsTo alike added V (.act u k) (.act u' k')
  | wait (ms : Nat) {w w' : Work σ α} :
    GrowsTo alike added V w w' → GrowsTo alike added V (.wait ms w) (.wait ms w')
  | cancel {w w' : Work σ α} :
    GrowsTo alike added V w w' → GrowsTo alike added V (.cancel w) (.cancel w')
  | addRemark {r : Remark} {w w' : Work σ α} : added (.noted (.remark r)) →
    GrowsTo alike added V w w' → GrowsTo alike added V w (.remark r w')
  | addAct {u : σ → σ} {w : Work σ α} {k : σ → Work σ α} : (∀ s, added (.acted u s)) →
    (∀ s, GrowsTo alike added V w (k s)) → GrowsTo alike added V w (.act u k)
  | addCancel {w w' : Work σ α} : added .cancelled →
    GrowsTo alike added V w w' → GrowsTo alike added V w (.cancel w')

variable {alike : σ → σ → Prop} {added added' : Step σ → Prop} {V V' : α → α → Prop}
  {W : β → β → Prop} {w w' : Work σ α} {f f' : α → Work σ β}

theorem GrowsTo.mono (hadded : ∀ step, added step → added' step) (hV : ∀ a b, V a b → V' a b)
    (hw : w.GrowsTo alike added V w') : w.GrowsTo alike added' V' w' := by
  induction hw with
  | done hab => exact .done (hV _ _ hab)
  | remark r _ ih => exact .remark r ih
  | act hu _ ih => exact .act hu ih
  | wait ms _ ih => exact .wait ms ih
  | cancel _ ih => exact .cancel ih
  | addRemark hr _ ih => exact .addRemark (hadded _ hr) ih
  | addAct hu _ ih => exact .addAct (fun s => hadded _ (hu s)) ih
  | addCancel hc _ ih => exact .addCancel (hadded _ hc) ih

theorem growsTo_bind (hw : w.GrowsTo alike added V w')
    (hf : ∀ a b, V a b → (f a).GrowsTo alike added W (f' b)) :
    (w.bind f).GrowsTo alike added W (w'.bind f') := by
  induction hw with
  | done hab => exact hf _ _ hab
  | remark r _ ih => exact .remark r ih
  | act hu _ ih => exact .act hu ih
  | wait ms _ ih => exact .wait ms ih
  | cancel _ ih => exact .cancel ih
  | addRemark hr _ ih => exact .addRemark hr ih
  | addAct hu _ ih => exact .addAct hu ih
  | addCancel hc _ ih => exact .addCancel hc ih

/-- The work does the same from alike states. -/
def Heeds (alike : σ → σ → Prop) (w : Work σ α) : Prop :=
  w.GrowsTo alike (fun _ => False) (· = ·) w

theorem Heeds.growsTo (hw : w.Heeds alike) (added : Step σ → Prop) :
    w.GrowsTo alike added (· = ·) w :=
  GrowsTo.mono (fun _ => False.elim) (fun _ _ => id) hw

theorem heeds_bind (hw : w.Heeds alike) (hf : ∀ a, (f a).Heeds alike) : (w.bind f).Heeds alike :=
  growsTo_bind hw fun a _ hab => hab ▸ hf a

/-- Where no two states are alike, all work does the same from alike states. -/
theorem heeds_eq (w : Work σ α) : w.Heeds (· = ·) := by
  induction w with
  | done a => exact .done rfl
  | remark r w ih => exact .remark r ih
  | act u k ih => exact .act (fun _ _ hs => congrArg u hs) fun s _ hs => hs ▸ ih s
  | wait ms w ih => exact .wait ms ih
  | cancel w ih => exact .cancel ih

end Work

/-! ## Programs that grow -/

namespace Program

/-- `p.GrowsTo alike added V q`: from alike states `q` does what `p` does, with added steps. -/
inductive GrowsTo (alike : σ → σ → Prop) (added : Step σ → Prop) (V : α → α → Prop) :
    Program σ α → Program σ α → Prop where
  | done {a b : α} : V a b → GrowsTo alike added V (.done a) (.done b)
  | note (n : Note) {p q : Program σ α} :
    GrowsTo alike added V p q → GrowsTo alike added V (.note n p) (.note n q)
  | act {u u' : σ → σ} {k k' : σ → Program σ α} :
    Congruent alike u u' → (∀ s s', alike s s' → GrowsTo alike added V (k s) (k' s')) →
    GrowsTo alike added V (.act u k) (.act u' k')
  | sleep (ms : Nat) {p q : Program σ α} :
    GrowsTo alike added V p q → GrowsTo alike added V (.sleep ms p) (.sleep ms q)
  | cancelled {k k' : Bool → Program σ α} :
    (∀ c, GrowsTo alike added V (k c) (k' c)) →
    GrowsTo alike added V (.cancelled k) (.cancelled k')
  | cancel {p q : Program σ α} :
    GrowsTo alike added V p q → GrowsTo alike added V (.cancel p) (.cancel q)
  | claim (key : DecisionKey) {k k' : Claim → Program σ α} :
    (∀ c, GrowsTo alike added V (k c) (k' c)) →
    GrowsTo alike added V (.claim key k) (.claim key k')
  | settle (key : DecisionKey) (d : Option Decision) {p q : Program σ α} :
    GrowsTo alike added V p q → GrowsTo alike added V (.settle key d p) (.settle key d q)
  | track (key : DecisionKey) {p q : Program σ α} :
    GrowsTo alike added V p q → GrowsTo alike added V (.track key p) (.track key q)
  | addNote {n : Note} {p q : Program σ α} : added (.noted n) →
    GrowsTo alike added V p q → GrowsTo alike added V p (.note n q)
  | addAct {u : σ → σ} {p : Program σ α} {k : σ → Program σ α} : (∀ s, added (.acted u s)) →
    (∀ s, GrowsTo alike added V p (k s)) → GrowsTo alike added V p (.act u k)
  | addCancel {p q : Program σ α} : added .cancelled →
    GrowsTo alike added V p q → GrowsTo alike added V p (.cancel q)

variable {alike : σ → σ → Prop} {added : Step σ → Prop} {V : α → α → Prop} {W : β → β → Prop}
  {p q : Program σ α} {f f' : α → Program σ β}

theorem growsTo_bind (hp : p.GrowsTo alike added V q)
    (hf : ∀ a b, V a b → (f a).GrowsTo alike added W (f' b)) :
    (p.bind f).GrowsTo alike added W (q.bind f') := by
  induction hp with
  | done hab => exact hf _ _ hab
  | note n _ ih => exact .note n ih
  | act hu _ ih => exact .act hu ih
  | sleep ms _ ih => exact .sleep ms ih
  | cancelled _ ih => exact .cancelled ih
  | cancel _ ih => exact .cancel ih
  | claim key _ ih => exact .claim key ih
  | settle key d _ ih => exact .settle key d ih
  | track key _ ih => exact .track key ih
  | addNote hn _ ih => exact .addNote hn ih
  | addAct hu _ ih => exact .addAct hu ih
  | addCancel hc _ ih => exact .addCancel hc ih

/-- Looking at what alike states have in common is no difference. -/
theorem growsTo_view {f : σ → α} (hf : ∀ s s', alike s s' → f s = f s') :
    (view f).GrowsTo alike added (· = ·) (view f) :=
  .act (fun _ _ hs => hs) fun s s' hs => .done (hf s s' hs)

theorem growsTo_tellAll (ns : List Note) :
    (tellAll ns : Program σ Unit).GrowsTo alike added (· = ·) (tellAll ns) := by
  induction ns with
  | nil => exact .done rfl
  | cons n ns ih => exact .note n ih

theorem growsTo_unlessCancelled {rest rest' : Program σ (Guarded α)}
    (hrest : rest.GrowsTo alike added (· = ·) rest') :
    (unlessCancelled rest).GrowsTo alike added (· = ·) (unlessCancelled rest') := by
  refine .cancelled fun c => ?_
  cases c with
  | true => exact .done rfl
  | false => exact hrest

/-- **Under a guard** work grows as it does without: what is added takes no time. -/
theorem growsTo_guarded {w w' : Work σ α} (hw : w.GrowsTo alike added (· = ·) w')
    (budget : Option Nat) :
    (guarded budget w).GrowsTo alike added (· = ·) (guarded budget w') := by
  induction hw generalizing budget with
  | done hab =>
      subst hab
      exact .done rfl
  | remark r _ ih => exact .note _ (ih budget)
  | act hu _ ih => exact .act hu fun s s' hs => ih s s' hs budget
  | cancel _ ih => exact .cancel (ih budget)
  | addRemark hr _ ih => exact .addNote hr (ih budget)
  | addAct hu _ ih => exact .addAct hu fun s => ih s budget
  | addCancel hc _ ih => exact .addCancel hc (ih budget)
  | @wait ms w w' _ ih =>
      -- how a wait ends under a guard does not depend on the work behind it
      obtain ⟨left, hwait⟩ | ⟨left, hwait⟩ | hwait | ⟨short, hwait⟩ := waitsAs σ budget ms
      · rw [(hwait w).1, (hwait w').1]
        exact ih left
      · rw [(hwait w).1, (hwait w').1]
        exact .sleep ms (growsTo_unlessCancelled (ih left))
      · rw [(hwait w).1, (hwait w').1]
        exact .done rfl
      · rw [(hwait w).1, (hwait w').1]
        exact .sleep short (growsTo_unlessCancelled (.done rfl))

end Program

/-! ## What a grown program does -/

/-- The steps are the same, on alike states. -/
inductive Step.Alike (alike : σ → σ → Prop) : Step σ → Step σ → Prop where
  | acted {u u' : σ → σ} {s s' : σ} :
    Congruent alike u u' → alike s s' → Step.Alike alike (.acted u s) (.acted u' s')
  | same {step : Step σ} : step.found? = none → Step.Alike alike step step

/-- Nobody to whom alike states are the same notices the step: it changes the state where they do not
look, or notes something. -/
def Step.Unnoticed (alike : σ → σ → Prop) : Step σ → Prop
  | .acted u _ => ∀ s s', alike s s' → alike s (u s')
  | .cancelled => False
  | _ => True

/-- The sessions have the same time and the same decisions, and their states are alike. -/
structure Session.Alike (alike : σ → σ → Prop) (s s' : Session σ) : Prop where
  clock : s'.clock = s.clock
  cache : s'.cache = s.cache
  state : alike s.state s'.state

/-- The second run comes to the same value with the same token, and leaves an alike session. -/
structure Run.Alike (alike : σ → σ → Prop) (V : α → α → Prop) (r r' : Run σ α) : Prop where
  value : V r.value r'.value
  token : r'.token = r.token
  session : r.session.Alike alike r'.session

/-- The histories have the same steps, but for additions to the second one. -/
abbrev History.Enriched (alike : σ → σ → Prop) (added : Step σ → Prop) (h h' : History σ) : Prop :=
  Interspersed (Step.Alike alike) added h h'

section

variable {alike : σ → σ → Prop} {added : Step σ → Prop} {h h' : History σ}

/-- A view of the notes that does not show the added ones shows no difference. -/
theorem History.Enriched.filterMap_notes (he : History.Enriched alike added h h')
    (view : Note → Option β) (hview : ∀ n, added (.noted n) → view n = none) :
    h'.notes.filterMap view = h.notes.filterMap view := by
  rw [notes, notes, List.filterMap_filterMap, List.filterMap_filterMap]
  refine Interspersed.filterMap_eq (fun step step' hstep => ?_) (fun step hstep => ?_) he
  · cases hstep <;> rfl
  · cases step with
    | noted n => exact hview n hstep
    | _ => rfl

/-- The notes are the same, but for the added ones. -/
theorem History.Enriched.notes (he : History.Enriched alike added h h') :
    Interspersed (· = ·) (fun n => added (.noted n)) h.notes h'.notes := by
  induction he with
  | nil => exact .nil
  | @keep step step' _ _ hstep _ ih =>
      cases hstep with
      | acted _ _ => exact ih
      | same _ =>
          cases step with
          | noted n => exact .keep rfl ih
          | _ => exact ih
  | @insert step _ _ hstep _ ih =>
      cases step with
      | noted n => exact .insert hstep ih
      | _ => exact ih

end

namespace Program

/-- The second program does what the first one does: whatever others do it may take the courses of the
first one and no others, all of them with additions only, and alone it comes to the same value at the
same time if the additions are not noticed. -/
structure MatchedBy (alike : σ → σ → Prop) (added : Step σ → Prop) (p q : Program σ α) : Prop where
  forth : (∀ s, alike s s) → Nonempty σ → ∀ h a, p.Unfolds h a →
    ∃ h', q.Unfolds h' a ∧ History.Enriched alike added h h'
  back : (∀ s, alike s s) → ∀ h' a, q.Unfolds h' a →
    ∃ h, p.Unfolds h a ∧ History.Enriched alike added h h'
  run : (∀ step, added step → step.Unnoticed alike) → ∀ t s s', s.Alike alike s' →
    Run.Alike alike (· = ·) (p.run t s) (q.run t s') ∧
      History.Enriched alike added (p.history t s) (q.history t s')

variable {alike : σ → σ → Prop} {added : Step σ → Prop} {V : α → α → Prop} {p q : Program σ α}

theorem GrowsTo.run (hadded : ∀ step, added step → step.Unnoticed alike)
    (hp : p.GrowsTo alike added V q) (t : Token) {s s' : Session σ}
    (hs : s.Alike alike s') :
    Run.Alike alike V (p.run t s) (q.run t s') ∧
      History.Enriched alike added (p.history t s) (q.history t s') := by
  obtain ⟨_, _, state⟩ := s
  obtain ⟨clock, cache, state'⟩ := s'
  obtain ⟨rfl, rfl, hstate⟩ := hs
  induction hp generalizing t clock cache state state' with
  | done hab => exact ⟨⟨hab, rfl, ⟨rfl, rfl, hstate⟩⟩, .nil⟩
  | note n _ ih =>
      obtain ⟨hrun, hsteps⟩ := ih t state clock cache state' hstate
      exact ⟨⟨hrun.value, hrun.token, hrun.session⟩, .keep (.same rfl) hsteps⟩
  | @act u u' _ _ hu _ ih =>
      obtain ⟨hrun, hsteps⟩ :=
        ih state state' hstate t (u state) clock cache (u' state') (hu _ _ hstate)
      exact ⟨hrun, .keep (.acted hu hstate) hsteps⟩
  | sleep ms _ ih =>
      obtain ⟨hrun, hsteps⟩ :=
        ih (t.sleep clock ms).1 state (t.sleep clock ms).2 cache state' hstate
      exact ⟨hrun, .keep (.same rfl) hsteps⟩
  | cancelled _ ih =>
      obtain ⟨hrun, hsteps⟩ := ih t.cancelled t state clock cache state' hstate
      exact ⟨hrun, .keep (.same rfl) hsteps⟩
  | cancel _ ih =>
      obtain ⟨hrun, hsteps⟩ := ih { t with cancelled := true } state clock cache state' hstate
      exact ⟨hrun, .keep (.same rfl) hsteps⟩
  | claim key _ ih =>
      simp only [Program.run, history]
      cases cache.get? key with
      | none =>
          obtain ⟨hrun, hsteps⟩ := ih .won t state clock cache state' hstate
          exact ⟨hrun, .keep (.same rfl) hsteps⟩
      | some kept =>
          obtain ⟨hrun, hsteps⟩ := ih (.hit kept) t state clock cache state' hstate
          exact ⟨hrun, .keep (.same rfl) hsteps⟩
  | settle key d _ ih =>
      cases d with
      | none =>
          obtain ⟨hrun, hsteps⟩ := ih t state clock cache state' hstate
          exact ⟨hrun, .keep (.same rfl) hsteps⟩
      | some d =>
          obtain ⟨hrun, hsteps⟩ := ih t state clock (cache.insert key d) state' hstate
          exact ⟨hrun, .keep (.same rfl) hsteps⟩
  | track key _ ih =>
      obtain ⟨hrun, hsteps⟩ := ih t state clock (cache.track key) state' hstate
      exact ⟨hrun, .keep (.same rfl) hsteps⟩
  | addNote hn _ ih =>
      obtain ⟨hrun, hsteps⟩ := ih t state clock cache state' hstate
      exact ⟨⟨hrun.value, hrun.token, hrun.session⟩, .insert hn hsteps⟩
  | @addAct u _ _ hu _ ih =>
      -- only the second session changes, and nobody notices
      have hunnoticed := hadded _ (hu state') state state' hstate
      obtain ⟨hrun, hsteps⟩ := ih state' t state clock cache (u state') hunnoticed
      exact ⟨hrun, .insert (hu state') hsteps⟩
  | addCancel hc _ _ => exact (hadded _ hc).elim

theorem GrowsTo.forth (hrefl : ∀ s, alike s s) (s : σ) (hp : p.GrowsTo alike added (· = ·) q)
    {h : History σ} {a : α} (hu : p.Unfolds h a) :
    ∃ h', q.Unfolds h' a ∧ History.Enriched alike added h h' := by
  -- added changes find the state `s`, and all others what they found in `h`
  induction hp generalizing h with
  | done hab =>
      subst hab
      cases hu
      exact ⟨[], .done _, .nil⟩
  | note n _ ih =>
      cases hu with
      | note _ hu =>
          obtain ⟨h', hq, hsteps⟩ := ih hu
          exact ⟨_, .note n hq, .keep (.same rfl) hsteps⟩
  | act hupdate _ ih =>
      cases hu with
      | act _ found hu =>
          obtain ⟨h', hq, hsteps⟩ := ih found found (hrefl found) hu
          exact ⟨_, .act _ found hq, .keep (.acted hupdate (hrefl found)) hsteps⟩
  | sleep ms _ ih =>
      cases hu with
      | sleep _ hu =>
          obtain ⟨h', hq, hsteps⟩ := ih hu
          exact ⟨_, .sleep ms hq, .keep (.same rfl) hsteps⟩
  | cancelled _ ih =>
      cases hu with
      | cancelled c hu =>
          obtain ⟨h', hq, hsteps⟩ := ih c hu
          exact ⟨_, .cancelled c hq, .keep (.same rfl) hsteps⟩
  | cancel _ ih =>
      cases hu with
      | cancel hu =>
          obtain ⟨h', hq, hsteps⟩ := ih hu
          exact ⟨_, .cancel hq, .keep (.same rfl) hsteps⟩
  | claim key _ ih =>
      cases hu with
      | claim _ c hu =>
          obtain ⟨h', hq, hsteps⟩ := ih c hu
          exact ⟨_, .claim key c hq, .keep (.same rfl) hsteps⟩
  | settle key d _ ih =>
      cases hu with
      | settle _ _ hu =>
          obtain ⟨h', hq, hsteps⟩ := ih hu
          exact ⟨_, .settle key d hq, .keep (.same rfl) hsteps⟩
  | track key _ ih =>
      cases hu with
      | track _ hu =>
          obtain ⟨h', hq, hsteps⟩ := ih hu
          exact ⟨_, .track key hq, .keep (.same rfl) hsteps⟩
  | addNote hn _ ih =>
      obtain ⟨h', hq, hsteps⟩ := ih hu
      exact ⟨_, .note _ hq, .insert hn hsteps⟩
  | addAct hupdate _ ih =>
      obtain ⟨h', hq, hsteps⟩ := ih s hu
      exact ⟨_, .act _ s hq, .insert (hupdate s) hsteps⟩
  | addCancel hc _ ih =>
      obtain ⟨h', hq, hsteps⟩ := ih hu
      exact ⟨_, .cancel hq, .insert hc hsteps⟩

theorem GrowsTo.back (hrefl : ∀ s, alike s s) (hp : p.GrowsTo alike added (· = ·) q)
    {h' : History σ} {a : α} (hu : q.Unfolds h' a) :
    ∃ h, p.Unfolds h a ∧ History.Enriched alike added h h' := by
  induction hp generalizing h' with
  | done hab =>
      subst hab
      cases hu
      exact ⟨[], .done _, .nil⟩
  | note n _ ih =>
      cases hu with
      | note _ hu =>
          obtain ⟨h, hp, hsteps⟩ := ih hu
          exact ⟨_, .note n hp, .keep (.same rfl) hsteps⟩
  | act hupdate _ ih =>
      cases hu with
      | act _ found hu =>
          obtain ⟨h, hp, hsteps⟩ := ih found found (hrefl found) hu
          exact ⟨_, .act _ found hp, .keep (.acted hupdate (hrefl found)) hsteps⟩
  | sleep ms _ ih =>
      cases hu with
      | sleep _ hu =>
          obtain ⟨h, hp, hsteps⟩ := ih hu
          exact ⟨_, .sleep ms hp, .keep (.same rfl) hsteps⟩
  | cancelled _ ih =>
      cases hu with
      | cancelled c hu =>
          obtain ⟨h, hp, hsteps⟩ := ih c hu
          exact ⟨_, .cancelled c hp, .keep (.same rfl) hsteps⟩
  | cancel _ ih =>
      cases hu with
      | cancel hu =>
          obtain ⟨h, hp, hsteps⟩ := ih hu
          exact ⟨_, .cancel hp, .keep (.same rfl) hsteps⟩
  | claim key _ ih =>
      cases hu with
      | claim _ c hu =>
          obtain ⟨h, hp, hsteps⟩ := ih c hu
          exact ⟨_, .claim key c hp, .keep (.same rfl) hsteps⟩
  | settle key d _ ih =>
      cases hu with
      | settle _ _ hu =>
          obtain ⟨h, hp, hsteps⟩ := ih hu
          exact ⟨_, .settle key d hp, .keep (.same rfl) hsteps⟩
  | track key _ ih =>
      cases hu with
      | track _ hu =>
          obtain ⟨h, hp, hsteps⟩ := ih hu
          exact ⟨_, .track key hp, .keep (.same rfl) hsteps⟩
  | addNote hn _ ih =>
      cases hu with
      | note _ hu =>
          obtain ⟨h, hp, hsteps⟩ := ih hu
          exact ⟨h, hp, .insert hn hsteps⟩
  | addAct hupdate _ ih =>
      cases hu with
      | act _ found hu =>
          obtain ⟨h, hp, hsteps⟩ := ih found hu
          exact ⟨h, hp, .insert (hupdate found) hsteps⟩
  | addCancel hc _ ih =>
      cases hu with
      | cancel hu =>
          obtain ⟨h, hp, hsteps⟩ := ih hu
          exact ⟨h, hp, .insert hc hsteps⟩

/-- **A program that has grown does what it did before.** -/
theorem GrowsTo.matchedBy (hp : p.GrowsTo alike added (· = ·) q) : p.MatchedBy alike added q where
  forth hrefl hstate _ _ hu := hstate.elim fun s => hp.forth hrefl s hu
  back hrefl _ _ hu := hp.back hrefl hu
  run hadded t _ _ hs := hp.run hadded t hs

end Program

end TrialRouting
