import TrialRouting.Program.Session

/-!
# TrialRouting.Program.Crowd

Runs several programs at the same time on one session. Each member of the crowd starts at its own
time. The crowd goes round: in a round every member in its turn goes on as far as it can, and when
it cannot go on its alarm goes off if that is due. A member that becomes able to go on after its
turn waits for the next round. When no round would change anything, the clock moves on to the next
time at which a member wakes or an alarm is due.

Members share decisions. The first to claim a key makes the decision and the later ones queue for
it until that member settles. Then they are called: each hears at its own turn how the decision
ended, but not before those ahead of it in the queue have heard. Only then does it look at its own
token: a member that queued in vain goes back to its claim unless it has been cancelled.

`step` is one move of the crowd, and every move makes the crowd smaller: it shortens a program, or
else it moves a member towards its next wait. So `run` comes to an end without counting its moves.
-/

namespace TrialRouting

/-! ## Shorter programs -/

namespace Program

variable {σ α : Type}

/-- `Child p q`: a step of `q` leads to `p`. -/
inductive Child : Program σ α → Program σ α → Prop where
  | note (n : Note) (p : Program σ α) : Child p (.note n p)
  | act (u : σ → σ) (k : σ → Program σ α) (s : σ) : Child (k s) (.act u k)
  | sleep (ms : Nat) (p : Program σ α) : Child p (.sleep ms p)
  | cancelled (k : Bool → Program σ α) (c : Bool) : Child (k c) (.cancelled k)
  | cancel (p : Program σ α) : Child p (.cancel p)
  | claim (key : DecisionKey) (k : Claim → Program σ α) (c : Claim) : Child (k c) (.claim key k)
  | settle (key : DecisionKey) (d : Option Decision) (p : Program σ α) :
    Child p (.settle key d p)
  | track (key : DecisionKey) (p : Program σ α) : Child p (.track key p)

theorem child_wf : WellFounded (Child (σ := σ) (α := α)) := by
  refine ⟨fun p => ?_⟩
  induction p with
  | done a => exact ⟨_, fun _ h => nomatch h⟩
  | note n p ih => exact ⟨_, fun _ h => by cases h; exact ih⟩
  | act u k ih => exact ⟨_, fun _ h => by cases h; exact ih _⟩
  | sleep ms p ih => exact ⟨_, fun _ h => by cases h; exact ih⟩
  | cancelled k ih => exact ⟨_, fun _ h => by cases h; exact ih _⟩
  | cancel p ih => exact ⟨_, fun _ h => by cases h; exact ih⟩
  | claim key k ih => exact ⟨_, fun _ h => by cases h; exact ih _⟩
  | settle key d p ih => exact ⟨_, fun _ h => by cases h; exact ih⟩
  | track key p ih => exact ⟨_, fun _ h => by cases h; exact ih⟩

end Program

/-- `Replaced r l' l`: one element of `l` is replaced by a smaller one. -/
inductive Replaced {α : Type} (r : α → α → Prop) : List α → List α → Prop where
  | here {x y : α} (rest : List α) : r y x → Replaced r (y :: rest) (x :: rest)
  | there (x : α) {l l' : List α} : Replaced r l' l → Replaced r (x :: l') (x :: l)

namespace Replaced

variable {α : Type} {r : α → α → Prop}

theorem acc_cons {x : α} (hx : Acc r x) {l : List α} (hl : Acc (Replaced r) l) :
    Acc (Replaced r) (x :: l) := by
  induction hx generalizing l with
  | intro x _ ihx =>
    induction hl with
    | intro l hl ihl =>
      refine ⟨_, fun l' h => ?_⟩
      cases h with
      | here _ hyx => exact ihx _ hyx ⟨_, hl⟩
      | there _ h => exact ihl _ h

theorem wf (h : WellFounded r) : WellFounded (Replaced r) := by
  refine ⟨fun l => ?_⟩
  induction l with
  | nil => exact ⟨_, fun _ h => nomatch h⟩
  | cons x l ih => exact acc_cons (h.apply x) ih

theorem append {x y : α} (h : r y x) (before after : List α) :
    Replaced r (before ++ y :: after) (before ++ x :: after) := by
  induction before with
  | nil => exact .here _ h
  | cons z zs ih => exact .there z ih

end Replaced

/-! ## Members -/

/-- What a member of a crowd is up to. A member that is called hears how the decision ended that it
queued for; those that queued together are called by the same call. -/
inductive Standing where
  | due (time : Nat)
  | ready
  | waiting (key : DecisionKey)
  | called (call : Nat) (d : Option Decision)
  | finished (time : Nat)
  deriving DecidableEq, Repr, Inhabited

/-- How far a standing is from the next wait. -/
def Standing.weight : Standing → Nat
  | .due _ => 2
  | .called _ _ => 2
  | .ready => 1
  | .waiting _ => 0
  | .finished _ => 0

/-- A program of a crowd. Its alarm rings from the time for which it is set until it goes off, which
cancels the program. `queued` is the number that it drew when it last began to queue. -/
structure Member (σ α : Type) where
  token : Token
  ringing : Bool
  program : Program σ α
  standing : Standing
  queued : Nat

namespace Member

variable {σ α : Type}

/-- How far a member is from the next wait, and its alarm from going off. -/
def weight (m : Member σ α) : Nat :=
  m.standing.weight + (if m.token.alarm.isSome then 2 else 0) + (if m.ringing then 1 else 0)

/-- The times at which something happens to the member by itself. -/
def times (m : Member σ α) : List Nat :=
  match m.standing with
  | .due time => time :: m.token.alarm.toList
  | _ => m.token.alarm.toList

/-- A sleeping member wakes if it is due by the given time. -/
def wake (time : Nat) (m : Member σ α) : Member σ α :=
  match m.standing with
  | .due t => if t ≤ time then { m with standing := .ready } else m
  | _ => m

/-- The alarm of a member rings if it is set for the given time or before. -/
def ring (time : Nat) (m : Member σ α) : Member σ α :=
  match m.token.alarm with
  | some t => if t ≤ time then { m with token := ⟨m.token.cancelled, none⟩, ringing := true } else m
  | none => m

/-- What the given time makes of a member. -/
def arouse (time : Nat) (m : Member σ α) : Member σ α :=
  (m.wake time).ring time

/-- The member at the end of its turn. An alarm that rings goes off, and a member that sleeps though
it has been cancelled is able to go on again. -/
def rest (m : Member σ α) : Member σ α :=
  let cancelled := m.token.cancelled || m.ringing
  let standing := match m.standing with
    | .due time => if cancelled then .ready else .due time
    | s => s
  { m with standing, token := { m.token with cancelled }, ringing := false }

/-- The member has come to its end; nothing happens to it any more. -/
def finish (time : Nat) (m : Member σ α) : Member σ α :=
  { m with standing := .finished time, token := { m.token with alarm := none }, ringing := false }

/-- The member waits for the decision of the key. -/
def awaits (key : DecisionKey) (m : Member σ α) : Bool :=
  m.standing == .waiting key

/-- The member hears of a decision before another one, if both are called by the same call. -/
def ahead (m n : Member σ α) : Bool :=
  match m.standing, n.standing with
  | .called call _, .called call' _ => call == call' && m.queued < n.queued
  | _, _ => false

/-- The end of a finished member: its value and its time. -/
def result? (m : Member σ α) : Option (α × Nat) :=
  match m.standing, m.program with
  | .finished time, .done a => some (a, time)
  | _, _ => none

theorem program_arouse (time : Nat) (m : Member σ α) : (m.arouse time).program = m.program := by
  have hw : (m.wake time).program = m.program := by
    unfold wake
    split
    · split <;> rfl
    · rfl
  rw [← hw]
  unfold arouse ring
  split
  · split <;> rfl
  · rfl

theorem program_rest (m : Member σ α) : m.rest.program = m.program := rfl

theorem weight_wake_le (time : Nat) (m : Member σ α) : (m.wake time).weight ≤ m.weight := by
  unfold wake
  split
  · rename_i hs
    split <;> simp [weight, hs, Standing.weight]
  · exact Nat.le_refl _

theorem weight_ring_le (time : Nat) (m : Member σ α) : (m.ring time).weight ≤ m.weight := by
  unfold ring
  split
  · rename_i ha
    split
    · simp only [weight, ha, Option.isSome_some, Option.isSome_none, Bool.false_eq_true, if_true,
        if_false]
      omega
    · exact Nat.le_refl _
  · exact Nat.le_refl _

theorem weight_arouse_le (time : Nat) (m : Member σ α) : (m.arouse time).weight ≤ m.weight :=
  Nat.le_trans (weight_ring_le time _) (weight_wake_le time m)

theorem weight_wake_lt {time : Nat} {m : Member σ α} (h : m.standing = .due time) :
    (m.wake time).weight < m.weight := by
  simp [wake, weight, h, Standing.weight]

theorem weight_ring_lt {time : Nat} {m : Member σ α} (h : m.token.alarm = some time) :
    (m.ring time).weight < m.weight := by
  cases hr : m.ringing <;> simp [ring, weight, h, hr]

theorem token_wake (time : Nat) (m : Member σ α) : (m.wake time).token = m.token := by
  unfold wake
  split
  · split <;> rfl
  · rfl

theorem weight_arouse_lt {time : Nat} {m : Member σ α} (h : time ∈ m.times) :
    (m.arouse time).weight < m.weight := by
  have alarm (ha : time ∈ m.token.alarm.toList) : (m.arouse time).weight < m.weight := by
    have ha : (m.wake time).token.alarm = some time := by
      simpa [token_wake, Option.mem_toList] using ha
    exact Nat.lt_of_lt_of_le (weight_ring_lt ha) (weight_wake_le time m)
  unfold times at h
  split at h
  · rename_i hs
    rcases List.mem_cons.1 h with rfl | h
    · exact Nat.lt_of_le_of_lt (weight_ring_le _ _) (weight_wake_lt hs)
    · exact alarm h
  · exact alarm h

theorem weight_rest_le (m : Member σ α) : m.rest.weight ≤ m.weight := by
  cases hs : m.standing <;> cases hr : m.ringing <;>
    simp only [rest, weight, hs, hr] <;> (repeat' split) <;> simp_all [Standing.weight]

theorem weight_rest_lt {m : Member σ α} (h : m.ringing = true) : m.rest.weight < m.weight := by
  cases hs : m.standing <;>
    simp only [rest, weight, hs, h] <;> (repeat' split) <;> simp_all [Standing.weight]

theorem weight_finish_lt {time : Nat} {m : Member σ α} (h : m.standing = .ready) :
    (m.finish time).weight < m.weight := by
  simp only [finish, weight, h, Standing.weight, Option.isSome_none, Bool.false_eq_true, if_false]
  omega

end Member

/-! ## Crowds -/

/-- Programs that run at the same time. `flights` are the keys that some member is making a
decision for; `turn` is the place whose turn it is; `drawn` counts the queue numbers and calls that
have been given; the notes are the newest first, each with the place of its member. -/
structure Crowd (σ α : Type) where
  session : Session σ
  members : List (Member σ α)
  flights : List DecisionKey
  turn : Nat
  drawn : Nat
  notes : List (Nat × Note)

namespace Crowd

variable {σ α : Type}

/-- The sum of the weights of all members. -/
def weight : List (Member σ α) → Nat
  | [] => 0
  | m :: ms => m.weight + weight ms

theorem weight_append (ms ns : List (Member σ α)) :
    weight (ms ++ ns) = weight ms + weight ns := by
  induction ms with
  | nil => simp [weight]
  | cons m ms ih =>
    simp only [List.cons_append, weight, ih]
    omega

/-- `Smaller c' c`: a program is shorter, or none is longer and the weight is less. -/
def Smaller (c' c : Crowd σ α) : Prop :=
  Prod.Lex (Replaced Program.Child) (· < ·)
    (c'.members.map Member.program, weight c'.members)
    (c.members.map Member.program, weight c.members)

theorem smaller_wf : WellFounded (Smaller (σ := σ) (α := α)) :=
  InvImage.wf (fun c : Crowd σ α => (c.members.map Member.program, weight c.members))
    (Prod.lex ⟨_, Replaced.wf Program.child_wf⟩ ⟨_, Nat.lt_wfRel.wf⟩).wf

instance : WellFoundedRelation (Crowd σ α) :=
  ⟨Smaller, smaller_wf⟩

theorem Smaller.of_child {c' c : Crowd σ α}
    (h : Replaced Program.Child (c'.members.map Member.program) (c.members.map Member.program)) :
    Smaller c' c :=
  .left _ _ h

theorem Smaller.of_weight {c' c : Crowd σ α}
    (hp : c'.members.map Member.program = c.members.map Member.program)
    (hw : weight c'.members < weight c.members) : Smaller c' c := by
  unfold Smaller
  rw [hp]
  exact .right _ hw

/-! ## Choosing a member -/

/-- A list taken apart at one element. -/
structure Place {β : Type} (l : List β) where
  before : List β
  element : β
  after : List β
  eq : l = before ++ element :: after

/-- The place of the first element. -/
def Place.front {β : Type} (x : β) (xs : List β) : Place (x :: xs) :=
  ⟨[], x, xs, rfl⟩

/-- The place of an element behind one more. -/
def Place.behind {β : Type} {l : List β} (x : β) (p : Place l) : Place (x :: l) :=
  ⟨x :: p.before, p.element, p.after, congrArg (x :: ·) p.eq⟩

/-- The first element that passes the test, after so many that are left out. -/
def first? {β : Type} (test : β → Bool) :
    Nat → (l : List β) → Option { p : Place l // test p.element }
  | _, [] => none
  | n + 1, x :: xs => (first? test n xs).map fun p => ⟨p.1.behind x, p.2⟩
  | 0, x :: xs =>
    if h : test x then some ⟨.front x xs, h⟩
    else (first? test 0 xs).map fun p => ⟨p.1.behind x, p.2⟩

/-- The member is the next to hear of the decision for which it was called. -/
def isNext (c : Crowd σ α) (m : Member σ α) : Bool :=
  c.members.all fun n => !n.ahead m

/-- The program of the member can go on. -/
def canRun (c : Crowd σ α) (m : Member σ α) : Bool :=
  match m.standing with
  | .ready => true
  | .called _ _ => c.isNext m
  | _ => false

/-- The next member to whom something happens in this round or in a new one. -/
def next? (c : Crowd σ α) : Option { p : Place c.members // c.canRun p.element || p.element.ringing } :=
  let test (m : Member σ α) : Bool := c.canRun m || m.ringing
  (first? test c.turn c.members).or (first? test 0 c.members)

/-- The earliest time at which something happens by itself. -/
def earliest? (ms : List (Member σ α)) : Option Nat :=
  (ms.flatMap Member.times).min?

/-! ## Moves -/

/-- The crowd with a changed member whose turn goes on. -/
def withMember (c : Crowd σ α) (p : Place c.members) (m : Member σ α) : Crowd σ α :=
  { c with members := p.before ++ m :: p.after, turn := p.before.length }

/-- The crowd with a changed member whose turn is over. -/
def withResting (c : Crowd σ α) (p : Place c.members) (m : Member σ α) : Crowd σ α :=
  { c with members := p.before ++ m.rest :: p.after, turn := p.before.length + 1 }

theorem smaller_of_child {c c' : Crowd σ α} {p : Place c.members} {m : Member σ α}
    (h : Program.Child m.program p.element.program)
    (hm : c'.members.map Member.program = (p.before ++ m :: p.after).map Member.program) :
    Smaller c' c := by
  apply Smaller.of_child
  rw [hm, (congrArg (List.map Member.program) p.eq : c.members.map Member.program = _)]
  simpa using Replaced.append h _ _

theorem smaller_of_weight {c c' : Crowd σ α} {p : Place c.members} {m : Member σ α}
    (hp : m.program = p.element.program) (hw : m.weight < p.element.weight)
    (hm : c'.members = p.before ++ m :: p.after) : Smaller c' c := by
  apply Smaller.of_weight
  · rw [hm, (congrArg (List.map Member.program) p.eq : c.members.map Member.program = _)]
    simp [hp]
  · rw [hm, (congrArg weight p.eq : weight c.members = _)]
    simp only [weight_append, weight]
    omega

/-- A member that queued for the key is called to hear how its decision ended. -/
def call (key : DecisionKey) (call : Nat) (d : Option Decision) (m : Member σ α) : Member σ α :=
  if m.awaits key then { m with standing := .called call d } else m

theorem program_call (key : DecisionKey) (n : Nat) (d : Option Decision) (m : Member σ α) :
    (call key n d m).program = m.program := by
  unfold call
  split <;> rfl

/-- What a crowd becomes by a move. -/
abbrev Move (c : Crowd σ α) := { c' : Crowd σ α // Smaller c' c }

/-- The crowd after a step of a member that is ready. -/
def afterReady (c : Crowd σ α) (p : Place c.members) : Crowd σ α :=
  let m := p.element
  let s := c.session
  match m.program with
  | .done _ => c.withMember p (m.finish s.clock)
  | .note n q =>
    { c.withMember p { m with program := q } with notes := (p.before.length, n) :: c.notes }
  | .act u k =>
    { c.withMember p { m with program := k s.state } with session := { s with state := u s.state } }
  | .sleep ms q => c.withResting p { m with program := q, standing := .due (s.clock + ms) }
  | .cancelled k => c.withMember p { m with program := k m.token.cancelled }
  | .cancel q =>
    c.withMember p { m with program := q, token := { m.token with cancelled := true } }
  | .claim key k =>
    match s.cache.get? key with
    | some d => c.withMember p { m with program := k (.hit d) }
    | none =>
      if c.flights.contains key then
        { c.withResting p { m with standing := .waiting key, queued := c.drawn } with
          drawn := c.drawn + 1 }
      else { c.withMember p { m with program := k .won } with flights := key :: c.flights }
  | .settle key d q =>
    { session := { s with cache := (d.map (s.cache.insert key)).getD s.cache }
      members := (p.before ++ { m with program := q } :: p.after).map (call key c.drawn d)
      flights := c.flights.filter (· != key)
      turn := p.before.length
      drawn := c.drawn + 1
      notes := c.notes }
  | .track key q =>
    { c.withMember p { m with program := q } with
      session := { s with cache := s.cache.track key } }

theorem smaller_afterReady {c : Crowd σ α} {p : Place c.members}
    (hr : p.element.standing = .ready) : Smaller (c.afterReady p) c := by
  have child {q : Program σ α} (h : Program.Child q p.element.program) (m : Member σ α)
      (hm : m.program = q) (c' : Crowd σ α)
      (hc : c'.members.map Member.program = (p.before ++ m :: p.after).map Member.program) :
      Smaller c' c :=
    smaller_of_child (hm ▸ h) hc
  unfold afterReady
  dsimp only
  split
  · exact smaller_of_weight (m := p.element.finish c.session.clock) rfl
      (Member.weight_finish_lt hr) rfl
  · rename_i n q hm
    exact child (hm ▸ .note n q) { p.element with program := q } rfl _ rfl
  · rename_i u k hm
    exact child (hm ▸ .act u k c.session.state) { p.element with program := k _ } rfl _ rfl
  · rename_i ms q hm
    exact child (hm ▸ .sleep ms q) { p.element with program := q } rfl _
      (by simp [withResting, Member.program_rest])
  · rename_i k hm
    exact child (hm ▸ .cancelled k p.element.token.cancelled) { p.element with program := k _ } rfl
      _ rfl
  · rename_i q hm
    exact child (hm ▸ .cancel q) { p.element with program := q } rfl _ (by simp [withMember])
  · rename_i key k hm
    split
    · rename_i d _
      exact child (hm ▸ .claim key k (.hit d)) { p.element with program := k _ } rfl _ rfl
    · split
      · let m : Member σ α := { p.element with standing := .waiting key, queued := c.drawn }
        have hlt : m.weight < p.element.weight := by
          simp only [Member.weight, m, hr, Standing.weight]
          omega
        exact smaller_of_weight (m := m.rest) rfl
          (Nat.lt_of_le_of_lt (Member.weight_rest_le m) hlt) rfl
      · exact child (hm ▸ .claim key k .won) { p.element with program := k _ } rfl _ rfl
  · rename_i key d q hm
    exact child (hm ▸ .settle key d q) { p.element with program := q } rfl _
      (by simp [Function.comp_def, program_call])
  · rename_i key q hm
    exact child (hm ▸ .track key q) { p.element with program := q } rfl _ rfl

/-- The crowd after a member has heard how the decision ended that it queued for. It takes the
decision; without one it gives up if it has been cancelled, and otherwise goes back to its claim. -/
def afterCalled (c : Crowd σ α) (p : Place c.members) (d : Option Decision) : Crowd σ α :=
  let m := p.element
  match m.program with
  | .claim key k =>
    match d with
    | some d => c.withMember p { m with program := k (.hit d), standing := .ready }
    | none =>
      if m.token.cancelled then
        c.withMember p { m with program := k .abandoned, standing := .ready }
      else
        { c.withMember p { m with standing := .ready } with
          notes := (p.before.length, .event (.selectionRetried key.contract key.scope)) :: c.notes }
  | _ => c.withMember p { m with standing := .ready }

theorem smaller_afterCalled {c : Crowd σ α} {p : Place c.members} {d : Option Decision} {n : Nat}
    (hw : p.element.standing = .called n d) : Smaller (c.afterCalled p d) c := by
  have lighter : ({ p.element with standing := .ready } : Member σ α).weight < p.element.weight := by
    simp only [Member.weight, hw, Standing.weight]
    omega
  have answer {key : DecisionKey} {k : Claim → Program σ α} (hm : p.element.program = .claim key k)
      (answer : Claim) :
      Smaller (c.withMember p { p.element with program := k answer, standing := .ready }) c :=
    smaller_of_child (m := { p.element with program := k answer, standing := .ready })
      (by rw [hm]; exact .claim key k answer) rfl
  unfold afterCalled
  dsimp only
  split
  · rename_i hm
    split
    · exact answer hm _
    · split
      · exact answer hm _
      · exact smaller_of_weight (m := { p.element with standing := .ready }) rfl lighter rfl
  · exact smaller_of_weight (m := { p.element with standing := .ready }) rfl lighter rfl

/-- The alarm of a member goes off that cannot go on. -/
def stepAlarm (c : Crowd σ α) (p : Place c.members) (h : p.element.ringing = true) : Move c :=
  ⟨c.withResting p p.element,
    smaller_of_weight (m := p.element.rest) rfl (Member.weight_rest_lt h) rfl⟩

/-- The clock moves on to the given time, and a new round begins. -/
def advance (c : Crowd σ α) (time : Nat) : Crowd σ α :=
  { c with
    session := { c.session with clock := max c.session.clock time }
    members := c.members.map (Member.arouse time)
    turn := 0 }

theorem weight_map_lt {ms : List (Member σ α)} {f : Member σ α → Member σ α}
    (hle : ∀ m, (f m).weight ≤ m.weight) {m : Member σ α} (hm : m ∈ ms)
    (hlt : (f m).weight < m.weight) : weight (ms.map f) < weight ms := by
  induction ms with
  | nil => simp at hm
  | cons x xs ih =>
    have hxs : weight (xs.map f) ≤ weight xs := by
      clear ih hm
      induction xs with
      | nil => exact Nat.le_refl _
      | cons y ys ih =>
        have := hle y
        simp only [weight, List.map_cons] at ih ⊢
        omega
    have hx := hle x
    rcases List.mem_cons.1 hm with rfl | hm'
    · simp only [weight, List.map_cons] at hxs ⊢
      omega
    · have := ih hm'
      simp only [weight, List.map_cons] at this ⊢
      omega

theorem smaller_advance {c : Crowd σ α} {time : Nat} (h : earliest? c.members = some time) :
    Smaller (c.advance time) c := by
  obtain ⟨m, hm, ht⟩ := List.mem_flatMap.1 (List.min?_mem h)
  apply Smaller.of_weight
  · simp [advance, Function.comp_def, Member.program_arouse]
  · exact weight_map_lt (Member.weight_arouse_le time) hm (Member.weight_arouse_lt ht)

/-- One move of a crowd; none when nothing will ever happen again. -/
def step (c : Crowd σ α) : Option (Move c) :=
  match c.next? with
  | some ⟨p, h⟩ =>
    match hs : p.element.standing with
    | .ready => some ⟨c.afterReady p, smaller_afterReady hs⟩
    | .called _ d =>
      if hn : c.isNext p.element then some ⟨c.afterCalled p d, smaller_afterCalled hs⟩
      else some (c.stepAlarm p (by simpa [canRun, hs, hn] using h))
    | .due _ => some (c.stepAlarm p (by simpa [canRun, hs] using h))
    | .waiting _ => some (c.stepAlarm p (by simpa [canRun, hs] using h))
    | .finished _ => some (c.stepAlarm p (by simpa [canRun, hs] using h))
  | none =>
    match h : earliest? c.members with
    | none => none
    | some time => some ⟨c.advance time, smaller_advance h⟩

/-- The crowd when nothing will ever happen again. -/
def run (c : Crowd σ α) : Crowd σ α :=
  match c.step with
  | none => c
  | some c' => run c'.1
termination_by c
decreasing_by exact c'.2

/-! ## Gathering a crowd -/

/-- A program that joins a crowd: how long after the gathering it starts, whether it is cancelled
from the start, and how long after its start it will be. -/
structure Entrant (σ α : Type) where
  program : Program σ α
  startAfter : Nat
  cancelled : Bool
  cancelAfter : Option Nat

/-- A member that starts at its time. -/
def Entrant.member (clock : Nat) (e : Entrant σ α) : Member σ α :=
  let start := clock + Duration.cutWait e.startAfter
  { token := .starting start e.cancelled e.cancelAfter
    ringing := false
    program := e.program
    standing := .due start
    queued := 0 }

/-- The crowd of some programs. -/
def gather (s : Session σ) (entrants : List (Entrant σ α)) : Crowd σ α where
  session := s
  members := entrants.map (Entrant.member s.clock)
  flights := []
  turn := 0
  drawn := 0
  notes := []

end Crowd

end TrialRouting
