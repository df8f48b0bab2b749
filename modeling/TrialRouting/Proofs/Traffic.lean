import TrialRouting.Cache.Lookup
import TrialRouting.Program.Crowd
import TrialRouting.Proofs.Cache

/-!
# TrialRouting.Proofs.Traffic

Callers that look for decisions at the same time, in any order of steps.  A
crowd goes its rounds by a fixed rule; here nothing is fixed but what a step
of a caller is, and a `Choice` says which step comes next.  Callers come when
they like, each with a key and a resolver of its own, and are cancelled when
somebody likes; sleeps end at any time; the cache drops decisions, and scopes
are ended, between any two steps.

The steps themselves are those of the crowd (`Crowd.afterReady` and
`Crowd.afterCalled`).  Callers are numbered in the order in which they came.

An `Occurrence` is what a step means for the decisions.  It fixes what becomes
of the flights (`Occurrence.flights`), of the decision of a key, unless that is
dropped (`Occurrence.entry`), and of the callers that wait (`Occurrence.heard`).
-/

namespace TrialRouting

variable {σ α β : Type}

/-! ## One member of a crowd steps -/

namespace Crowd

/-- The place with the given number of elements before it. -/
def Place.get? {l : List β} (i : Nat) : Option (Place l) :=
  match l, i with
  | [], _ => none
  | x :: xs, 0 => some (.front x xs)
  | x :: _, i + 1 => (Place.get? i).map (Place.behind x)

theorem Place.get?_eq_none {l : List β} {i : Nat} (h : l[i]? = none) :
    Place.get? (l := l) i = none := by
  induction l generalizing i with
  | nil => rfl
  | cons x xs ih =>
      cases i with
      | zero => simp at h
      | succ i => simp [Place.get?, ih (by simpa using h)]

theorem Place.exists_get? {l : List β} {i : Nat} {x : β} (h : l[i]? = some x) :
    ∃ p : Place l, Place.get? i = some p ∧ p.element = x ∧ p.before.length = i := by
  induction l generalizing i with
  | nil => simp at h
  | cons y ys ih =>
      cases i with
      | zero => exact ⟨.front y ys, rfl, by simpa [Place.front] using h, rfl⟩
      | succ i =>
          obtain ⟨p, hp, hx, hi⟩ := ih (by simpa using h)
          exact ⟨p.behind y, by simp [Place.get?, hp], hx, by simp [Place.behind, hi]⟩

theorem Place.replace_eq_set {l : List β} (p : Place l) (x : β) :
    p.before ++ x :: p.after = l.set p.before.length x := by
  obtain ⟨before, y, after, rfl⟩ := p
  simp

/-- The crowd after a step of the given member; a member that cannot go on stays where it is. -/
def go (c : Crowd σ α) (i : Nat) : Crowd σ α :=
  match Place.get? (l := c.members) i with
  | none => c
  | some p =>
    match p.element.standing with
    | .ready => c.afterReady p
    | .called _ d => c.afterCalled p d
    | _ => c

variable {c : Crowd σ α} {i : Nat} {m : Member σ α}

theorem go_of_none (h : c.members[i]? = none) : c.go i = c := by
  unfold go
  rw [Place.get?_eq_none h]

theorem go_of_ready (h : c.members[i]? = some m) (hs : m.standing = .ready) :
    ∃ p : Place c.members, p.element = m ∧ p.before.length = i ∧ c.go i = c.afterReady p := by
  obtain ⟨p, hp, rfl, hi⟩ := Place.exists_get? h
  refine ⟨p, rfl, hi, ?_⟩
  unfold go
  rw [hp]
  simp only [hs]

theorem go_of_called {n : Nat} {d : Option Decision} (h : c.members[i]? = some m)
    (hs : m.standing = .called n d) :
    ∃ p : Place c.members, p.element = m ∧ p.before.length = i ∧ c.go i = c.afterCalled p d := by
  obtain ⟨p, hp, rfl, hi⟩ := Place.exists_get? h
  refine ⟨p, rfl, hi, ?_⟩
  unfold go
  rw [hp]
  simp only [hs]

theorem go_of_resting (h : c.members[i]? = some m) (hr : m.standing ≠ .ready)
    (hc : ∀ n d, m.standing ≠ .called n d) : c.go i = c := by
  obtain ⟨p, hp, rfl, _⟩ := Place.exists_get? h
  unfold go
  rw [hp]
  dsimp only
  split
  · next hs => exact absurd hs hr
  · next n d hs => exact absurd hs (hc n d)
  · rfl

end Crowd

/-- The member when its sleep has ended. -/
def Member.awake (m : Member σ α) : Member σ α :=
  match m.standing with
  | .due _ => { m with standing := .ready }
  | _ => m

/-- The member when somebody has cancelled it. -/
def Member.cancelled (m : Member σ α) : Member σ α :=
  { m with token := { m.token with cancelled := true } }

/-! ## Traffic -/

/-- The end of a scope that is under way: the scope is off the index, and the decisions for the
contracts are still to be removed. -/
structure Ending where
  scope : ScopeId
  contracts : List ContractId

/-- Callers that look for decisions, and the ends of scopes that have begun. -/
structure Traffic (σ : Type) where
  crowd : Crowd σ (Option Decision)
  endings : List Ending

/-- What happens next. -/
inductive Choice (σ : Type) where
  | call (key : DecisionKey) (resolve : Work σ Decision)
  | go (caller : Nat)
  | wake (caller : Nat)
  | cancel (caller : Nat)
  | evict (key : DecisionKey)
  | endScope (scope : ScopeId)
  | invalidate (ending : Nat)
  | change (f : σ → σ)

/-- What a step means for the decisions. -/
inductive Occurrence (σ : Type) where
  | calls (caller : Nat) (key : DecisionKey) (resolve : Work σ Decision)
  | starts (caller : Nat) (key : DecisionKey)
  | inserts (caller : Nat) (key : DecisionKey) (d : Decision)
  | abandons (caller : Nat) (key : DecisionKey)
  | returns (caller : Nat) (result : Option Decision)
  | quiet

namespace Traffic

/-- Nobody has called, and nothing is cached. -/
def start (capacity : Nat) (state : σ) : Traffic σ where
  crowd := .gather ⟨0, .empty capacity, state⟩ []
  endings := []

/-- The decision that is cached for the key. -/
def entry (t : Traffic σ) (key : DecisionKey) : Option Decision :=
  t.crowd.session.cache.get? key

/-- The caller with the given number. -/
def caller? (t : Traffic σ) (i : Nat) : Option (Member σ (Option Decision)) :=
  t.crowd.members[i]?

def withMembers (t : Traffic σ)
    (f : List (Member σ (Option Decision)) → List (Member σ (Option Decision))) : Traffic σ :=
  { t with crowd := { t.crowd with members := f t.crowd.members } }

def withCache (t : Traffic σ) (f : DecisionCache → DecisionCache) : Traffic σ :=
  { t with crowd := { t.crowd with
      session := { t.crowd.session with cache := f t.crowd.session.cache } } }

/-- A caller that has just come. -/
def newcomer (key : DecisionKey) (resolve : Work σ Decision) : Member σ (Option Decision) where
  token := .live
  ringing := false
  program := DecisionCache.getOrResolve key resolve
  standing := .ready
  queued := 0

/-- The traffic after what happens next; what cannot happen changes nothing. -/
def next (t : Traffic σ) : Choice σ → Traffic σ
  | .call key resolve => t.withMembers (· ++ [newcomer key resolve])
  | .go i => { t with crowd := t.crowd.go i }
  | .wake i => t.withMembers (·.modify i Member.awake)
  | .cancel i => t.withMembers (·.modify i Member.cancelled)
  | .evict key => if (t.entry key).isSome then t.withCache (·.evict key) else t
  | .endScope scope =>
    { t.withCache (·.detach scope) with
      endings := t.endings ++ [⟨scope, t.crowd.session.cache.contracts scope⟩] }
  | .invalidate n =>
    match t.endings[n]? with
    | some ⟨scope, contract :: rest⟩ =>
      { t.withCache (·.invalidate ⟨contract, scope⟩) with endings := t.endings.set n ⟨scope, rest⟩ }
    | _ => t
  | .change f =>
    { t with crowd := { t.crowd with
        session := { t.crowd.session with state := f t.crowd.session.state } } }

/-- What a step of the given caller means. -/
def stepOf (t : Traffic σ) (i : Nat) (m : Member σ (Option Decision)) : Occurrence σ :=
  match m.standing, m.program with
  | .ready, .claim key _ =>
    if (t.entry key).isNone && !t.crowd.flights.contains key then .starts i key else .quiet
  | .ready, .settle key (some d) _ => .inserts i key d
  | .ready, .settle key none _ => .abandons i key
  | .ready, .done result => .returns i result
  | _, _ => .quiet

/-- What the choice means. -/
def occurrence (t : Traffic σ) : Choice σ → Occurrence σ
  | .call key resolve => .calls t.crowd.members.length key resolve
  | .go i => (t.caller? i).elim .quiet (t.stepOf i)
  | _ => .quiet

/-! ### Choices of callers -/

variable {t : Traffic σ} {i j : Nat} {m : Member σ (Option Decision)}

theorem occurrence_go (h : t.caller? i = some m) : t.occurrence (.go i) = t.stepOf i m := by
  simp only [occurrence, h, Option.elim_some]

theorem occurrence_go_of_none (h : t.caller? i = none) : t.occurrence (.go i) = .quiet := by
  simp only [occurrence, h, Option.elim_none]

theorem next_go_of_none (h : t.caller? i = none) : t.next (.go i) = t := by
  show ({ t with crowd := t.crowd.go i } : Traffic σ) = t
  rw [Crowd.go_of_none h]

theorem caller?_modify (f : Member σ (Option Decision) → Member σ (Option Decision)) :
    (t.withMembers (·.modify j f)).caller? i =
      if j = i then (t.caller? i).map f else t.caller? i := by
  show (t.crowd.members.modify j f)[i]? = _
  rw [List.getElem?_modify]
  by_cases hj : j = i
  · simp [hj, caller?]
  · simp [hj, caller?]

end Traffic

/-! ### Choices of others -/

/-- A choice that leaves the callers and their flights alone. -/
def Choice.Aside : Choice σ → Prop
  | .evict _ => True
  | .endScope _ => True
  | .invalidate _ => True
  | .change _ => True
  | _ => False

namespace Traffic

variable {t : Traffic σ} {ch : Choice σ}

theorem crowd_next_of_aside (h : ch.Aside) :
    (t.next ch).crowd.members = t.crowd.members ∧
      (t.next ch).crowd.flights = t.crowd.flights := by
  cases ch with
  | evict key =>
      rw [next]
      split
      · exact ⟨rfl, rfl⟩
      · exact ⟨rfl, rfl⟩
  | invalidate n =>
      rw [next]
      split
      · exact ⟨rfl, rfl⟩
      · exact ⟨rfl, rfl⟩
  | endScope scope => exact ⟨rfl, rfl⟩
  | change f => exact ⟨rfl, rfl⟩
  | _ => exact h.elim

theorem caller?_next_of_aside (h : ch.Aside) (i : Nat) : (t.next ch).caller? i = t.caller? i := by
  unfold caller?
  rw [(crowd_next_of_aside h).1]

theorem occurrence_of_aside (h : ch.Aside) : t.occurrence ch = .quiet := by
  cases ch with
  | call key resolve => exact h.elim
  | go i => exact h.elim
  | _ => rfl

/-- Such a choice drops the decision of a key or leaves it. -/
theorem entry_next_of_aside (h : ch.Aside) (key : DecisionKey) :
    (t.next ch).entry key = t.entry key ∨ (t.next ch).entry key = none := by
  cases ch with
  | evict key' =>
      rw [next]
      split
      · have hevict : (t.withCache (·.evict key')).entry key =
            if key = key' then none else t.entry key := DecisionCache.get?_evict _ _ _
        by_cases hk : key = key'
        · exact .inr (hevict.trans (if_pos hk))
        · exact .inl (hevict.trans (if_neg hk))
      · exact .inl rfl
  | invalidate n =>
      rw [next]
      split
      · next scope contract rest _ =>
          have hinvalidate : (t.withCache (·.invalidate ⟨contract, scope⟩)).entry key =
              if key = ⟨contract, scope⟩ then none else t.entry key :=
            DecisionCache.get?_invalidate _ _ _
          by_cases hk : key = ⟨contract, scope⟩
          · exact .inr (hinvalidate.trans (if_pos hk))
          · exact .inl (hinvalidate.trans (if_neg hk))
      · exact .inl rfl
  | endScope scope => exact .inl rfl
  | change f => exact .inl rfl
  | _ => exact h.elim

end Traffic

namespace Occurrence

/-- The caller that the occurrence is about. -/
def caller? : Occurrence σ → Option Nat
  | .calls i _ _ => some i
  | .starts i _ => some i
  | .inserts i _ _ => some i
  | .abandons i _ => some i
  | .returns i _ => some i
  | .quiet => none

theorem caller?_quiet_ne (i : Nat) : (quiet : Occurrence σ).caller? ≠ some i := by
  simp [caller?]

/-- The key for which a run of a resolver starts. -/
def started? : Occurrence σ → Option DecisionKey
  | .starts _ key => some key
  | _ => none

/-- The key for which a decision is inserted. -/
def inserted? : Occurrence σ → Option DecisionKey
  | .inserts _ key _ => some key
  | _ => none

/-- The key for which a run of a resolver is cut short. -/
def abandoned? : Occurrence σ → Option DecisionKey
  | .abandons _ key => some key
  | _ => none

/-- The key whose flight the occurrence ends. -/
def ended? : Occurrence σ → Option DecisionKey
  | .inserts _ key _ => some key
  | .abandons _ key => some key
  | _ => none

/-- The flights after the occurrence. -/
def flights : Occurrence σ → List DecisionKey → List DecisionKey
  | .starts _ key, fs => key :: fs
  | .inserts _ key _, fs => fs.filter (· != key)
  | .abandons _ key, fs => fs.filter (· != key)
  | _, fs => fs

/-- The decision of a key after the occurrence, if it is not dropped. -/
def entry : Occurrence σ → DecisionKey → Option Decision → Option Decision
  | .inserts _ key d, key', former => if key' = key then some d else former
  | _, _, former => former

/-- What the occurrence makes of a caller that waits for a decision. -/
def heard (n : Nat) : Occurrence σ → Member σ (Option Decision) → Member σ (Option Decision)
  | .inserts _ key d, m => Crowd.call key n (some d) m
  | .abandons _ key, m => Crowd.call key n none m
  | _, m => m

end Occurrence

end TrialRouting
