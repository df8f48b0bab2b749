import TrialRouting.Proofs.Plain

/-!
# TrialRouting.Proofs.Unfolding

What a program may do when it is not alone.  Others may change the state
between any two of its steps, cancel it at any moment, and keep or drop
decisions as they like, so every step of a program that asks for something may
get any answer.  `p.Unfolds h a` says that `p` comes to its end with `a` in one
such way; the history `h` lists its steps with the answers.  What holds of all
unfoldings holds whatever the others do.

* `unfolds_bind` — an unfolding of two programs in sequence is one of each;
* `unfolds_history` — a run of a program that has the session for itself is one
  of its unfoldings;
* `forall_mem_notes` — what is noted satisfies what all notes of the program do.
-/

namespace TrialRouting

variable {σ α β : Type}

/-! ## Histories -/

/-- A step of a program, with the answer that it got. -/
inductive Step (σ : Type) where
  | noted (n : Note)
  | acted (update : σ → σ) (found : σ)
  | slept (ms : Nat)
  | asked (cancelled : Bool)
  | cancelled
  | claimed (key : DecisionKey) (answer : Claim)
  | settled (key : DecisionKey) (d : Option Decision)
  | tracked (key : DecisionKey)

namespace Step

def note? : Step σ → Option Note
  | .noted n => some n
  | _ => none

def found? : Step σ → Option σ
  | .acted _ s => some s
  | _ => none

/-- The step is no part of the sharing of decisions. -/
def Apart : Step σ → Prop
  | .claimed _ _ => False
  | .settled _ _ => False
  | .tracked _ => False
  | _ => True

end Step

/-- The steps of a program in their order. -/
abbrev History (σ : Type) := List (Step σ)

namespace History

/-- What was noted. -/
def notes (h : History σ) : List Note :=
  h.filterMap Step.note?

/-- The states that were found. -/
def found (h : History σ) : List σ :=
  h.filterMap Step.found?

@[simp] theorem notes_nil : notes ([] : History σ) = [] := rfl

@[simp] theorem notes_append (h h' : History σ) : notes (h ++ h') = notes h ++ notes h' :=
  List.filterMap_append

@[simp] theorem notes_noted (n : Note) (h : History σ) :
    notes (.noted n :: h) = n :: notes h := rfl

@[simp] theorem notes_acted (u : σ → σ) (s : σ) (h : History σ) :
    notes (.acted u s :: h) = notes h := rfl

@[simp] theorem notes_asked (c : Bool) (h : History σ) : notes (.asked c :: h) = notes h := rfl

@[simp] theorem notes_map_noted (ns : List Note) :
    notes (ns.map Step.noted : History σ) = ns := by
  unfold notes
  rw [List.filterMap_map]
  exact List.filterMap_some

theorem mem_notes_iff {h : History σ} {n : Note} : n ∈ notes h ↔ .noted n ∈ h := by
  unfold notes
  rw [List.mem_filterMap]
  constructor
  · rintro ⟨step, hstep, hn⟩
    cases step with
    | noted n' =>
        cases hn
        exact hstep
    | _ => cases hn
  · intro hn
    exact ⟨_, hn, rfl⟩

theorem mem_found {h : History σ} {u : σ → σ} {s : σ} (hs : .acted u s ∈ h) : s ∈ found h :=
  List.mem_filterMap.mpr ⟨_, hs, rfl⟩

theorem ne_of_attempts_eq_nil {h : History σ} (hnone : attempts h.notes = [])
    (earlier after : History σ) (key : TrialKey) (number : Nat) :
    h ≠ earlier ++ .noted (.attempting key number) :: after := by
  rintro rfl
  simp at hnone

/-- An attempt that begins after steps without attempts begins in the rest of the history. -/
theorem exists_split {h h' earlier after : History σ} {key : TrialKey} {number : Nat}
    (hnone : attempts h.notes = [])
    (hsplit : h ++ h' = earlier ++ .noted (.attempting key number) :: after) :
    ∃ rest, earlier = h ++ rest ∧ h' = rest ++ .noted (.attempting key number) :: after := by
  obtain ⟨rest, hearlier, hrest⟩ | ⟨rest, hh, hrest⟩ := List.append_eq_append_iff.mp hsplit
  · exact ⟨rest, hearlier, hrest⟩
  · cases rest with
    | nil => exact ⟨[], by simpa using hh.symm, by simpa using hrest.symm⟩
    | cons first rest =>
        obtain ⟨rfl, _⟩ := List.cons.inj hrest
        exact absurd hh (ne_of_attempts_eq_nil hnone earlier rest key number)

/-- An attempt that begins before steps without attempts begins in the first part. -/
theorem exists_split_left {h h' earlier after : History σ} {key : TrialKey} {number : Nat}
    (hnone : attempts h'.notes = [])
    (hsplit : h ++ h' = earlier ++ .noted (.attempting key number) :: after) :
    ∃ rest, h = earlier ++ .noted (.attempting key number) :: rest ∧ after = rest ++ h' := by
  obtain ⟨rest, _, hrest⟩ | ⟨rest, hh, hrest⟩ := List.append_eq_append_iff.mp hsplit
  · exact absurd hrest (ne_of_attempts_eq_nil hnone rest after key number)
  · cases rest with
    | nil => exact absurd hrest.symm (ne_of_attempts_eq_nil hnone [] after key number)
    | cons first rest =>
        obtain ⟨rfl, hafter⟩ := List.cons.inj hrest
        exact ⟨rest, hh, hafter⟩

end History

namespace Program

/-! ## Unfoldings -/

/-- `p.Unfolds h a`: the program may come to its end with `a`, by the steps of `h`. -/
inductive Unfolds : Program σ α → History σ → α → Prop where
  | done (a : α) : Unfolds (.done a) [] a
  | note (n : Note) {p : Program σ α} {h : History σ} {a : α} :
    Unfolds p h a → Unfolds (.note n p) (.noted n :: h) a
  | act (u : σ → σ) {k : σ → Program σ α} (s : σ) {h : History σ} {a : α} :
    Unfolds (k s) h a → Unfolds (.act u k) (.acted u s :: h) a
  | sleep (ms : Nat) {p : Program σ α} {h : History σ} {a : α} :
    Unfolds p h a → Unfolds (.sleep ms p) (.slept ms :: h) a
  | cancelled {k : Bool → Program σ α} (c : Bool) {h : History σ} {a : α} :
    Unfolds (k c) h a → Unfolds (.cancelled k) (.asked c :: h) a
  | cancel {p : Program σ α} {h : History σ} {a : α} :
    Unfolds p h a → Unfolds (.cancel p) (.cancelled :: h) a
  | claim (key : DecisionKey) {k : Claim → Program σ α} (c : Claim) {h : History σ} {a : α} :
    Unfolds (k c) h a → Unfolds (.claim key k) (.claimed key c :: h) a
  | settle (key : DecisionKey) (d : Option Decision) {p : Program σ α} {h : History σ} {a : α} :
    Unfolds p h a → Unfolds (.settle key d p) (.settled key d :: h) a
  | track (key : DecisionKey) {p : Program σ α} {h : History σ} {a : α} :
    Unfolds p h a → Unfolds (.track key p) (.tracked key :: h) a

variable {p : Program σ α} {f g : α → Program σ β} {h h₁ h₂ : History σ} {a : α} {b : β}

theorem Unfolds.bind (hp : p.Unfolds h₁ a) (hf : (f a).Unfolds h₂ b) :
    (p.bind f).Unfolds (h₁ ++ h₂) b := by
  induction hp with
  | done a => exact hf
  | note n _ ih => exact .note n (ih hf)
  | act u s _ ih => exact .act u s (ih hf)
  | sleep ms _ ih => exact .sleep ms (ih hf)
  | cancelled c _ ih => exact .cancelled c (ih hf)
  | cancel _ ih => exact .cancel (ih hf)
  | claim key c _ ih => exact .claim key c (ih hf)
  | settle key d _ ih => exact .settle key d (ih hf)
  | track key _ ih => exact .track key (ih hf)

theorem Unfolds.map (m : α → β) (hp : p.Unfolds h a) :
    (p.bind fun a => .done (m a)).Unfolds h (m a) := by
  rw [← List.append_nil h]
  exact hp.bind (.done _)

/-- First one program unfolds, then what follows it. -/
theorem unfolds_bind (hb : (p.bind f).Unfolds h b) :
    ∃ a h₁ h₂, h = h₁ ++ h₂ ∧ p.Unfolds h₁ a ∧ (f a).Unfolds h₂ b := by
  induction p generalizing h with
  | done a => exact ⟨a, [], h, rfl, .done a, hb⟩
  | note n p ih =>
      cases hb with
      | note _ hb =>
          obtain ⟨a, h₁, h₂, rfl, hp, hf⟩ := ih hb
          exact ⟨a, _, h₂, rfl, .note n hp, hf⟩
  | act u k ih =>
      cases hb with
      | act _ s hb =>
          obtain ⟨a, h₁, h₂, rfl, hp, hf⟩ := ih s hb
          exact ⟨a, _, h₂, rfl, .act u s hp, hf⟩
  | sleep ms p ih =>
      cases hb with
      | sleep _ hb =>
          obtain ⟨a, h₁, h₂, rfl, hp, hf⟩ := ih hb
          exact ⟨a, _, h₂, rfl, .sleep ms hp, hf⟩
  | cancelled k ih =>
      cases hb with
      | cancelled c hb =>
          obtain ⟨a, h₁, h₂, rfl, hp, hf⟩ := ih c hb
          exact ⟨a, _, h₂, rfl, .cancelled c hp, hf⟩
  | cancel p ih =>
      cases hb with
      | cancel hb =>
          obtain ⟨a, h₁, h₂, rfl, hp, hf⟩ := ih hb
          exact ⟨a, _, h₂, rfl, .cancel hp, hf⟩
  | claim key k ih =>
      cases hb with
      | claim _ c hb =>
          obtain ⟨a, h₁, h₂, rfl, hp, hf⟩ := ih c hb
          exact ⟨a, _, h₂, rfl, .claim key c hp, hf⟩
  | settle key d p ih =>
      cases hb with
      | settle _ _ hb =>
          obtain ⟨a, h₁, h₂, rfl, hp, hf⟩ := ih hb
          exact ⟨a, _, h₂, rfl, .settle key d hp, hf⟩
  | track key p ih =>
      cases hb with
      | track _ hb =>
          obtain ⟨a, h₁, h₂, rfl, hp, hf⟩ := ih hb
          exact ⟨a, _, h₂, rfl, .track key hp, hf⟩

/-- What follows a program may be changed for values that it never ends with. -/
theorem bind_congr (hfg : ∀ h a, p.Unfolds h a → f a = g a) : p.bind f = p.bind g := by
  induction p with
  | done a => exact hfg [] a (.done a)
  | note n p ih => exact congrArg (Program.note n) (ih fun h a hp => hfg _ a (.note n hp))
  | act u k ih =>
      exact congrArg (Program.act u) (funext fun s => ih s fun h a hp => hfg _ a (.act u s hp))
  | sleep ms p ih => exact congrArg (Program.sleep ms) (ih fun h a hp => hfg _ a (.sleep ms hp))
  | cancelled k ih =>
      exact congrArg Program.cancelled
        (funext fun c => ih c fun h a hp => hfg _ a (.cancelled c hp))
  | cancel p ih => exact congrArg Program.cancel (ih fun h a hp => hfg _ a (.cancel hp))
  | claim key k ih =>
      exact congrArg (Program.claim key)
        (funext fun c => ih c fun h a hp => hfg _ a (.claim key c hp))
  | settle key d p ih =>
      exact congrArg (Program.settle key d) (ih fun h a hp => hfg _ a (.settle key d hp))
  | track key p ih => exact congrArg (Program.track key) (ih fun h a hp => hfg _ a (.track key hp))

theorem unfolds_done_iff {a' : α} : (done a : Program σ α).Unfolds h a' ↔ h = [] ∧ a = a' := by
  constructor
  · rintro ⟨⟩
    exact ⟨rfl, rfl⟩
  · rintro ⟨rfl, rfl⟩
    exact .done a

theorem unfolds_view {f : σ → α} (hv : (view f).Unfolds h a) :
    ∃ s, h = [.acted id s] ∧ a = f s := by
  cases hv with
  | act _ s hv =>
      cases hv
      exact ⟨s, rfl, rfl⟩

theorem unfolds_tellAll {ns : List Note} {u : Unit} (ht : (tellAll ns).Unfolds h u) :
    h = ns.map Step.noted := by
  induction ns generalizing h with
  | nil =>
      cases ht
      rfl
  | cons n ns ih =>
      cases ht with
      | note _ ht => rw [ih ht, List.map_cons]

/-! ## Runs as unfoldings -/

/-- The steps of a run that has the session for itself. -/
def history : Program σ α → Token → Session σ → History σ
  | .done _, _, _ => []
  | .note n p, t, s => .noted n :: history p t s
  | .act u k, t, s => .acted u s.state :: history (k s.state) t { s with state := u s.state }
  | .sleep ms p, t, s =>
    .slept ms :: history p (t.sleep s.clock ms).1 { s with clock := (t.sleep s.clock ms).2 }
  | .cancelled k, t, s => .asked t.cancelled :: history (k t.cancelled) t s
  | .cancel p, t, s => .cancelled :: history p { t with cancelled := true } s
  | .claim key k, t, s =>
    match s.cache.get? key with
    | some d => .claimed key (.hit d) :: history (k (.hit d)) t s
    | none => .claimed key .won :: history (k .won) t s
  | .settle key (some d) p, t, s =>
    .settled key (some d) :: history p t { s with cache := s.cache.insert key d }
  | .settle key none p, t, s => .settled key none :: history p t s
  | .track key p, t, s => .tracked key :: history p t { s with cache := s.cache.track key }

/-- **A run is an unfolding**: nobody interferes with it. -/
theorem unfolds_history (p : Program σ α) (t : Token) (s : Session σ) :
    p.Unfolds (p.history t s) (p.run t s).value := by
  induction p generalizing t s with
  | done a => exact .done a
  | note n p ih => exact .note n (ih t s)
  | act u k ih => exact .act u s.state (ih s.state t _)
  | sleep ms p ih => exact .sleep ms (ih _ _)
  | cancelled k ih => exact .cancelled t.cancelled (ih t.cancelled t s)
  | cancel p ih => exact .cancel (ih _ s)
  | claim key k ih =>
      simp only [history, run]
      cases s.cache.get? key with
      | none => exact .claim key .won (ih .won t s)
      | some d => exact .claim key (.hit d) (ih (.hit d) t s)
  | settle key d p ih =>
      cases d with
      | none => exact .settle key none (ih t s)
      | some d => exact .settle key (some d) (ih t _)
  | track key p ih => exact .track key (ih t _)

theorem notes_history (p : Program σ α) (t : Token) (s : Session σ) :
    (p.history t s).notes = (p.run t s).notes := by
  induction p generalizing t s with
  | done a => rfl
  | note n p ih => exact congrArg (n :: ·) (ih t s)
  | act u k ih => exact ih s.state t _
  | sleep ms p ih => exact ih _ _
  | cancelled k ih => exact ih t.cancelled t s
  | cancel p ih => exact ih _ s
  | claim key k ih =>
      simp only [history, run]
      cases s.cache.get? key with
      | none => exact ih .won t s
      | some d => exact ih (.hit d) t s
  | settle key d p ih =>
      cases d with
      | none => exact ih t s
      | some d => exact ih t _
  | track key p ih => exact ih t _

/-! ## What is noted -/

/-- Each note of the program satisfies `P`. -/
def NotesOnly (P : Note → Prop) : Program σ α → Prop
  | .done _ => True
  | .note n p => P n ∧ p.NotesOnly P
  | .act _ k => ∀ s, (k s).NotesOnly P
  | .sleep _ p => p.NotesOnly P
  | .cancelled k => ∀ c, (k c).NotesOnly P
  | .cancel p => p.NotesOnly P
  | .claim _ k => ∀ c, (k c).NotesOnly P
  | .settle _ _ p => p.NotesOnly P
  | .track _ p => p.NotesOnly P

theorem Plain.notesOnly {P : Note → Prop} (hp : p.Plain P) : p.NotesOnly P := by
  induction p with
  | done a => trivial
  | note n p ih => exact ⟨hp.1, ih hp.2⟩
  | act u k ih => exact fun s => ih s (hp s)
  | sleep ms p ih => exact ih hp
  | cancelled k ih => exact fun c => ih c (hp c)
  | cancel p ih => exact ih hp
  | claim key k _ => exact hp.elim
  | settle key d p _ => exact hp.elim
  | track key p _ => exact hp.elim

theorem notesOnly_bind {P : Note → Prop} (hp : p.NotesOnly P) (hf : ∀ a, (f a).NotesOnly P) :
    (p.bind f).NotesOnly P := by
  induction p with
  | done a => exact hf a
  | note n p ih => exact ⟨hp.1, ih hp.2⟩
  | act u k ih => exact fun s => ih s (hp s)
  | sleep ms p ih => exact ih hp
  | cancelled k ih => exact fun c => ih c (hp c)
  | cancel p ih => exact ih hp
  | claim key k ih => exact fun c => ih c (hp c)
  | settle key d p ih => exact ih hp
  | track key p ih => exact ih hp

/-- What an unfolding notes satisfies what the notes of the program satisfy. -/
theorem forall_mem_notes {P : Note → Prop} (hp : p.NotesOnly P) (hu : p.Unfolds h a) :
    ∀ n ∈ h.notes, P n := by
  induction hu with
  | done a => simp
  | note n _ ih => exact List.forall_mem_cons.mpr ⟨hp.1, ih hp.2⟩
  | act u s _ ih => exact ih (hp s)
  | sleep ms _ ih => exact ih hp
  | cancelled c _ ih => exact ih (hp c)
  | cancel _ ih => exact ih hp
  | claim key c _ ih => exact ih (hp c)
  | settle key d _ ih => exact ih hp
  | track key _ ih => exact ih hp

/-- A plain program takes no part in the sharing of decisions. -/
theorem apart_of_plain {P : Note → Prop} (hp : p.Plain P) (hu : p.Unfolds h a) :
    ∀ step ∈ h, step.Apart := by
  induction hu with
  | done a => simp
  | note n _ ih => exact List.forall_mem_cons.mpr ⟨trivial, ih hp.2⟩
  | act u s _ ih => exact List.forall_mem_cons.mpr ⟨trivial, ih (hp s)⟩
  | sleep ms _ ih => exact List.forall_mem_cons.mpr ⟨trivial, ih hp⟩
  | cancelled c _ ih => exact List.forall_mem_cons.mpr ⟨trivial, ih (hp c)⟩
  | cancel _ ih => exact List.forall_mem_cons.mpr ⟨trivial, ih hp⟩
  | claim key c _ _ => exact hp.elim
  | settle key d _ _ => exact hp.elim
  | track key _ _ => exact hp.elim

end Program

end TrialRouting
