import TrialRouting.Proofs.Traffic
import TrialRouting.Proofs.Unfolding

/-!
# TrialRouting.Proofs.Unfolding.Crowd

The members of a crowd follow unfoldings of their programs.  Whatever the
members do to each other, each of them only ever takes steps of its own
program with some answers, so what holds of all unfoldings of a program holds of
every member that runs it.

`Crowd.Told` keeps, for each place, the history of the member there: the
history leads from the program with which the member came to what is left of it
(`Program.Leads`), it has the notes of that place but for the retries of the
crowd, and every decision that it finds was there at the beginning or has been
settled by some member (`Crowd.Known`).  It is kept by each move, so it holds
when the crowd has come to its end (`Crowd.exists_histories`).
-/

namespace TrialRouting

variable {σ α : Type}

namespace Program

/-- The steps lead from `p` to `q`: whatever `q` may do, `p` may do after them. -/
def Leads (p : Program σ α) (h : History σ) (q : Program σ α) : Prop :=
  ∀ h' a, q.Unfolds h' a → p.Unfolds (h ++ h') a

variable {p q q' : Program σ α} {h : History σ} {a : α}

theorem leads_refl (p : Program σ α) : p.Leads [] p := fun _ _ hu => hu

/-- A step leads from `p` to `q`. -/
def Takes (p : Program σ α) (step : Step σ) (q : Program σ α) : Prop :=
  ∀ h a, q.Unfolds h a → p.Unfolds (step :: h) a

theorem Leads.step {step : Step σ} (hl : p.Leads h q) (hstep : q.Takes step q') :
    p.Leads (h ++ [step]) q' := by
  intro h' a hu
  rw [List.append_assoc]
  exact hl (step :: h') a (hstep h' a hu)

theorem Leads.unfolds (hl : p.Leads h (.done a)) : p.Unfolds h a := by
  simpa using hl [] a (.done a)

end Program

/-! ## Notes of members -/

/-- The crowd notes for a member that it goes back to its claim. -/
def Note.isRetry : Note → Bool
  | .remark (.event (.selectionRetried _ _)) => true
  | _ => false

/-- Notes of programs, without the retries. -/
def withoutRetries (ns : List Note) : List Note :=
  ns.filter fun n => !n.isRetry

theorem withoutRetries_append (ns ms : List Note) :
    withoutRetries (ns ++ ms) = withoutRetries ns ++ withoutRetries ms :=
  List.filter_append ns ms

theorem filterMap_withoutRetries {β : Type} {f : Note → Option β}
    (hf : ∀ n, n.isRetry = true → f n = none) (ns : List Note) :
    (withoutRetries ns).filterMap f = ns.filterMap f := by
  induction ns with
  | nil => rfl
  | cons n ns ih =>
      unfold withoutRetries at ih ⊢
      cases hn : n.isRetry with
      | true => rw [List.filter_cons_of_neg (by simp [hn]), ih, List.filterMap_cons_none (hf n hn)]
      | false =>
          rw [List.filter_cons_of_pos (by simp [hn]), List.filterMap_cons, List.filterMap_cons, ih]

theorem attempts_withoutRetries (ns : List Note) : attempts (withoutRetries ns) = attempts ns := by
  refine filterMap_withoutRetries (fun n hn => ?_) ns
  cases n with
  | attempting key number => cases hn
  | _ => rfl

theorem reports_withoutRetries (ns : List Note) : reports (withoutRetries ns) = reports ns := by
  refine filterMap_withoutRetries (fun n hn => ?_) ns
  cases n with
  | telemetry call => cases hn
  | _ => rfl

namespace Crowd

/-- The notes of the member at the place, the oldest first. -/
def notesOf (c : Crowd σ α) (i : Nat) : List Note :=
  ((c.notes.filter (·.1 == i)).map (·.2)).reverse

theorem notesOf_eq {c c' : Crowd σ α} {i : Nat} {ns : List Note}
    (hnotes : c'.notes = (ns.map (Prod.mk i)).reverse ++ c.notes) (j : Nat) :
    c'.notesOf j = c.notesOf j ++ if j = i then ns else [] := by
  unfold notesOf
  rw [hnotes, List.filter_append, List.map_append, List.reverse_append]
  congr 1
  by_cases hj : j = i
  · subst hj
    simp [List.filter_reverse, List.filter_map, Function.comp_def]
  · have hij : (i == j) = false := by simpa using fun h => hj h.symm
    simp [List.filter_reverse, List.filter_map, Function.comp_def, hj, hij]

/-! ## Histories of members -/

/-- The decision was kept at the beginning, or a member has settled it. -/
def Known (s : Session σ) (past : Nat → History σ) (key : DecisionKey) (d : Decision) : Prop :=
  s.cache.get? key = some d ∨ ∃ i, .settled key (some d) ∈ past i

/-- The histories after some more steps at one place. -/
def extend (past : Nat → History σ) (i : Nat) (steps : History σ) (j : Nat) : History σ :=
  past j ++ if j = i then steps else []

theorem Known.extend {s : Session σ} {past : Nat → History σ} {key : DecisionKey} {d : Decision}
    (hd : Known s past key d) (i : Nat) (steps : History σ) :
    Known s (extend past i steps) key d :=
  hd.imp_right fun ⟨j, hj⟩ => ⟨j, List.mem_append_left _ hj⟩

theorem known_extend {s : Session σ} {past : Nat → History σ} {key : DecisionKey} {d : Decision}
    {i : Nat} {steps : History σ} (hd : .settled key (some d) ∈ steps) :
    Known s (extend past i steps) key d :=
  .inr ⟨i, List.mem_append_right _ (by simpa using hd)⟩

/-- The member follows the history of its program, and waits for nothing but the answer to its
claim. -/
structure Follows (known : DecisionKey → Decision → Prop) (p : Program σ α) (m : Member σ α)
    (h : History σ) : Prop where
  leads : p.Leads h m.program
  hits : ∀ key d, .claimed key (.hit d) ∈ h → known key d
  waiting : ∀ key, m.standing = .waiting key → ∃ k, m.program = .claim key k
  called : ∀ n d, m.standing = .called n (some d) →
    ∃ key k, m.program = .claim key k ∧ known key d

variable {known known' : DecisionKey → Decision → Prop} {p : Program σ α}
  {m m' : Member σ α} {h : History σ}

theorem Follows.mono (hf : Follows known p m h) (hknown : ∀ key d, known key d → known' key d) :
    Follows known' p m h where
  leads := hf.leads
  hits key d hd := hknown key d (hf.hits key d hd)
  waiting := hf.waiting
  called n d hd := by
    obtain ⟨key, k, hprogram, hkey⟩ := hf.called n d hd
    exact ⟨key, k, hprogram, hknown key d hkey⟩

/-! ## Members that step and members that do not -/

/-- A member that does not step may stop waiting, or be called with a known decision. -/
structure Stays (known : DecisionKey → Decision → Prop) (m m' : Member σ α) : Prop where
  program : m'.program = m.program
  waiting : ∀ key, m'.standing = .waiting key → m.standing = .waiting key
  called : ∀ n d, m'.standing = .called n (some d) → m.standing = .called n (some d) ∨
    ∃ key, m.standing = .waiting key ∧ known key d

theorem Follows.stays (hf : Follows known p m h) (hs : Stays known m m') :
    Follows known p m' h where
  leads := hs.program ▸ hf.leads
  hits := hf.hits
  waiting key hkey := hs.program ▸ hf.waiting key (hs.waiting key hkey)
  called n d hd := by
    rw [hs.program]
    obtain hcalled | ⟨key, hwaiting, hkey⟩ := hs.called n d hd
    · exact hf.called n d hcalled
    · obtain ⟨k, hprogram⟩ := hf.waiting key hwaiting
      exact ⟨key, k, hprogram, hkey⟩

/-- A member that takes a step of its program. -/
theorem Follows.step {step : Step σ} (hf : Follows known p m h)
    (hstep : m.program.Takes step m'.program)
    (hhit : ∀ key d, step = .claimed key (.hit d) → known key d)
    (hready : m'.standing = .ready) : Follows known p m' (h ++ [step]) where
  leads := hf.leads.step hstep
  hits key d hd := by
    obtain hold | hnew := List.mem_append.mp hd
    · exact hf.hits key d hold
    · exact hhit key d (List.mem_singleton.mp hnew).symm
  waiting key hkey := absurd (hready.symm.trans hkey) nofun
  called n d hd := absurd (hready.symm.trans hd) nofun

/-- A member that begins to wait for the answer to its claim. -/
theorem Follows.wait {key : DecisionKey} {k : Claim → Program σ α} (hf : Follows known p m h)
    (hprogram : m.program = .claim key k) (number : Nat) :
    Follows known p { m with standing := .waiting key, queued := number } h where
  leads := hf.leads
  hits := hf.hits
  waiting key' hkey := by
    cases hkey
    exact ⟨k, hprogram⟩
  called _ _ := nofun

theorem Stays.trans {m'' : Member σ α} (h₁ : Stays known m m') (h₂ : Stays known m' m'') :
    Stays known m m'' where
  program := h₂.program.trans h₁.program
  waiting key hkey := h₁.waiting key (h₂.waiting key hkey)
  called n d hd := by
    obtain hcalled | ⟨key, hwaiting, hkey⟩ := h₂.called n d hd
    · exact h₁.called n d hcalled
    · exact .inr ⟨key, h₁.waiting key hwaiting, hkey⟩

/-- It may do anything but wait for an answer or have one. -/
theorem stays_of_free (hprogram : m'.program = m.program)
    (hwaiting : ∀ key, m'.standing ≠ .waiting key)
    (hcalled : ∀ n d, m'.standing ≠ .called n (some d)) : Stays known m m' where
  program := hprogram
  waiting key hkey := absurd hkey (hwaiting key)
  called n d hd := absurd hd (hcalled n d)

theorem stays_of_standing (hprogram : m'.program = m.program)
    (hstanding : m'.standing = m.standing ∨ m'.standing = .ready) : Stays known m m' where
  program := hprogram
  waiting key hkey := by
    obtain hsame | hready := hstanding
    · exact hsame ▸ hkey
    · exact absurd (hready.symm.trans hkey) nofun
  called n d hd := by
    obtain hsame | hready := hstanding
    · exact .inl (hsame ▸ hd)
    · exact absurd (hready.symm.trans hd) nofun

theorem stays_refl (m : Member σ α) : Stays known m m :=
  stays_of_standing rfl (.inl rfl)

theorem stays_arouse (time : Nat) (m : Member σ α) : Stays known m (m.arouse time) := by
  refine stays_of_standing (Member.program_arouse time m) ?_
  have hring : (m.arouse time).standing = (m.wake time).standing := by
    unfold Member.arouse Member.ring
    split
    · split <;> rfl
    · rfl
  rw [hring]
  unfold Member.wake
  split
  · split
    · exact .inr rfl
    · exact .inl rfl
  · exact .inl rfl

theorem stays_rest (m : Member σ α) : Stays known m m.rest := by
  refine stays_of_standing rfl ?_
  unfold Member.rest
  dsimp only
  split
  · next time hs =>
      split
      · exact .inr rfl
      · exact .inl hs.symm
  · exact .inl rfl

theorem stays_call {key : DecisionKey} {n : Nat} {d : Option Decision}
    (hd : ∀ kept, d = some kept → known key kept) (m : Member σ α) :
    Stays known m (call key n d m) where
  program := program_call key n d m
  waiting key' hkey := by
    unfold call at hkey
    split at hkey
    · cases hkey
    · exact hkey
  called n' kept hkept := by
    unfold call at hkept
    split at hkept
    · next hawaits =>
        cases hkept
        exact .inr ⟨key, by simpa [Member.awaits] using hawaits, hd kept rfl⟩
    · exact .inl hkept

/-! ## What moves of a crowd tell -/

theorem Place.getElem?_before {β : Type} {l : List β} (p : Place l) :
    l[p.before.length]? = some p.element := by
  obtain ⟨before, x, after, rfl⟩ := p
  simp

/-- The crowd has come to where it is by the histories of its members. -/
structure Told (s : Session σ) (programs : List (Program σ α)) (c : Crowd σ α)
    (past : Nat → History σ) : Prop where
  length : c.members.length = programs.length
  follows : ∀ i m, c.members[i]? = some m →
    ∃ p, programs[i]? = some p ∧ Follows (Known s past) p m (past i)
  absent : ∀ i, programs[i]? = none → past i = []
  kept : ∀ key d, c.session.cache.get? key = some d → Known s past key d
  notes : ∀ i, withoutRetries (c.notesOf i) = withoutRetries (past i).notes

variable {s : Session σ} {programs : List (Program σ α)} {c c' : Crowd σ α}
  {past : Nat → History σ} {pl : Place c.members}

/-- Nobody has stepped. -/
theorem Told.calm {f : Member σ α → Member σ α} (ht : Told s programs c past)
    (hf : ∀ m, Stays (Known s past) m (f m)) (hmembers : c'.members = c.members.map f)
    (hcache : c'.session.cache = c.session.cache) (hnotes : c'.notes = c.notes) :
    Told s programs c' past where
  length := by rw [hmembers, List.length_map, ht.length]
  follows i m' hm' := by
    rw [hmembers, List.getElem?_map] at hm'
    obtain ⟨m, hm, rfl⟩ := Option.map_eq_some_iff.mp hm'
    obtain ⟨p, hp, hfollows⟩ := ht.follows i m hm
    exact ⟨p, hp, hfollows.stays (hf m)⟩
  absent := ht.absent
  kept := hcache ▸ ht.kept
  notes i := by
    unfold notesOf
    rw [hnotes]
    exact ht.notes i

/-- One member has gone on. -/
theorem Told.move {steps : History σ} {ns : List Note} (ht : Told s programs c past)
    (hmembers : c'.members = pl.before ++ m' :: pl.after)
    (hfollows : ∀ p, Follows (Known s past) p pl.element (past pl.before.length) →
      Follows (Known s past) p m' (past pl.before.length ++ steps))
    (hkept : ∀ key d, c'.session.cache.get? key = some d →
      c.session.cache.get? key = some d ∨ .settled key (some d) ∈ steps)
    (hnotes : c'.notes = (ns.map (Prod.mk pl.before.length)).reverse ++ c.notes)
    (hns : withoutRetries ns = withoutRetries (History.notes steps)) :
    Told s programs c' (extend past pl.before.length steps) where
  length := by rw [hmembers, Place.replace_eq_set, List.length_set, ht.length]
  follows i m hm := by
    rw [hmembers, Place.replace_eq_set, List.getElem?_set] at hm
    split at hm
    · next hi =>
        subst hi
        split at hm
        · cases hm
          obtain ⟨p, hp, hold⟩ := ht.follows _ _ pl.getElem?_before
          have hnew := (hfollows p hold).mono fun key d hd => hd.extend pl.before.length steps
          exact ⟨p, hp, by simpa [extend] using hnew⟩
        · cases hm
    · next hi =>
        obtain ⟨p, hp, hold⟩ := ht.follows i m hm
        have hi : i ≠ pl.before.length := fun h => hi h.symm
        have hnew := hold.mono fun key d hd => hd.extend pl.before.length steps
        exact ⟨p, hp, by simpa [extend, hi] using hnew⟩
  absent i hi := by
    obtain ⟨p, hp, -⟩ := ht.follows _ _ pl.getElem?_before
    have hne : i ≠ pl.before.length := by
      rintro rfl
      cases hi.symm.trans hp
    simp [extend, hne, ht.absent i hi]
  kept key d hd := by
    obtain hold | hsettled := hkept key d hd
    · exact (ht.kept key d hold).extend _ steps
    · exact known_extend hsettled
  notes i := by
    rw [notesOf_eq hnotes i, withoutRetries_append, ht.notes i]
    unfold extend
    rw [History.notes_append, withoutRetries_append]
    split
    · rw [hns]
    · rfl

/-- One member has taken a step of its program. -/
theorem Told.step {step : Step σ} {m'' : Member σ α} (ht : Told s programs c past)
    (hmembers : c'.members = pl.before ++ m'' :: pl.after)
    (hstays : Stays (Known s past) m' m'') (hready : m'.standing = .ready)
    (hstep : pl.element.program.Takes step m'.program)
    (hhit : ∀ key d, step = .claimed key (.hit d) → Known s past key d)
    (hkept : ∀ key d, c'.session.cache.get? key = some d →
      c.session.cache.get? key = some d ∨ step = .settled key (some d))
    (hnotes : c'.notes = (step.note?.toList.map (Prod.mk pl.before.length)).reverse ++ c.notes) :
    Told s programs c' (extend past pl.before.length [step]) := by
  refine ht.move hmembers (fun p hf => (hf.step hstep hhit hready).stays hstays) ?_ hnotes ?_
  · exact fun key d hd => (hkept key d hd).imp_right fun h => by simp [h]
  · cases step <;> rfl

/-- One member has taken a step that neither finds a decision nor keeps one. -/
theorem Told.pass {step : Step σ} {m'' : Member σ α} (ht : Told s programs c past)
    (hmembers : c'.members = pl.before ++ m'' :: pl.after)
    (hstays : Stays (Known s past) m' m'') (hready : m'.standing = .ready)
    (hstep : pl.element.program.Takes step m'.program)
    (hhit : ∀ key d, step ≠ .claimed key (.hit d))
    (hcache : c'.session.cache = c.session.cache)
    (hnotes : c'.notes = (step.note?.toList.map (Prod.mk pl.before.length)).reverse ++ c.notes) :
    ∃ past', Told s programs c' past' :=
  ⟨_, ht.step hmembers hstays hready hstep (fun key d h => absurd h (hhit key d))
    (fun _ _ h => .inl (hcache ▸ h)) hnotes⟩

/-- One member has changed its standing only. -/
theorem Told.still (ht : Told s programs c past)
    (hmembers : c'.members = pl.before ++ m' :: pl.after)
    (hfollows : ∀ p h, Follows (Known s past) p pl.element h → Follows (Known s past) p m' h)
    (hcache : c'.session.cache = c.session.cache)
    (hnotes : ∃ ns, c'.notes = (ns.map (Prod.mk pl.before.length)).reverse ++ c.notes ∧
      withoutRetries ns = []) :
    ∃ past', Told s programs c' past' := by
  obtain ⟨ns, hnotes, hns⟩ := hnotes
  refine ⟨extend past pl.before.length [], ht.move hmembers (fun p hf => ?_) ?_ hnotes hns⟩
  · rw [List.append_nil]
    exact hfollows p _ hf
  · exact fun key d hd => .inl (hcache ▸ hd)

/-- A member that is ready takes a step, begins to wait, or finishes. -/
theorem Told.afterReady (ht : Told s programs c past) (hr : pl.element.standing = .ready) :
    ∃ past', Told s programs (c.afterReady pl) past' := by
  unfold Crowd.afterReady
  dsimp only
  split
  · refine ht.still rfl (fun p h hf => hf.stays ?_) rfl ⟨[], rfl, rfl⟩
    exact stays_of_free rfl (fun _ => nofun) (fun _ _ => nofun)
  · next n q hprogram =>
      have hstep : pl.element.program.Takes (.noted n) q := fun h a hu => hprogram ▸ .note n hu
      exact ht.pass rfl (stays_refl _) hr hstep (fun _ _ => nofun) rfl rfl
  · next u k hprogram =>
      have hstep : pl.element.program.Takes (.acted u c.session.state) (k c.session.state) :=
        fun h a hu => hprogram ▸ .act u _ hu
      exact ht.pass rfl (stays_refl _) hr hstep (fun _ _ => nofun) rfl rfl
  · next ms q hprogram =>
      have hstep : pl.element.program.Takes (.slept ms) q := fun h a hu => hprogram ▸ .sleep ms hu
      let asleep : Member σ α :=
        { pl.element with program := q, standing := .due (c.session.clock + ms) }
      have hasleep : Stays (Known s past) { pl.element with program := q } asleep :=
        stays_of_free rfl (fun _ => nofun) (fun _ _ => nofun)
      exact ht.pass rfl (hasleep.trans (stays_rest asleep)) hr hstep (fun _ _ => nofun) rfl rfl
  · next k hprogram =>
      have hstep (c : Bool) : pl.element.program.Takes (.asked c) (k c) :=
        fun h a hu => hprogram ▸ .cancelled c hu
      exact ht.pass rfl (stays_refl _) hr (hstep _) (fun _ _ => nofun) rfl rfl
  · next q hprogram =>
      have hstep : pl.element.program.Takes .cancelled q := fun h a hu => hprogram ▸ .cancel hu
      exact ht.pass rfl (stays_refl _) hr hstep (fun _ _ => nofun) rfl rfl
  · next key k hprogram =>
      have hstep (answer : Claim) : pl.element.program.Takes (.claimed key answer) (k answer) :=
        fun h a hu => hprogram ▸ .claim key answer hu
      split
      · next d hfound =>
          refine ⟨_, ht.step rfl (stays_refl _) hr (hstep (.hit d)) ?_ (fun _ _ => .inl) rfl⟩
          intro key' d' h
          cases h
          exact ht.kept key d hfound
      · split
        · refine ht.still rfl (fun p h hf => ?_) rfl ⟨[], rfl, rfl⟩
          exact (hf.wait hprogram c.drawn).stays (stays_rest _)
        · exact ht.pass rfl (stays_refl _) hr (hstep .won) (fun _ _ => nofun) rfl rfl
  · next key d q hprogram =>
      have hstep : pl.element.program.Takes (.settled key d) q :=
        fun h a hu => hprogram ▸ .settle key d hu
      -- the member settles, and then those that queued for the key are called
      let stepped : Crowd σ α := { c.withMember pl { pl.element with program := q } with
        session := { c.session with
          cache := (d.map (c.session.cache.insert key)).getD c.session.cache } }
      have hstepped : Told s programs stepped (extend past pl.before.length [.settled key d]) := by
        refine ht.step rfl (stays_refl _) hr hstep (fun _ _ => nofun) (fun key' d' h => ?_) rfl
        obtain hold | ⟨rfl, rfl⟩ := DecisionCache.get?_settle h
        · exact .inl hold
        · exact .inr rfl
      refine ⟨_, hstepped.calm (stays_call ?_) rfl rfl rfl⟩
      intro kept hkept
      cases hkept
      exact known_extend List.mem_cons_self
  · next key q hprogram =>
      have hstep : pl.element.program.Takes (.tracked key) q :=
        fun h a hu => hprogram ▸ .track key hu
      exact ⟨_, ht.step rfl (stays_refl _) hr hstep (fun _ _ => nofun)
        (fun key' d h => .inl (DecisionCache.get?_track _ key key' ▸ h)) rfl⟩

/-- A member that is called has its answer, or goes back to its claim. -/
theorem Told.afterCalled {n : Nat} {d : Option Decision} (ht : Told s programs c past)
    (hc : pl.element.standing = .called n d) :
    ∃ past', Told s programs (c.afterCalled pl d) past' := by
  have hready : Stays (Known s past) pl.element { pl.element with standing := .ready } :=
    stays_of_standing rfl (.inr rfl)
  unfold Crowd.afterCalled
  dsimp only
  split
  · next key k hprogram =>
      have hstep (answer : Claim) : pl.element.program.Takes (.claimed key answer) (k answer) :=
        fun h a hu => hprogram ▸ .claim key answer hu
      split
      · next d =>
          refine ⟨_, ht.step rfl (stays_refl _) rfl (hstep (.hit d)) ?_ (fun _ _ => .inl) rfl⟩
          intro key' d' h
          cases h
          obtain ⟨p, -, hf⟩ := ht.follows _ _ pl.getElem?_before
          obtain ⟨key', k', hprogram', hkey⟩ := hf.called n d hc
          cases hprogram.symm.trans hprogram'
          exact hkey
      · split
        · exact ht.pass rfl (stays_refl _) rfl (hstep .abandoned) (fun _ _ => nofun) rfl rfl
        · exact ht.still rfl (fun p h hf => hf.stays hready) rfl ⟨[_], rfl, rfl⟩
  · exact ht.still rfl (fun p h hf => hf.stays hready) rfl ⟨[], rfl, rfl⟩

/-- **One move** of a crowd is a step of one of its members, or of none. -/
theorem Told.next (ht : Told s programs c past) {move : Move c} (hmove : c.step = some move) :
    ∃ past', Told s programs move.1 past' := by
  have halarm (pl : Place c.members) (h : pl.element.ringing = true) :
      ∃ past', Told s programs (c.stepAlarm pl h).1 past' :=
    ht.still rfl (fun p h hf => hf.stays (stays_rest _)) rfl ⟨[], rfl, rfl⟩
  unfold Crowd.step at hmove
  split at hmove
  · next pl h hnext =>
      split at hmove
      · next hs =>
          cases hmove
          exact ht.afterReady hs
      · next n d hs =>
          split at hmove
          · cases hmove
            exact ht.afterCalled hs
          · cases hmove
            exact halarm pl _
      · cases hmove
        exact halarm pl _
      · cases hmove
        exact halarm pl _
      · cases hmove
        exact halarm pl _
  · split at hmove
    · cases hmove
    · next time htime =>
        cases hmove
        exact ⟨past, ht.calm (stays_arouse time) rfl rfl rfl⟩

/-! ## Whole runs -/

theorem told_gather (s : Session σ) (entrants : List (Entrant σ α)) :
    Told s (entrants.map Entrant.program) (gather s entrants) fun _ => [] where
  length := by simp [gather]
  follows i m hm := by
    have hm : (entrants.map (Entrant.member s.clock))[i]? = some m := hm
    rw [List.getElem?_map] at hm
    obtain ⟨e, he, rfl⟩ := Option.map_eq_some_iff.mp hm
    refine ⟨e.program, by rw [List.getElem?_map, he]; rfl, ?_⟩
    exact ⟨Program.leads_refl _, fun _ _ => nofun, fun _ => nofun, fun _ _ => nofun⟩
  absent _ _ := rfl
  kept _ _ hkept := .inl hkept
  notes _ := rfl

theorem Told.run (ht : Told s programs c past) : ∃ past', Told s programs c.run past' := by
  induction c using Crowd.run.induct generalizing past with
  | case1 c hend =>
      rw [Crowd.run, hend]
      exact ⟨past, ht⟩
  | case2 c move hmove ih =>
      rw [Crowd.run, hmove]
      obtain ⟨past', ht'⟩ := ht.next hmove
      exact ih ht'

/-- Nothing is noted where there is no member. -/
theorem notesOf_run_of_absent (s : Session σ) (entrants : List (Entrant σ α)) {i : Nat}
    (hi : entrants.length ≤ i) : withoutRetries ((gather s entrants).run.notesOf i) = [] := by
  obtain ⟨past, ht⟩ := (told_gather s entrants).run
  rw [ht.notes, ht.absent i (List.getElem?_eq_none (by simpa using hi))]
  rfl

/-- **The members of a crowd unfold their programs.**  When nothing will ever happen again, each
member has gone through a history of its program, to the end if it has come to one.  It has noted
what the history says, but for the retries, and each decision that it has found was kept at the
beginning or settled by a member. -/
theorem exists_histories (s : Session σ) (entrants : List (Entrant σ α)) :
    ∃ past : Nat → History σ, ∀ i e, entrants[i]? = some e →
      ∃ m, (gather s entrants).run.members[i]? = some m ∧
        (∃ rest a, e.program.Unfolds (past i ++ rest) a) ∧
        (∀ a time, m.result? = some (a, time) → e.program.Unfolds (past i) a) ∧
        withoutRetries ((gather s entrants).run.notesOf i) = withoutRetries (past i).notes ∧
        ∀ key d, .claimed key (.hit d) ∈ past i → s.cache.get? key = some d ∨
          ∃ j e', entrants[j]? = some e' ∧ .settled key (some d) ∈ past j := by
  obtain ⟨past, ht⟩ := (told_gather s entrants).run
  refine ⟨past, fun i e he => ?_⟩
  have hlength := ht.length
  obtain ⟨hi, -⟩ := List.getElem?_eq_some_iff.mp he
  rw [List.length_map] at hlength
  obtain ⟨m, hm⟩ : ∃ m, (gather s entrants).run.members[i]? = some m :=
    ⟨_, List.getElem?_eq_getElem (hlength ▸ hi)⟩
  obtain ⟨p, hp, hfollows⟩ := ht.follows i m hm
  rw [List.getElem?_map, he] at hp
  cases hp
  refine ⟨m, hm, ?_, ?_, ht.notes i, ?_⟩
  · exact ⟨_, _, hfollows.leads _ _ (Program.unfolds_history m.program .live s)⟩
  · intro a time hresult
    have hdone : m.program = .done a := by
      unfold Member.result? at hresult
      split at hresult
      · next hprogram =>
          cases hresult
          exact hprogram
      · cases hresult
    exact (hdone ▸ hfollows.leads).unfolds
  · intro key d hd
    refine (hfollows.hits key d hd).imp_right fun ⟨j, hj⟩ => ?_
    cases he' : entrants[j]? with
    | none =>
        rw [ht.absent j (by rw [List.getElem?_map, he']; rfl)] at hj
        cases hj
    | some e' => exact ⟨j, e', he', hj⟩

end Crowd

end TrialRouting
