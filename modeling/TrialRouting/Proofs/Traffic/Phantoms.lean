import TrialRouting.Proofs.Traffic.Cancellation

/-!
# TrialRouting.Proofs.Traffic.Phantoms

Keys that are listed but have no decision.  A caller tracks its key some time
after it has obtained the decision, and nobody looks whether the decision is
still there.  So a key is listed in vain if the decision is taken away in
between, by an eviction or by the end of its scope; and also if the end of its
scope has taken the scope out of the index before, and comes to the decision only
after the key has been listed again.  Such a key stays on the index until a
decision is inserted for it, or its scope ends once more.

* `phantom_iff_trackedLate` — there is no other way to a phantom;
* `phantoms_counted` — the main theorem: the index is larger than the cache, and
  larger than the cache is to be, by no more than the keys tracked late.

The caller of `latecomer` leaves a phantom behind.
-/

namespace TrialRouting.Interleaving

open DecisionCache

variable {σ : Type} {H : Interleaving σ} {a b g i n r t : Nat} {key : DecisionKey} {d : Decision}
  {resolve : Work σ Decision}

/-! ## Phantoms and late callers -/

/-- The key is listed and has no decision. -/
def Phantom (H : Interleaving σ) (key : DecisionKey) (n : Nat) : Prop :=
  H.Listed key n ∧ H.entry key n = none

/-- The caller tracks the key at the moment. -/
def Tracks (H : Interleaving σ) (i : Nat) (key : DecisionKey) (n : Nat) : Prop :=
  H.choices n = .go i ∧ H.upkeep n = .tracks key

/-- The decision of the key is gone at moment `r`, by a removal that began at moment `b`: the cache
drops the decision there and then, or an end of the scope, which found the key on the index at `b`,
comes to it. -/
def TakesAway (H : Interleaving σ) (key : DecisionKey) (b r : Nat) : Prop :=
  H.Removes key r ∧
    (H.upkeep r = .evicts key ∧ b = r ∨
      H.upkeep r = .invalidates key ∧ b < r ∧ H.choices b = .endScope key.scope ∧ H.Listed key b)

/-- The caller obtains the decision of the key at moment `g` and tracks the key at moment `t`, too
late: the removal that takes the decision away at moment `r` has begun, at moment `b`. -/
structure TracksLate (H : Interleaving σ) (key : DecisionKey) (i g b r t : Nat) : Prop where
  obtains : ∃ resolve d, H.Obtains i key resolve d g
  tracks : H.Tracks i key t
  takesAway : H.TakesAway key b r
  before : g < r ∧ g < t
  late : b < t

/-- A caller has tracked the key late. Since the removal nobody has inserted a decision, and since it
was tracked the key has not been taken off the index. -/
def TrackedLate (H : Interleaving σ) (key : DecisionKey) (n : Nat) : Prop :=
  ∃ i g b r t, H.TracksLate key i g b r t ∧ r < n ∧ t < n ∧
    (∀ k, r < k → k < n → ∀ j d, H.event k ≠ .inserts j key d) ∧
    ∀ k, t < k → k < n → ¬ H.Unlists key k

/-! ## How a caller comes to track a key -/

/-- A choice that is no caller's leaves every caller where it is. -/
theorem not_aside_of_moved {key' : DecisionKey} {resolve' : Work σ Decision} {pos pos' : Position σ}
    (h : H.IsAt i key resolve n pos) (h' : H.IsAt i key' resolve' (n + 1) pos')
    (hmoved : pos.program key resolve ≠ pos'.program key' resolve') : ¬ (H.choices n).Aside := by
  intro haside
  obtain ⟨m, hm, hs⟩ := h
  obtain ⟨m', hm', hs'⟩ := h'
  have hsame : (H.traffic (n + 1)).caller? i = (H.traffic n).caller? i :=
    Traffic.caller?_next_of_aside haside i
  obtain rfl : m' = m := Option.some.inj (hm'.symm.trans (hsame.trans hm))
  exact hmoved (hs.program.symm.trans hs'.program)

/-- No caller removes a decision. -/
theorem aside_of_removes (h : H.Removes key n) : (H.choices n).Aside := by
  obtain ⟨d, hd⟩ := Option.isSome_iff_exists.1 h.1
  obtain hevicts | hinvalidates := evicts_or_invalidates hd h.2
  · obtain ⟨hchoice, -⟩ := Traffic.allows_of_upkeep hevicts
    rw [hchoice]
    trivial
  · obtain ⟨e, hchoice⟩ := Traffic.allows_of_upkeep hinvalidates
    rw [hchoice]
    trivial

/-- A decision that has just been obtained is cached. -/
theorem Obtains.entry_succ (h : H.Obtains i key resolve d n) : H.entry key (n + 1) = some d := by
  obtain hown | ⟨-, j, hother⟩ | ⟨hasking, htracking, hentry⟩ := h
  · exact entry_succ_of_inserts hown
  · exact entry_succ_of_inserts hother
  · refine entry_succ_of_some hentry fun hremoves => ?_
    exact not_aside_of_moved hasking htracking nofun (aside_of_removes hremoves)

/-- Whoever tracks a key has obtained its decision before. -/
theorem exists_obtains_of_tracks (h : H.upkeep t = .tracks key) :
    ∃ i g resolve d, g < t ∧ H.Tracks i key t ∧ H.Obtains i key resolve d g := by
  obtain ⟨i, d, hgo, htrack⟩ := exists_yetToTrack_of_tracks h
  obtain ⟨l, resolve, pos, hl, hcourse, hpos⟩ := htrack.exists_course
  have hnot : ¬ (pos (l + 1)).Has d := by
    rw [hcourse.enters]
    exact id
  have hhas : (pos t).Has d := by
    rw [hpos]
    rfl
  obtain ⟨g, -, hgt, hobtains⟩ := hcourse.exists_obtains (Nat.lt_succ_self l) hl hnot hhas
  exact ⟨i, g, resolve, d, hgt, ⟨hgo, h⟩, hobtains⟩

/-! ## How its decision is taken away -/

/-- A decision that is gone has been removed, and none has been cached since. -/
theorem exists_last_removal (hab : a ≤ b) (hsome : H.entry key a = some d)
    (hnone : H.entry key b = none) : ∃ r, a ≤ r ∧ r < b ∧ H.Removes key r ∧
      ∀ k, r < k → k ≤ b → H.entry key k = none := by
  induction hab with
  | refl =>
      rw [hsome] at hnone
      cases hnone
  | @step b hle ih =>
      cases hentry : H.entry key b with
      | none =>
          obtain ⟨r, har, hrb, hremoves, hsince⟩ := ih hentry
          refine ⟨r, har, Nat.lt_succ_of_lt hrb, hremoves, fun k hk hk' => ?_⟩
          obtain rfl | hlt := Nat.eq_or_lt_of_le hk'
          · exact hnone
          · exact hsince k hk (Nat.le_of_lt_succ hlt)
      | some e =>
          refine ⟨b, hle, Nat.lt_succ_self b, ⟨Option.isSome_of_eq_some hentry, hnone⟩, ?_⟩
          intro k hk hk'
          obtain rfl : k = b + 1 := Nat.le_antisymm hk' hk
          exact hnone

/-- A decision is taken away at once, or by an end of its scope that began before. -/
theorem Removes.exists_takesAway (h : H.Removes key r) : ∃ b ≤ r, H.TakesAway key b r := by
  obtain ⟨d, hd⟩ := Option.isSome_iff_exists.1 h.1
  obtain hevicts | hinvalidates := evicts_or_invalidates hd h.2
  · exact ⟨r, Nat.le_refl r, h, .inl ⟨hevicts, rfl⟩⟩
  · obtain ⟨b, hbr, hend, hlisted⟩ := exists_endScope_of_invalidates hinvalidates
    exact ⟨b, Nat.le_of_lt hbr, h, .inr ⟨hinvalidates, hbr, hend, hlisted⟩⟩

/-- A removal that leaves a key on the index, though it was tracked, has begun before. -/
theorem TakesAway.lt_of_kept (h : H.TakesAway key b r) (hbr : b ≤ r) (hrn : r < n)
    (htracks : H.upkeep t = .tracks key) (hkept : ∀ k, t < k → k < n → ¬ H.Unlists key k) :
    b < t := by
  refine Nat.lt_of_not_le fun htb => ?_
  obtain ⟨-, ⟨hevicts, rfl⟩ | ⟨-, -, hend, -⟩⟩ := h
  · obtain rfl | hlt := Nat.eq_or_lt_of_le htb
    · cases htracks.symm.trans hevicts
    · exact hkept b hlt hrn (.inl hevicts)
  · obtain rfl | hlt := Nat.eq_or_lt_of_le htb
    · cases htracks.symm.trans (upkeep_of_endScope hend)
    · exact hkept b hlt (Nat.lt_of_le_of_lt hbr hrn) (.inr hend)

/-! ## The phantoms -/

/-- A key that was tracked late, and has been left so since, is listed and has no decision. -/
theorem TrackedLate.phantom (h : H.TrackedLate key n) : H.Phantom key n := by
  obtain ⟨i, g, b, r, t, hlate, hrn, htn, hvacant, hkept⟩ := h
  constructor
  · exact (listed_of_tracks hlate.tracks.2).of_le htn hkept
  · cases hentry : H.entry key n with
    | none => rfl
    | some d =>
        obtain ⟨j, k, hk, hkn, hinserts⟩ :=
          exists_inserts_between hrn hlate.takesAway.1.2 hentry
        exact absurd hinserts (hvacant k hk hkn j d)

/-- **The phantoms are the keys that were tracked late.** -/
theorem phantom_iff_trackedLate : H.Phantom key n ↔ H.TrackedLate key n := by
  refine ⟨fun hphantom => ?_, TrackedLate.phantom⟩
  obtain ⟨hlisted, hnone⟩ := hphantom
  obtain ⟨t, -, htn, htracks, hkept⟩ :=
    exists_last_tracks (H.not_listed_zero key) (Nat.zero_le n) hlisted
  obtain ⟨i, g, resolve, d, hgt, htracksBy, hobtains⟩ := exists_obtains_of_tracks htracks
  obtain ⟨r, hgr, hrn, hremoves, hvacant⟩ :=
    exists_last_removal (Nat.le_trans hgt (Nat.le_of_lt htn)) hobtains.entry_succ hnone
  obtain ⟨b, hbr, htakesAway⟩ := hremoves.exists_takesAway
  have hlate : b < t := htakesAway.lt_of_kept hbr hrn htracks hkept
  refine ⟨i, g, b, r, t, ⟨⟨resolve, d, hobtains⟩, htracksBy, htakesAway, ⟨hgr, hgt⟩, hlate⟩,
    hrn, htn, fun k hk hkn j e hinserts => ?_, hkept⟩
  have hsome := entry_succ_of_inserts hinserts
  rw [hvacant (k + 1) (Nat.lt_succ_of_lt hk) hkn] at hsome
  cases hsome

/-- **Phantoms and the size of the index.**  In every interleaving, at every moment, the phantoms of
the index are the keys that were tracked late and have been left so since: every other listed key has
a decision.  By no more than the number of these keys do the listed scopes exceed the scopes with a
decision, and the listed keys the decisions; and when maintenance is done, the one and the other what
the cache is to hold. -/
theorem phantoms_counted (H : Interleaving σ) (n : Nat) :
    (∀ key, H.Listed key n ∧ H.entry key n = none ↔ H.TrackedLate key n) ∧
    (∀ key, key ∈ (H.cache n).phantoms ↔ H.TrackedLate key n) ∧
    (H.cache n).scopeCount ≤ (H.cache n).openScopes.length + (H.cache n).phantoms.length ∧
    (H.cache n).listing.length ≤ (H.cache n).entryCount + (H.cache n).phantoms.length ∧
    (H.cache n).maintain.scopeCount ≤ H.capacity + (H.cache n).phantoms.length ∧
    (H.cache n).maintain.listing.length ≤ H.capacity + (H.cache n).phantoms.length := by
  have htidy := H.tidy n
  have hphantoms : (H.cache n).maintain.phantoms.length ≤ (H.cache n).phantoms.length :=
    length_phantoms_maintain_le htidy
  have hentries : (H.cache n).maintain.entryCount ≤ H.capacity :=
    H.capacity_cache n ▸ entryCount_maintain_le (H.cache n)
  refine ⟨fun key => phantom_iff_trackedLate,
    fun key => htidy.mem_phantoms.trans phantom_iff_trackedLate,
    scopeCount_le htidy, length_listing_le htidy, ?_, ?_⟩
  · calc (H.cache n).maintain.scopeCount
        ≤ (H.cache n).maintain.openScopes.length + (H.cache n).maintain.phantoms.length :=
          scopeCount_le htidy.maintain
      _ ≤ (H.cache n).maintain.entryCount + (H.cache n).maintain.phantoms.length :=
          Nat.add_le_add_right (length_openScopes_le _) _
      _ ≤ H.capacity + (H.cache n).phantoms.length := Nat.add_le_add hentries hphantoms
  · calc (H.cache n).maintain.listing.length
        ≤ (H.cache n).maintain.entryCount + (H.cache n).maintain.phantoms.length :=
          length_listing_le htidy.maintain
      _ ≤ H.capacity + (H.cache n).phantoms.length := Nat.add_le_add hentries hphantoms

/-- A cache for one decision. Two callers for two keys of one scope come and go, one after the
other. -/
def crowded : Interleaving Unit where
  capacity := 1
  state := ()
  choices n :=
    ([.call doorKey (.done wideDoor), .go 0, .go 0, .go 0, .go 0, .go 0, .go 0, .go 0,
      .call ⟨⟨"gate"⟩, doorKey.scope⟩ (.done wideDoor), .go 1, .go 1, .go 1, .go 1, .go 1, .go 1,
      .go 1] : List (Choice Unit)).getD n (.go 0)

/-- Until maintenance is done the cache may hold too many decisions, and the index lists them all. -/
example : crowded.capacity < (crowded.cache 16).listing.length ∧ (crowded.cache 16).phantoms = [] := by
  decide

/-! ## A caller that tracks late -/

/-- The second of two callers finds the decision of the first one. Before it tracks the key the scope
ends. -/
def latecomer : Interleaving Unit where
  capacity := 4
  state := ()
  choices n :=
    ([.call doorKey (.done wideDoor), .go 0, .go 0, .go 0, .go 0, .go 0, .go 0, .go 0,
      .call doorKey (.done wideDoor), .go 1, .go 1, .endScope doorKey.scope, .invalidate 0,
      .go 1, .go 1] : List (Choice Unit)).getD n (.go 0)

/-- **A phantom that stays.**  All calls have returned and the end of the scope is done.  The key of
the second caller is listed, no decision is cached, and maintenance does not mend it. -/
theorem latecomer_leaves_phantom :
    (∀ i key, ¬ latecomer.InProgress i key 15) ∧ (∀ scope, ¬ latecomer.Ending scope 15) ∧
      latecomer.Listed doorKey 15 ∧ latecomer.entry doorKey 15 = none ∧
      (latecomer.cache 15).openScopes.length < (latecomer.cache 15).scopeCount ∧
      (latecomer.cache 15).maintain = latecomer.cache 15 := by
  have hidle : latecomer.idle 15 = true := rfl
  obtain ⟨hcallers, hendings⟩ := nobody_of_idle hidle
  have hlisted : latecomer.Listed doorKey 15 := by
    show doorKey.contract ∈ (latecomer.cache 15).contracts doorKey.scope
    exact List.mem_cons_self
  exact ⟨hcallers, hendings, hlisted, rfl, by decide, rfl⟩

end TrialRouting.Interleaving
