import TrialRouting.Proofs.Traffic.Progress

/-!
# TrialRouting.Proofs.Traffic.Orphans

Every cached decision is within reach of the end of its scope.  A decision is
cached before its key is listed, and a key is taken off the index before its
decision is removed; but at every moment somebody is there who has yet to do
the one or the other.

`Reached` names the three cases.  It is kept by each operation of the cache
(`Reached.succ`), and begins with the insertion, by the caller that inserts.
So the end of a scope removes all decisions of the scope, if nobody else looks
for one meanwhile.
-/

namespace TrialRouting.Interleaving

variable {σ : Type} {H : Interleaving σ} {a b i n : Nat} {key : DecisionKey} {d : Decision}

/-! ## Decisions within reach -/

/-- The key is listed, or a caller has its decision and has yet to track it, or an end of its scope
has yet to remove it. -/
def Reached (H : Interleaving σ) (key : DecisionKey) (d : Decision) (n : Nat) : Prop :=
  H.Listed key n ∨ (∃ i, H.YetToTrack i key d n) ∨ H.Doomed key n

/-- A decision that is left where it is stays within reach. -/
theorem Reached.succ (h : H.Reached key d n) (hevicts : H.upkeep n ≠ .evicts key)
    (hinvalidates : H.upkeep n ≠ .invalidates key) : H.Reached key d (n + 1) := by
  obtain hlisted | ⟨i, htrack⟩ | hdoomed := h
  · by_cases hdetaches : H.upkeep n = .detaches key.scope
    · exact .inr (.inr (doomed_of_detaches hdetaches hlisted))
    · exact .inl (hlisted.succ hevicts hdetaches)
  · obtain htracks | htrack := htrack.succ
    · exact .inl (listed_of_tracks htracks)
    · exact .inr (.inl ⟨i, htrack⟩)
  · exact .inr (.inr (hdoomed.succ hinvalidates))

/-- Every cached decision is within reach. -/
theorem reached_of_entry (h : H.entry key n = some d) : H.Reached key d n := by
  induction n with
  | zero => cases h
  | succ n ih =>
      obtain hupkeep | ⟨hkept, hevicts, hinvalidates⟩ := inserts_or_kept h
      · obtain ⟨i, hinserts⟩ := exists_inserts_of_upkeep hupkeep
        exact .inr (.inl ⟨i, yetToTrack_of_inserts hinserts⟩)
      · exact (ih hkept).succ hevicts hinvalidates

/-! ## The end of a scope -/

/-- **No orphans.**  In every interleaving a cached decision is listed under its scope, or a call in
progress has obtained it and has yet to track it, or an end of its scope that is under way has yet to
remove it.  So the end of a scope leaves no decision of the scope, if no call for the scope is in
progress from its beginning until it is done. -/
theorem no_orphans (H : Interleaving σ) :
    (∀ key d n, H.entry key n = some d →
      H.Listed key n ∨ (∃ i, H.InProgress i key n ∧ H.YetToTrack i key d n) ∨ H.Doomed key n) ∧
    ∀ scope a b, H.choices a = .endScope scope → a < b →
      (∀ i key k, key.scope = scope → a ≤ k → k ≤ b → ¬ H.InProgress i key k) →
      ¬ H.Ending scope b → ∀ key, key.scope = scope → H.entry key b = none := by
  have hreached : ∀ key d n, H.entry key n = some d →
      H.Listed key n ∨ (∃ i, H.InProgress i key n ∧ H.YetToTrack i key d n) ∨ H.Doomed key n := by
    intro key d n hentry
    obtain hlisted | ⟨i, htrack⟩ | hdoomed := reached_of_entry hentry
    · exact .inl hlisted
    · exact .inr (.inl ⟨i, htrack.inProgress, htrack⟩)
    · exact .inr (.inr hdoomed)
  refine ⟨hreached, ?_⟩
  rintro scope a b hend hab hnobody hdone key rfl
  cases hentry : H.entry key b with
  | none => rfl
  | some d =>
      obtain hlisted | ⟨i, hprogress, _⟩ | hdoomed := hreached key d b hentry
      · -- the scope was taken out of the index, so the key has been tracked since
        obtain ⟨k, hak, hkb, htracks, -⟩ :=
          exists_last_tracks (not_listed_of_unlists (.inr hend)) hab hlisted
        obtain ⟨i, _, -, htrack⟩ := exists_yetToTrack_of_tracks htracks
        exact absurd htrack.inProgress
          (hnobody i key k rfl (Nat.le_of_succ_le hak) (Nat.le_of_lt hkb))
      · exact absurd hprogress (hnobody i key b rfl (Nat.le_of_lt hab) (Nat.le_refl b))
      · exact absurd hdoomed.ending hdone

end TrialRouting.Interleaving
