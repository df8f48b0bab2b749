import TrialRouting.Proofs.Traffic.Progress

/-!
# TrialRouting.Proofs.Traffic.Survivors

Decisions that outlive the end of their scope.  The end of a scope removes what
the index lists, and a key is listed only after its decision was inserted; so it
misses the decisions of callers that have yet to track them.

`survives_iff` says which decisions of a scope are cached when its end is done
and nobody has called for the scope since: those that callers inserted which
were in progress when the end began, and had by then yet to insert or to track
them.  There are such decisions (`straggler`).
-/

namespace TrialRouting.Interleaving

variable {σ : Type} {H : Interleaving σ} {a i l m n : Nat} {key : DecisionKey} {d : Decision}

/-! ## Entries that are kept -/

/-- An entry has stayed as it is since it was inserted last. -/
theorem exists_last_insertion (h : H.entry key n = some d) :
    ∃ i m, m < n ∧ H.event m = .inserts i key d ∧
      ∀ k, m < k → k ≤ n → H.entry key k = some d := by
  induction n with
  | zero => cases h
  | succ n ih =>
      obtain hinserts | ⟨hkept, -, -⟩ := inserts_or_kept h
      · obtain ⟨i, hinserts⟩ := exists_inserts_of_upkeep hinserts
        refine ⟨i, n, Nat.lt_succ_self n, hinserts, fun k hk hk' => ?_⟩
        obtain rfl : k = n + 1 := by omega
        exact h
      · obtain ⟨i, m, hmn, hinserts, hsince⟩ := ih hkept
        refine ⟨i, m, Nat.lt_succ_of_lt hmn, hinserts, fun k hk hk' => ?_⟩
        obtain rfl | hlt := Nat.eq_or_lt_of_le hk'
        · exact h
        · exact hsince k hk (Nat.le_of_lt_succ hlt)

/-- A decision that stays is neither dropped nor removed. -/
theorem upkeep_of_entry_succ (h : H.entry key (n + 1) = some d) :
    H.upkeep n ≠ .evicts key ∧ H.upkeep n ≠ .invalidates key := by
  obtain hinserts | ⟨-, hne⟩ := inserts_or_kept h
  · exact ⟨by simp [hinserts], by simp [hinserts]⟩
  · exact hne

/-- A doomed key stays doomed while its decision stays. -/
theorem doomed_of_le {b : Nat} (h : H.Doomed key a) (hab : a ≤ b)
    (hkept : ∀ k, a ≤ k → k ≤ b → H.entry key k = some d) : H.Doomed key b := by
  induction hab with
  | refl => exact h
  | @step b hle ih =>
      have hb := hkept (b + 1) (Nat.le_succ_of_le hle) (Nat.le_refl _)
      exact (ih fun k hk hk' => hkept k hk (Nat.le_succ_of_le hk')).succ (upkeep_of_entry_succ hb).2

/-- A listed key stays listed or becomes doomed while its decision stays. -/
theorem listed_or_doomed_of_le {b : Nat} (h : H.Listed key a) (hab : a ≤ b)
    (hkept : ∀ k, a ≤ k → k ≤ b → H.entry key k = some d) :
    H.Listed key b ∨ H.Doomed key b := by
  induction hab with
  | refl => exact .inl h
  | @step b hle ih =>
      have hb := hkept (b + 1) (Nat.le_succ_of_le hle) (Nat.le_refl _)
      obtain ⟨hevicts, hinvalidates⟩ := upkeep_of_entry_succ hb
      obtain hlisted | hdoomed := ih fun k hk hk' => hkept k hk (Nat.le_succ_of_le hk')
      · by_cases hdetaches : H.upkeep b = .detaches key.scope
        · exact .inr (doomed_of_detaches hdetaches hlisted)
        · exact .inl (hlisted.succ hevicts hdetaches)
      · exact .inr (hdoomed.succ hinvalidates)

/-- A caller that has a decision has tracked it, or has yet to do so. -/
theorem YetToTrack.tracked_or {b : Nat} (h : H.YetToTrack i key d a) (hab : a ≤ b) :
    (∃ k, a ≤ k ∧ k < b ∧ H.upkeep k = .tracks key) ∨ H.YetToTrack i key d b := by
  induction hab with
  | refl => exact .inr h
  | @step b hle ih =>
      obtain ⟨k, hak, hkb, htracks⟩ | htrack := ih
      · exact .inl ⟨k, hak, Nat.lt_succ_of_lt hkb, htracks⟩
      · obtain htracks | htrack := htrack.succ
        · exact .inl ⟨b, hle, Nat.lt_succ_self b, htracks⟩
        · exact .inr htrack

/-! ## The end of a scope -/

/-- What is cached and listed when the end of its scope begins does not outlive that end. -/
theorem ending_of_listed (hend : H.choices a = .endScope key.scope) (han : a < n)
    (hlisted : H.Listed key a) (hkept : ∀ k, a ≤ k → k ≤ n → H.entry key k = some d) :
    H.Ending key.scope n := by
  have hdoomed : H.Doomed key (a + 1) := doomed_of_detaches (upkeep_of_endScope hend) hlisted
  exact (doomed_of_le hdoomed han fun k hk hk' => hkept k (Nat.le_of_succ_le hk) hk').ending

/-- A call that is in progress, but has not begun since, was in progress before. -/
theorem InProgress.of_le (h : H.InProgress i key m) (ham : a ≤ m)
    (hnew : ∀ resolve k, a ≤ k → k < m → H.event k ≠ .calls i key resolve) :
    H.InProgress i key a := by
  obtain ⟨l, resolve, hlm, hcalls, hopen⟩ := h
  have hla : l < a := Nat.lt_of_not_le fun hal => hnew resolve l hal hlm hcalls
  exact ⟨l, resolve, hla, hcalls, fun k hk => hopen k (Nat.lt_of_lt_of_le hk ham)⟩

/-- **What outlives the end of a scope.**  The end of the scope of a key begins at moment `a`. At
moment `n` no end of the scope is under way, and since `a` nobody has called for a key of it. Then a
decision is cached just if it was inserted and not removed since, by a caller whose call was in
progress at `a` and which had by then yet to insert it, or to track it. -/
theorem survives_iff (hend : H.choices a = .endScope key.scope) (han : a < n)
    (hdone : ¬ H.Ending key.scope n)
    (hnew : ∀ i key' resolve k, key'.scope = key.scope → a ≤ k → k < n →
      H.event k ≠ .calls i key' resolve) :
    H.entry key n = some d ↔
      ∃ i m, m < n ∧ H.event m = .inserts i key d ∧ H.InProgress i key a ∧
        (a ≤ m ∨ H.YetToTrack i key d a) ∧ ∀ k, m < k → k < n → ¬ H.Removes key k := by
  constructor
  · intro hentry
    obtain ⟨i, m, hmn, hinserts, hkept⟩ := exists_last_insertion hentry
    have hstays : ∀ k, m < k → k < n → ¬ H.Removes key k := by
      rintro k hk hkn ⟨-, hnone⟩
      rw [hkept (k + 1) (Nat.lt_succ_of_lt hk) hkn] at hnone
      cases hnone
    refine ⟨i, m, hmn, hinserts, ?_⟩
    obtain hma | ham := Nat.lt_or_ge m a
    · obtain ⟨k, hmk, hka, htracks⟩ | htrack := (yetToTrack_of_inserts hinserts).tracked_or hma
      · have hlisted := listed_or_doomed_of_le (listed_of_tracks htracks) hka
          fun k' hk' hk'' => hkept k' (by omega) (by omega)
        have hfrom : ∀ k, a ≤ k → k ≤ n → H.entry key k = some d :=
          fun k' hk' hk'' => hkept k' (Nat.lt_of_lt_of_le hma hk') hk''
        obtain hlisted | hdoomed := hlisted
        · exact absurd (ending_of_listed hend han hlisted hfrom) hdone
        · exact absurd (doomed_of_le hdoomed (Nat.le_of_lt han) hfrom).ending hdone
      · exact ⟨htrack.inProgress, .inr htrack, hstays⟩
    · have hprogress : H.InProgress i key a :=
        (inProgress_of_inserts hinserts).of_le ham fun resolve k hk hkm =>
          hnew i key resolve k rfl hk (Nat.lt_trans hkm hmn)
      exact ⟨hprogress, .inl ham, hstays⟩
  · rintro ⟨i, m, hmn, hinserts, -, -, hstays⟩
    exact entry_of_no_removal (entry_succ_of_inserts hinserts) hmn fun k hk hkn => hstays k hk hkn

/-! ## An end that comes too early -/

/-- The scope ends while the resolver of a caller is about to run. -/
def straggler : Interleaving Unit where
  capacity := 4
  state := ()
  choices n :=
    ([.call doorKey (.done wideDoor), .go 0, .go 0, .go 0, .endScope doorKey.scope, .go 0, .go 0,
      .go 0, .go 0] : List (Choice Unit)).getD n (.go 0)

/-- **A decision outlives the end of its scope.**  The scope has ended, nobody has called since, and
all calls have returned; and there is a decision of the scope. -/
theorem straggler_survives :
    straggler.choices 4 = .endScope doorKey.scope ∧
      (∀ k, 4 ≤ k → k < 9 → ∀ i key resolve, straggler.event k ≠ .calls i key resolve) ∧
      (∀ i key, ¬ straggler.InProgress i key 9) ∧ (∀ scope, ¬ straggler.Ending scope 9) ∧
      straggler.entry doorKey 9 = some wideDoor := by
  have hidle : straggler.idle 9 = true := rfl
  have hnew : ∀ k < 9, 4 ≤ k → (straggler.event k matches .calls _ _ _) = false := by decide
  obtain ⟨hcallers, hendings⟩ := nobody_of_idle hidle
  refine ⟨rfl, fun k hk hk' i key resolve hcalls => ?_, hcallers, hendings, rfl⟩
  have hfalse := hnew k hk' hk
  rw [hcalls] at hfalse
  cases hfalse

end TrialRouting.Interleaving
