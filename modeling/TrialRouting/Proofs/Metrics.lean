import Mathlib.Algebra.BigOperators.Fin
import TrialRouting.Proofs.Plain
import TrialRouting.Proofs.Register
import TrialRouting.Telemetry.Ledger

/-!
# TrialRouting.Proofs.Metrics

What the metrics show.  A meter is a metric as an operator sees it, a name with
labels; the table of a run has one row for each meter that moved (`nodup_tally`),
with the number of times that it did (`readings_eq_countP`).

A sink takes the reports of several invocations as they come.  It keeps what it
knows of each invocation apart, so the metrics that it moves are those of the
invocations one by one, however their reports are mixed (`countP_follow`).
-/

namespace TrialRouting

namespace Metric

/-! ## Meters -/

/-- A metric as it is shown: its name and its labels. -/
abbrev Meter := String × List (String × String)

def meter (m : Metric) : Meter :=
  (m.name, m.labels)

theorem meter_eq_iff {m m' : Metric} : m.meter = m'.meter ↔ m.name = m'.name ∧ m.labels = m'.labels :=
  Prod.mk_inj

/-- The rows after a meter has moved once more. -/
def bump (rows : List (Meter × Nat)) (x : Meter) : List (Meter × Nat) :=
  match rows.find? (·.1 == x) with
  | some (_, n) => rows.filter (·.1 != x) ++ [(x, n + 1)]
  | none => rows ++ [(x, 1)]

/-- One row for each meter, not sorted yet. -/
def counted (moved : List Metric) : List (Meter × Nat) :=
  (moved.map meter).foldl bump []

/-- What the rows of some meters show together. -/
def total (p : Meter → Bool) (rows : List (Meter × Nat)) : Nat :=
  ((rows.filter fun row => p row.1).map (·.2)).sum

/-- The readings of some meters, taken together. -/
def readings (moved : List Metric) (p : Meter → Bool) : Nat :=
  (((tally moved).filter fun row => p (row.1, row.2.1)).map fun row => row.2.2).sum

/-- The reading of one meter. -/
def reading (moved : List Metric) (m : Metric) : Nat :=
  readings moved fun x => x = m.meter

/-- The meter counts invocations with an unknown outcome. -/
def countsUnknown (x : Meter) : Bool :=
  x.1 == "trialswitch_invocations_total" && x.2.contains ("outcome", "unknown")

/-- The meter counts invocations of a contract. -/
def countsInvocations (contract : ContractId) (x : Meter) : Bool :=
  x.1 == "trialswitch_invocations_total" && x.2.contains ("contract", contract.text)

variable {rows : List (Meter × Nat)} {x : Meter} {n : Nat}

theorem total_append (p : Meter → Bool) (rows rows' : List (Meter × Nat)) :
    total p (rows ++ rows') = total p rows + total p rows' := by
  simp [total]

theorem total_singleton (p : Meter → Bool) (x : Meter) (n : Nat) :
    total p [(x, n)] = if p x then n else 0 := by
  cases h : p x <;> simp [total, h]

/-- The order of the rows does not matter. -/
theorem total_perm (p : Meter → Bool) {rows rows' : List (Meter × Nat)} (h : rows.Perm rows') :
    total p rows = total p rows' :=
  ((h.filter _).map _).sum_eq

/-- A row beside those of the other meters. -/
theorem perm_cons_filter_ne (hrows : (rows.map (·.1)).Nodup) (hx : (x, n) ∈ rows) :
    rows.Perm ((x, n) :: rows.filter (·.1 != x)) := by
  have hfilter : rows.erase (x, n) = rows.filter (·.1 != x) := by
    rw [hrows.of_map.erase_eq_filter]
    refine List.filter_congr fun row hrow => ?_
    have hsame : row = (x, n) ↔ row.1 = x :=
      ⟨fun h => h ▸ rfl, fun h => List.inj_on_of_nodup_map hrows hrow hx h⟩
    rw [Bool.eq_iff_iff, bne_iff_ne, bne_iff_ne, Ne, Ne, hsame]
  exact hfilter ▸ List.perm_cons_erase hx

/-- **One move** is one more row, or one more in its row. -/
theorem bump_spec (hrows : (rows.map (·.1)).Nodup) (x : Meter) :
    ((bump rows x).map (·.1)).Nodup ∧
      ∀ p, total p (bump rows x) = total p rows + if p x then 1 else 0 := by
  unfold bump
  split
  · next y n hfound =>
      obtain rfl : y = x := by simpa using List.find?_some hfound
      have hperm := perm_cons_filter_ne hrows (List.mem_of_find?_eq_some hfound)
      have hnodup := (hperm.map (·.1)).nodup hrows
      rw [List.map_cons, List.nodup_cons] at hnodup
      constructor
      · rw [List.map_append]
        exact hnodup.2.append (List.nodup_singleton y) (List.disjoint_singleton.mpr hnodup.1)
      · intro p
        rw [total_append, total_singleton, total_perm p hperm, ← List.singleton_append,
          total_append, total_singleton]
        split <;> omega
  · next hnone =>
      have hfresh : x ∉ rows.map (·.1) := by
        intro hmem
        obtain ⟨row, hrow, rfl⟩ := List.mem_map.mp hmem
        exact List.find?_eq_none.mp hnone row hrow (beq_self_eq_true row.1)
      constructor
      · rw [List.map_append]
        exact hrows.append (List.nodup_singleton x) (List.disjoint_singleton.mpr hfresh)
      · intro p
        rw [total_append, total_singleton]

theorem counted_spec (moved : List Metric) :
    ((counted moved).map (·.1)).Nodup ∧
      ∀ p, total p (counted moved) = moved.countP fun m => p m.meter := by
  unfold counted
  induction moved using List.reverseRecOn with
  | nil => exact ⟨List.nodup_nil, fun _ => rfl⟩
  | append_singleton moved m ih =>
      rw [List.map_append, List.foldl_append]
      obtain ⟨hnodup, htotal⟩ := bump_spec ih.1 m.meter
      refine ⟨hnodup, fun p => ?_⟩
      rw [List.countP_append, List.countP_singleton, ← ih.2 p]
      exact htotal p

/-- The table is sorted, and has the same rows. -/
theorem exists_perm_tally (moved : List Metric) :
    ∃ rows : List (Meter × Nat), rows.Perm (counted moved) ∧
      tally moved = rows.map fun row => (row.1.1, row.1.2, row.2) :=
  ⟨_, List.mergeSort_perm _ _, rfl⟩

/-- A meter has one row. -/
theorem nodup_tally (moved : List Metric) :
    ((tally moved).map fun row => (row.1, row.2.1)).Nodup := by
  obtain ⟨rows, hperm, htally⟩ := exists_perm_tally moved
  rw [htally, List.map_map]
  exact (hperm.map (·.1)).nodup_iff.mpr (counted_spec moved).1

/-- **The readings** of some meters tell how often they have moved. -/
theorem readings_eq_countP (moved : List Metric) (p : Meter → Bool) :
    readings moved p = moved.countP fun m => p m.meter := by
  obtain ⟨rows, hperm, htally⟩ := exists_perm_tally moved
  rw [← (counted_spec moved).2 p, ← total_perm p hperm, readings, htally, List.filter_map,
    List.map_map]
  rfl

end Metric

/-! ## Open scopes -/

/-- The notes of an invocation among those of several. -/
def notesAt (place : Nat) (notes : List (Nat × Note)) : List Note :=
  (notes.filter (·.1 == place)).map (·.2)

theorem notesAt_cons (place place' : Nat) (n : Note) (notes : List (Nat × Note)) :
    notesAt place ((place', n) :: notes) =
      if place = place' then n :: notesAt place notes else notesAt place notes := by
  unfold notesAt
  by_cases hplace : place' = place
  · subst hplace
    simp
  · simp [hplace, Ne.symm hplace]

theorem notesAt_append (place : Nat) (notes notes' : List (Nat × Note)) :
    notesAt place (notes ++ notes') = notesAt place notes ++ notesAt place notes' := by
  simp [notesAt]

theorem notesAt_map (place place' : Nat) (ns : List Note) :
    notesAt place (ns.map (place', ·)) = if place = place' then ns else [] := by
  unfold notesAt
  by_cases hplace : place = place'
  · simp [List.filter_map, Function.comp_def, hplace]
  · simp [List.filter_map, Function.comp_def, hplace, Ne.symm hplace]

/-- What is known of an invocation after a call. -/
def TelemetryScope.next : Option TelemetryScope → TelemetryCall → Option TelemetryScope
  | _, .start info => some (.opened info)
  | _, .dispose => none
  | scope, call => scope.map (·.note call)

/-- A call concerns the scope at its place, and no other. -/
theorem Ledger.get?_after (l : Ledger) (place place' : Nat) (call : TelemetryCall) :
    (l.after place call).get? place' =
      if place' = place then TelemetryScope.next (l.get? place) call else l.get? place' := by
  have hothers : Ledger.get? (l.filter (·.1 != place)) place' =
      if place' = place then none else l.get? place' := by
    unfold get?
    rw [Register.find?_filter_ne]
    split <;> rfl
  have hcons (scope : TelemetryScope) :
      Ledger.get? ((place, scope) :: l.filter (·.1 != place)) place' =
        if place' = place then some scope else l.get? place' := by
    by_cases hplace : place' = place
    · simp [get?, hplace]
    · have hne : (place == place') = false := by simpa using fun h => hplace h.symm
      rw [if_neg hplace] at hothers
      simpa [get?, List.find?_cons, hplace, hne] using hothers
  have hnone (hplace : l.get? place = none) :
      l.get? place' = if place' = place then none else l.get? place' := by
    split
    · next h => rw [h, hplace]
    · rfl
  cases call with
  | start info => exact hcons _
  | dispose => exact hothers
  | _ =>
      simp only [after, TelemetryScope.next]
      cases hplace : l.get? place with
      | none => exact hnone hplace
      | some scope => exact hcons _

namespace TelemetryKind

variable (k : TelemetryKind)

/-- The metrics that the reports of one invocation move. -/
def moves : Option TelemetryScope → List TelemetryCall → List Metric
  | _, [] => []
  | scope, call :: calls =>
    (scope.map (k.metricsOf · call)).getD [] ++ moves (TelemetryScope.next scope call) calls

/-- Fallbacks are counted one by one, and change nothing that other metrics depend on. -/
theorem moves_fallbacks (scope : TelemetryScope) (keys : List TrialKey)
    (calls : List TelemetryCall) :
    metrics.moves (some scope) (keys.map TelemetryCall.fallback ++ calls) =
      keys.map (Metric.fallbacks scope.info.contract) ++
        metrics.moves (some { scope with fallbacks := scope.fallbacks ++ keys }) calls := by
  induction keys generalizing scope with
  | nil => simp
  | cons key keys ih =>
      have hnext := ih { scope with fallbacks := scope.fallbacks ++ [key] }
      rw [List.append_assoc] at hnext
      exact congrArg (Metric.fallbacks scope.info.contract key :: ·) hnext

/-- A note that is no report moves nothing. -/
theorem metrics_follow_of_silent (l : Ledger) (place : Nat) {note : Note}
    (hsilent : note.report?.isNone) (notes : List (Nat × Note)) :
    (k.follow l ((place, note) :: notes)).metrics = (k.follow l notes).metrics := by
  cases note with
  | remark r => cases r <;> rfl
  | telemetry call => cases hsilent
  | _ => rfl

theorem metrics_follow_telemetry (l : Ledger) (place : Nat) (call : TelemetryCall)
    (notes : List (Nat × Note)) :
    (k.follow l ((place, .telemetry call) :: notes)).metrics =
      ((l.get? place).map (k.metricsOf · call)).getD [] ++
        (k.follow (l.after place call) notes).metrics := by
  rw [follow]
  cases l.get? place <;> rfl

/-- **The metrics of several invocations** are those of each, taken together. -/
theorem countP_follow (p : Metric → Bool) (l : Ledger) (notes : List (Nat × Note)) {n : Nat}
    (hn : ∀ place, n ≤ place → reports (notesAt place notes) = []) :
    (k.follow l notes).metrics.countP p =
      ∑ place ∈ Finset.range n, (k.moves (l.get? place) (reports (notesAt place notes))).countP p := by
  induction notes generalizing l with
  | nil => exact (Finset.sum_eq_zero fun _ _ => rfl).symm
  | cons x notes ih =>
      obtain ⟨place, note⟩ := x
      cases hreport : note.report? with
      | none =>
          have hsame (place' : Nat) :
              reports (notesAt place' ((place, note) :: notes)) = reports (notesAt place' notes) := by
            rw [notesAt_cons]
            split
            · exact List.filterMap_cons_none hreport
            · rfl
          simp only [hsame] at hn ⊢
          rw [k.metrics_follow_of_silent l place (by rw [hreport]; rfl), ih l hn]
      | some call =>
          obtain rfl : note = .telemetry call := by
            cases note <;> cases hreport
            rfl
          have hreports (place' : Nat) :
              reports (notesAt place' ((place, .telemetry call) :: notes)) =
                if place' = place then call :: reports (notesAt place' notes)
                else reports (notesAt place' notes) := by
            rw [notesAt_cons]
            split <;> rfl
          have hplace : place ∈ Finset.range n := by
            rw [Finset.mem_range]
            by_contra hbeyond
            have hnone := hn place (Nat.le_of_not_lt hbeyond)
            rw [hreports, if_pos rfl] at hnone
            cases hnone
          have hrest : ∀ place', n ≤ place' → reports (notesAt place' notes) = [] := by
            intro place' hbeyond
            have hne : place' ≠ place := by
              rintro rfl
              exact absurd (Finset.mem_range.mp hplace) (Nat.not_lt.mpr hbeyond)
            rw [← hn place' hbeyond, hreports, if_neg hne]
          -- the call moves what it moves at its own place, and changes the scope there only
          let moved := ((l.get? place).map (k.metricsOf · call)).getD []
          have hmoves (place' : Nat) :
              (k.moves (l.get? place')
                  (reports (notesAt place' ((place, .telemetry call) :: notes)))).countP p =
                (if place' = place then moved.countP p else 0) +
                  (k.moves ((l.after place call).get? place')
                    (reports (notesAt place' notes))).countP p := by
            rw [hreports, Ledger.get?_after]
            by_cases heq : place' = place
            · subst heq
              simp only [if_true, moves, List.countP_append, moved]
            · simp only [if_neg heq, Nat.zero_add]
          rw [k.metrics_follow_telemetry, List.countP_append, ih _ hrest,
            Finset.sum_congr rfl fun place' _ => hmoves place', Finset.sum_add_distrib,
            Finset.sum_ite_eq', if_pos hplace]

end TelemetryKind

end TrialRouting
