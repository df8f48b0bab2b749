import Mathlib.Data.List.Induction
import TrialRouting.Proofs.Written

/-!
# TrialRouting.Proofs.Settings

Settings that are made in code.  The last setting of a kind is the one that
counts; an idle time is cut to whole seconds, but never below one, a budget to
whole milliseconds and to what fits in 64 bits (`Duration.cutMillis`).

A budget below a millisecond is thereby cut to nothing, which is not a valid
setting.  This is the only way in which settings that are not zero can turn out
invalid (`Config.validate_made`), and every other budget keeps all but the part
of a millisecond that does not count (`Duration.lt_total_cut`).
-/

namespace TrialRouting

/-! ## Budgets in whole milliseconds -/

namespace Duration

/-- Whole milliseconds, as many as fit in 64 bits. -/
def cutMillis (d : Duration) : UInt64 :=
  .ofNat (min d.wholeMillis (UInt64.size - 1))

/-- The span without the part of a millisecond, cut short to what fits in 64 bits of them. -/
def cut (d : Duration) : Duration :=
  ofMillis d.cutMillis

theorem wholeMillis_eq (d : Duration) : d.wholeMillis = d.total / 1000000 := by
  have hnanos := d.nanos_lt
  simp only [wholeMillis, total]
  omega

theorem total_ofMillis (ms : UInt64) : (ofMillis ms).total = ms.toNat * 1000000 := by
  have hsecs : (ms / 1000).toNat = ms.toNat / 1000 := UInt64.toNat_div ms 1000
  simp only [ofMillis, total, hsecs]
  omega

theorem toNat_cutMillis (d : Duration) :
    d.cutMillis.toNat = min d.wholeMillis (UInt64.size - 1) :=
  UInt64.toNat_ofNat_of_lt' (Nat.lt_of_le_of_lt (Nat.min_le_right ..) (by decide))

theorem total_cut (d : Duration) :
    d.cut.total = min d.wholeMillis (UInt64.size - 1) * 1000000 := by
  rw [cut, total_ofMillis, toNat_cutMillis]

theorem eq_zero_iff (d : Duration) : d = zero ↔ d.total = 0 := by
  obtain ⟨secs, nanos, hnanos⟩ := d
  have hsecs : secs = 0 ↔ secs.toNat = 0 := by rw [← UInt64.toNat_inj]; rfl
  simp only [zero, total, mk.injEq, hsecs]
  omega

/-- Only a span below a millisecond is cut to nothing. -/
theorem cut_eq_zero_iff (d : Duration) : d.cut = zero ↔ d.total < 1000000 := by
  have hbound : 0 < UInt64.size - 1 := by decide
  rw [eq_zero_iff, total_cut, wholeMillis_eq]
  omega

theorem cutMillis_eq_zero_iff (d : Duration) : d.cutMillis = 0 ↔ d.total < 1000000 := by
  have hbound : 0 < UInt64.size - 1 := by decide
  rw [← UInt64.toNat_inj, toNat_cutMillis, wholeMillis_eq]
  show min (d.total / 1000000) (UInt64.size - 1) = 0 ↔ _
  omega

theorem total_cut_le (d : Duration) : d.cut.total ≤ d.total := by
  rw [total_cut, wholeMillis_eq]
  omega

/-- A span whose milliseconds fit in 64 bits loses less than one of them. -/
theorem lt_total_cut {d : Duration} (h : d.wholeMillis < UInt64.size) :
    d.total < d.cut.total + 1000000 := by
  have hfits : d.wholeMillis ≤ UInt64.size - 1 := Nat.le_pred_of_lt h
  rw [total_cut, Nat.min_eq_left hfits, wholeMillis_eq]
  omega

end Duration

/-! ## Settings made one after the other -/

/-- A setting that is made in code. -/
inductive Setting where
  | maxEntries (count : UInt64)
  | scopeIdle (idle : Duration)
  | defaultTimeout (timeout : Duration)
  | telemetry (kind : TelemetryKind)

namespace Setting

/-- A count or a span that is set is not zero. -/
def Nonzero : Setting → Prop
  | .maxEntries count => count ≠ 0
  | .scopeIdle idle => idle ≠ .zero
  | .defaultTimeout timeout => timeout ≠ .zero
  | .telemetry _ => True

def count? : Setting → Option UInt64
  | .maxEntries count => some count
  | _ => none

def timeout? : Setting → Option Duration
  | .defaultTimeout timeout => some timeout
  | _ => none

/-- The number of entries that was set last. -/
def lastCount (settings : List Setting) : Option UInt64 :=
  (settings.filterMap count?).getLast?

/-- The budget that was set last. -/
def lastTimeout (settings : List Setting) : Option Duration :=
  (settings.filterMap timeout?).getLast?

/-- Of the settings of a kind, the last one is the new one if that is of the kind. -/
theorem getLast?_filterMap_append {α : Type} (kind? : Setting → Option α) (settings : List Setting)
    (s : Setting) :
    ((settings ++ [s]).filterMap kind?).getLast? =
      (kind? s).or (settings.filterMap kind?).getLast? := by
  cases hs : kind? s <;> simp [hs]

theorem lastCount_append (settings : List Setting) (s : Setting) :
    lastCount (settings ++ [s]) = s.count?.or (lastCount settings) :=
  getLast?_filterMap_append count? settings s

theorem lastTimeout_append (settings : List Setting) (s : Setting) :
    lastTimeout (settings ++ [s]) = s.timeout?.or (lastTimeout settings) :=
  getLast?_filterMap_append timeout? settings s

theorem Nonzero.lastCount_ne_zero {settings : List Setting} (h : ∀ s ∈ settings, s.Nonzero) :
    lastCount settings ≠ some 0 := by
  intro hlast
  obtain ⟨s, hs, hcount⟩ := List.mem_filterMap.mp (List.mem_of_getLast? hlast)
  cases s with
  | maxEntries count => exact h _ hs (Option.some.inj hcount)
  | scopeIdle idle => cases hcount
  | defaultTimeout timeout => cases hcount
  | telemetry kind => cases hcount

end Setting

namespace Config

open Setting

/-- The settings after one more is made. -/
def make (c : Config) : Setting → Config
  | .maxEntries count => c.withMaxEntries count
  | .scopeIdle idle => c.withScopeIdle idle
  | .defaultTimeout timeout => c.withDefaultTimeout timeout
  | .telemetry kind => c.withTelemetry kind

/-- The settings that are made one after the other, beginning with the defaults. -/
def made (settings : List Setting) : Config :=
  settings.foldl make {}

theorem made_append (settings : List Setting) (s : Setting) :
    made (settings ++ [s]) = (made settings).make s :=
  List.foldl_concat ..

theorem maxEntries_make (c : Config) (s : Setting) :
    (c.make s).decisionCache.maxEntries = s.count?.getD c.decisionCache.maxEntries := by
  cases s <;> rfl

theorem defaultAttemptTimeoutMs_make (c : Config) (s : Setting) :
    (c.make s).defaultAttemptTimeoutMs =
      (s.timeout?.map Duration.cutMillis).or c.defaultAttemptTimeoutMs := by
  cases s <;> rfl

/-- The idle time is never set to zero. -/
theorem scopeIdleSecs_make {c : Config} (h : c.decisionCache.scopeIdleSecs ≠ 0) (s : Setting) :
    (c.make s).decisionCache.scopeIdleSecs ≠ 0 := by
  cases s with
  | maxEntries count => exact h
  | scopeIdle idle =>
      show (if idle.secs ≤ 1 then 1 else idle.secs) ≠ 0
      split
      · decide
      · next hlong =>
          intro hzero
          exact hlong (hzero ▸ by decide)
  | defaultTimeout timeout => exact h
  | telemetry kind => exact h

theorem maxEntries_made (settings : List Setting) :
    (made settings).decisionCache.maxEntries = (lastCount settings).getD 100000 := by
  induction settings using List.reverseRecOn with
  | nil => rfl
  | append_singleton settings s ih =>
      rw [made_append, maxEntries_make, ih, lastCount_append]
      cases s.count? <;> rfl

theorem defaultAttemptTimeoutMs_made (settings : List Setting) :
    (made settings).defaultAttemptTimeoutMs = (lastTimeout settings).map Duration.cutMillis := by
  induction settings using List.reverseRecOn with
  | nil => rfl
  | append_singleton settings s ih =>
      rw [made_append, defaultAttemptTimeoutMs_make, ih, lastTimeout_append]
      cases s.timeout? <;> rfl

theorem scopeIdleSecs_made (settings : List Setting) :
    (made settings).decisionCache.scopeIdleSecs ≠ 0 := by
  induction settings using List.reverseRecOn with
  | nil => decide
  | append_singleton settings s ih =>
      rw [made_append]
      exact scopeIdleSecs_make ih s

/-- The budget that is reported is the one set last, cut. -/
theorem defaultAttemptTimeout_made (settings : List Setting) :
    (made settings).defaultAttemptTimeout = (lastTimeout settings).map Duration.cut := by
  rw [defaultAttemptTimeout, defaultAttemptTimeoutMs_made, Option.map_map]
  rfl

/-- **Settings made in code are valid** unless the number of entries was last set to zero, or the
budget to less than a millisecond. -/
theorem validate_made (settings : List Setting) :
    (made settings).validate =
      if lastCount settings = some 0 then
        .error ⟨"decision_cache.max_entries", "must be at least 1"⟩
      else if ∃ d, lastTimeout settings = some d ∧ d.total < 1000000 then
        .error ⟨"default_attempt_timeout_ms", "must be at least 1 when set"⟩
      else .ok () := by
  have hcount : (made settings).decisionCache.maxEntries = 0 ↔ lastCount settings = some 0 := by
    rw [maxEntries_made]
    cases lastCount settings with
    | none => decide
    | some count => simp
  have htimeout : (made settings).defaultAttemptTimeoutMs = some 0 ↔
      ∃ d, lastTimeout settings = some d ∧ d.total < 1000000 := by
    simp only [defaultAttemptTimeoutMs_made, Option.map_eq_some_iff, Duration.cutMillis_eq_zero_iff]
  rw [validate, if_neg (scopeIdleSecs_made settings)]
  simp only [hcount, htimeout]

/-- **Settings made in code.**  If no number of entries and no span is set to zero, the settings are
valid just if the budget set last is at least a millisecond; otherwise they are refused for this
budget.  The budget that is reported is never above the one set last, and less than a millisecond
below it if its milliseconds fit in 64 bits; it is nothing just if that is below a millisecond. -/
theorem valid_made_iff (settings : List Setting) (h : ∀ s ∈ settings, s.Nonzero) :
    ((made settings).validate = .ok () ↔
      ∀ d, lastTimeout settings = some d → 1000000 ≤ d.total) ∧
    ((made settings).validate ≠ .ok () → (made settings).validate =
      .error ⟨"default_attempt_timeout_ms", "must be at least 1 when set"⟩) ∧
    (lastTimeout settings = none → (made settings).defaultAttemptTimeout = none) ∧
    ∀ d, lastTimeout settings = some d →
      ∃ reported, (made settings).defaultAttemptTimeout = some reported ∧
        (reported ≠ .zero ↔ 1000000 ≤ d.total) ∧ reported.total ≤ d.total ∧
        (d.wholeMillis < UInt64.size → d.total < reported.total + 1000000) := by
  have hvalidate := validate_made settings
  rw [if_neg (Nonzero.lastCount_ne_zero h)] at hvalidate
  refine ⟨?_, ?_, ?_, ?_⟩
  · rw [hvalidate]
    split
    · next hshort =>
        obtain ⟨d, hd, hlt⟩ := hshort
        exact ⟨nofun, fun hlong => absurd (hlong d hd) (Nat.not_le.mpr hlt)⟩
    · next hshort =>
        exact ⟨fun _ d hd => Nat.not_lt.mp fun hlt => hshort ⟨d, hd, hlt⟩, fun _ => rfl⟩
  · rw [hvalidate]
    split
    · exact fun _ => rfl
    · exact fun hne => absurd rfl hne
  · intro hnone
    rw [defaultAttemptTimeout_made, hnone, Option.map_none]
  · intro d hd
    refine ⟨d.cut, by rw [defaultAttemptTimeout_made, hd, Option.map_some], ?_,
      d.total_cut_le, Duration.lt_total_cut⟩
    rw [ne_eq, d.cut_eq_zero_iff, Nat.not_lt]

/-- Ten entries, five seconds, a quarter of a second and some nanoseconds. -/
def shopSettings : List Setting :=
  [.maxEntries 10, .scopeIdle (.ofSecs 5), .defaultTimeout ⟨0, 250000999, by decide⟩,
    .telemetry .metrics]

theorem nonzero_shopSettings : ∀ s ∈ shopSettings, s.Nonzero := by
  simp [shopSettings, Nonzero, Duration.zero, Duration.ofSecs]

/-- The settings are valid, and the quarter of a second is reported without the nanoseconds. -/
theorem valid_made_shopSettings :
    (∀ s ∈ shopSettings, s.Nonzero) ∧ (made shopSettings).validate = .ok () ∧
      (made shopSettings).defaultAttemptTimeout = some ⟨0, 250000000, by decide⟩ := by
  refine ⟨nonzero_shopSettings, (valid_made_iff shopSettings nonzero_shopSettings).1.mpr ?_, rfl⟩
  intro d hd
  obtain rfl := Option.some.inj hd
  decide

/-- An idle time of half a second and a budget of half a millisecond. -/
def hastySettings : List Setting :=
  [.scopeIdle ⟨0, 500000000, by decide⟩, .defaultTimeout ⟨0, 500000, by decide⟩]

/-- None of these is zero.  The idle time is kept at a second, but the budget is cut to nothing, and the
settings are not valid. -/
theorem invalid_made_hastySettings :
    (∀ s ∈ hastySettings, s.Nonzero) ∧
      (made hastySettings).decisionCache.scopeIdle = .ofSecs 1 ∧
      (made hastySettings).defaultAttemptTimeout = some .zero ∧
      (made hastySettings).validate =
        .error ⟨"default_attempt_timeout_ms", "must be at least 1 when set"⟩ := by
  refine ⟨?_, rfl, rfl, rfl⟩
  simp [hastySettings, Nonzero, Duration.zero]

end Config

end TrialRouting
