import TrialRouting.Config
import TrialRouting.Policy
import TrialRouting.Proofs.Form
import TrialRouting.Trial

/-!
# TrialRouting.Proofs.Written

The written forms of settings, policies and trials.  What is written is read
back, whatever the format; a structure may be given as a record in any order,
with other members added, or as the list of its fields; an alternative may be
given with or without an empty value.

A span of time is read by its length: seconds and nanoseconds may be split
between the parts in any way, as long as the seconds fit in 64 bits
(`Duration.decode?_eq_some_iff`).
-/

namespace TrialRouting

open Document

variable (dialect : Dialect)

/-! ## Names -/

theorem TrialKey.roundTrips : RoundTrips TrialKey.encode TrialKey.decode? :=
  fun _ => rfl

theorem ImplementationRef.roundTrips :
    RoundTrips ImplementationRef.encode ImplementationRef.decode? :=
  fun _ => rfl

/-! ## Kinds -/

theorem SelectionKind.roundTrips :
    RoundTrips SelectionKind.encode (SelectionKind.decode? dialect) := by
  intro kind
  rw [encode, decode?, unit?_text]
  cases kind <;> rfl

theorem TelemetryKind.roundTrips :
    RoundTrips TelemetryKind.encode (TelemetryKind.decode? dialect) := by
  intro kind
  rw [encode, decode?, unit?_text]
  cases kind <;> rfl

theorem OnTimeout.roundTrips : RoundTrips OnTimeout.encode (OnTimeout.decode? dialect) := by
  intro choice
  rw [encode, decode?, unit?_text]
  cases choice <;> rfl

theorem SelectionKind.speltAlike : SpeltAlike (SelectionKind.decode? .json) :=
  fun name => (unit?_record_null _ name).symm

theorem TelemetryKind.speltAlike : SpeltAlike (TelemetryKind.decode? .json) :=
  fun name => (unit?_record_null _ name).symm

theorem OnTimeout.speltAlike : SpeltAlike (OnTimeout.decode? .json) :=
  fun name => (unit?_record_null _ name).symm

/-! ## Error policies -/

theorem ErrorPolicy.roundTrips : RoundTrips ErrorPolicy.encode (ErrorPolicy.decode? dialect) := by
  intro policy
  cases policy with
  | throw => rfl
  | replayDefault => rfl
  | replayAny => rfl
  | replay key => rfl
  | replayOrdered keys =>
      have hkeys := TrialKey.roundTrips.mapM keys
      simp [encode, decode?, alternative?, name, required, items?, hkeys]

/-- A policy that names trials is not read from its name alone, nor with an empty value. -/
theorem ErrorPolicy.speltAlike : SpeltAlike (ErrorPolicy.decode? .json) := by
  intro name
  simp only [decode?, alternative?, unit?_record_null]
  simp [required, TrialKey.decode?, text?, items?]

/-! ## Spans of time -/

namespace Duration

/-- The whole span in nanoseconds. -/
def total (d : Duration) : Nat :=
  d.secs.toNat * 1000000000 + d.nanos

/-- **The parts of a span** are added up. -/
theorem ofParts?_eq_some_iff {secs : UInt64} {nanos : Nat} {d : Duration} :
    ofParts? secs nanos = some d ↔ d.total = secs.toNat * 1000000000 + nanos := by
  obtain ⟨secs', nanos', hnanos⟩ := d
  have hsecs : secs'.toNat < UInt64.size := secs'.toNat_lt_size
  simp only [ofParts?, total]
  constructor
  · intro h
    split at h
    · next hfits =>
        have hsum := UInt64.toNat_ofNat_of_lt' hfits
        simp only [Option.some.injEq, mk.injEq] at h
        rw [h.1] at hsum
        omega
    · cases h
  · intro h
    have hfits : secs.toNat + nanos / 1000000000 = secs'.toNat := by omega
    have hrest : nanos % 1000000000 = nanos' := by omega
    simp only [hfits, if_pos hsecs, hrest, UInt64.ofNat_toNat]

/-- The parts are refused just if the seconds do not fit. -/
theorem ofParts?_eq_none_iff {secs : UInt64} {nanos : Nat} :
    ofParts? secs nanos = none ↔ UInt64.size ≤ secs.toNat + nanos / 1000000000 := by
  rw [ofParts?]
  split
  · next hfits => simpa using hfits
  · next hfits => simpa using hfits

/-- The documents that give a span by its parts. -/
def Written (secs : UInt64) (nanos : UInt32) (d : Document) : Prop :=
  let secs : Document := .integer secs.toNat
  let nanos : Document := .integer nanos.toNat
  d = .record [("secs", secs), ("nanos", nanos)] ∨ d = .record [("nanos", nanos), ("secs", secs)] ∨
    d = .list [secs, nanos]

theorem decode?_list (secs nanos : Document) :
    decode? (.list [secs, nanos]) = (word? secs).bind fun secs =>
      (word? nanos).bind fun nanos =>
        if nanos.toNat < UInt32.size then ofParts? secs nanos.toNat else none :=
  rfl

theorem decode?_record (secs nanos : Document) :
    decode? (.record [("secs", secs), ("nanos", nanos)]) = decode? (.list [secs, nanos]) ∧
      decode? (.record [("nanos", nanos), ("secs", secs)]) = decode? (.list [secs, nanos]) :=
  ⟨rfl, rfl⟩

theorem decode?_of_written {secs : UInt64} {nanos : UInt32} {d : Document}
    (h : Written secs nanos d) : decode? d = ofParts? secs nanos.toNat := by
  have hlist : decode? d = decode? (.list [.integer secs.toNat, .integer nanos.toNat]) := by
    obtain rfl | rfl | rfl := h
    · exact (decode?_record _ _).1
    · exact (decode?_record _ _).2
    · rfl
  have hnanos : nanos.toUInt64.toNat < UInt32.size := by simpa using nanos.toNat_lt_size
  rw [hlist, decode?_list, word?_integer, ← UInt32.toNat_toUInt64, word?_integer]
  exact if_pos hnanos

theorem roundTrips : RoundTrips Duration.encode Duration.decode? := by
  intro d
  have hsize : d.nanos < UInt32.size := Nat.lt_trans d.nanos_lt (by decide)
  have hnanos : (UInt32.ofNat d.nanos).toNat = d.nanos := UInt32.toNat_ofNat_of_lt' hsize
  have hwritten : Written d.secs (UInt32.ofNat d.nanos) d.encode :=
    .inl (by rw [hnanos, encode])
  rw [decode?_of_written hwritten, ofParts?_eq_some_iff, hnanos, total]

end Duration

/-! ## Structures -/

theorem TimeoutSettings.givenAlike :
    GivenAlike ["after", "on_timeout"] TimeoutSettings.decode? :=
  .of_fields (by decide) fun _ => rfl

theorem Trial.givenAlike : GivenAlike ["key", "is_default", "implementation"] Trial.decode? :=
  .of_fields (by decide) fun _ => rfl

theorem CacheConfig.givenAlike :
    GivenAlike ["max_entries", "scope_idle_secs"] (CacheConfig.decode? dialect) :=
  .of_fields (by decide) fun _ => rfl

theorem Config.givenAlike :
    GivenAlike ["decision_cache", "default_attempt_timeout_ms", "telemetry"]
      (Config.decode? dialect) :=
  .of_fields (by decide) fun _ => rfl

/- What is read from given fields is stated for any documents, and the documents of a value come in
by rewriting: to compare two readings of a known number, Lean would count up to its bound. -/

theorem TimeoutSettings.decode?_of_fields {d after onTimeout : Document}
    (h : fields? .json ["after", "on_timeout"] d = some [some after, some onTimeout]) :
    decode? d = (Duration.decode? after).bind fun after =>
      (OnTimeout.decode? .json onTimeout).bind fun onTimeout => some ⟨after, onTimeout⟩ := by
  rw [decode?, h]
  rfl

theorem TimeoutSettings.roundTrips :
    RoundTrips TimeoutSettings.encode TimeoutSettings.decode? := by
  intro settings
  have hfields : fields? .json ["after", "on_timeout"] settings.encode =
      some [some settings.after.encode, some settings.onTimeout.encode] := rfl
  rw [decode?_of_fields hfields, Duration.roundTrips, OnTimeout.roundTrips]
  rfl

theorem Trial.roundTrips : RoundTrips Trial.encode Trial.decode? :=
  fun _ => rfl

theorem CacheConfig.decode?_of_fields {d maxEntries scopeIdleSecs : Document}
    (h : fields? dialect ["max_entries", "scope_idle_secs"] d =
      some [some maxEntries, some scopeIdleSecs]) :
    decode? dialect d = (word? maxEntries).bind fun maxEntries =>
      (word? scopeIdleSecs).bind fun scopeIdleSecs => some ⟨maxEntries, scopeIdleSecs⟩ := by
  rw [decode?, h]
  rfl

theorem CacheConfig.roundTrips : RoundTrips CacheConfig.encode (CacheConfig.decode? dialect) := by
  intro config
  have hfields : fields? dialect ["max_entries", "scope_idle_secs"] config.encode =
      some [some (.integer config.maxEntries.toNat), some (.integer config.scopeIdleSecs.toNat)] :=
    rfl
  rw [decode?_of_fields dialect hfields, word?_integer, word?_integer]
  rfl

theorem Config.decode?_of_fields {d cache timeout telemetry : Document}
    (h : fields? dialect ["decision_cache", "default_attempt_timeout_ms", "telemetry"] d =
      some [some cache, some timeout, some telemetry]) :
    decode? dialect d = (CacheConfig.decode? dialect cache).bind fun cache =>
      (nullable word? timeout).bind fun timeout =>
        (TelemetryKind.decode? dialect telemetry).bind fun telemetry =>
          some ⟨cache, timeout, telemetry⟩ := by
  rw [decode?, h]
  rfl

theorem Config.roundTrips : RoundTrips Config.encode (Config.decode? dialect) := by
  rintro ⟨cache, timeout, telemetry⟩
  have hcache := CacheConfig.roundTrips dialect cache
  have htelemetry := TelemetryKind.roundTrips dialect telemetry
  cases timeout with
  | none =>
      have hfields :
          fields? dialect ["decision_cache", "default_attempt_timeout_ms", "telemetry"]
              (encode ⟨cache, none, telemetry⟩) =
            some [some cache.encode, some .null, some telemetry.encode] := rfl
      rw [decode?_of_fields dialect hfields, hcache, htelemetry]
      rfl
  | some ms =>
      have hfields :
          fields? dialect ["decision_cache", "default_attempt_timeout_ms", "telemetry"]
              (encode ⟨cache, some ms, telemetry⟩) =
            some [some cache.encode, some (.integer ms.toNat), some telemetry.encode] := rfl
      have hms : nullable word? (.integer ms.toNat) = some (some ms) := by
        rw [nullable, word?_integer, Option.map_some]
        exact nofun
      rw [decode?_of_fields dialect hfields, hcache, hms, htelemetry]
      rfl

/-- **Written forms.**  Whatever is written is read back, in every format.  A structure is read from
a record of some of its first fields, in any order and with other members added, as from the list
of these fields, or both are refused.  An alternative without contents is read from its name as
from a record that gives the name an empty value.  A span of time is what its seconds and
nanoseconds add up to, however many nanoseconds there are, and is refused just if its whole seconds
do not fit in 64 bits. -/
theorem written_forms (dialect : Dialect) :
    (RoundTrips ErrorPolicy.encode (ErrorPolicy.decode? dialect) ∧
      RoundTrips OnTimeout.encode (OnTimeout.decode? dialect) ∧
      RoundTrips TimeoutSettings.encode TimeoutSettings.decode? ∧
      RoundTrips Trial.encode Trial.decode? ∧
      RoundTrips TrialKey.encode TrialKey.decode? ∧
      RoundTrips SelectionKind.encode (SelectionKind.decode? dialect) ∧
      RoundTrips TelemetryKind.encode (TelemetryKind.decode? dialect) ∧
      RoundTrips Config.encode (Config.decode? dialect) ∧
      RoundTrips CacheConfig.encode (CacheConfig.decode? dialect)) ∧
    (GivenAlike ["after", "on_timeout"] TimeoutSettings.decode? ∧
      GivenAlike ["key", "is_default", "implementation"] Trial.decode? ∧
      GivenAlike ["decision_cache", "default_attempt_timeout_ms", "telemetry"]
        (Config.decode? dialect) ∧
      GivenAlike ["max_entries", "scope_idle_secs"] (CacheConfig.decode? dialect)) ∧
    (SpeltAlike (ErrorPolicy.decode? .json) ∧ SpeltAlike (OnTimeout.decode? .json) ∧
      SpeltAlike (SelectionKind.decode? .json) ∧ SpeltAlike (TelemetryKind.decode? .json)) ∧
    ∀ secs nanos written, Duration.Written secs nanos written →
      (∀ d : Duration, Duration.decode? written = some d ↔
        d.total = secs.toNat * 1000000000 + nanos.toNat) ∧
      (Duration.decode? written = none ↔
        UInt64.size ≤ secs.toNat + nanos.toNat / 1000000000) := by
  refine ⟨⟨ErrorPolicy.roundTrips dialect, OnTimeout.roundTrips dialect,
    TimeoutSettings.roundTrips, Trial.roundTrips, TrialKey.roundTrips,
    SelectionKind.roundTrips dialect, TelemetryKind.roundTrips dialect, Config.roundTrips dialect,
    CacheConfig.roundTrips dialect⟩,
    ⟨TimeoutSettings.givenAlike, Trial.givenAlike, Config.givenAlike dialect,
      CacheConfig.givenAlike dialect⟩,
    ⟨ErrorPolicy.speltAlike, OnTimeout.speltAlike, SelectionKind.speltAlike,
      TelemetryKind.speltAlike⟩, ?_⟩
  intro secs nanos written hwritten
  rw [Duration.decode?_of_written hwritten]
  exact ⟨fun d => Duration.ofParts?_eq_some_iff, Duration.ofParts?_eq_none_iff⟩

end TrialRouting
