/-!
# TrialRouting.Duration

Spans of time as whole seconds and nanoseconds. The clock counts milliseconds, so a span is looked
at in two roundings: `wholeMillis` rounds down, `clockMillis`, the ticks of the clock within which
the span has surely passed, rounds up. A wait is never longer than `longestWait`; a budget, which is
a span of the clock, may be.

The text of a span (`shown`) uses the largest of the units s, ms, µs and ns with a whole part and
writes the rest as a decimal fraction without trailing zeros.
-/

namespace TrialRouting

/-- A span of time, less than a second of it as nanoseconds. -/
structure Duration where
  secs : UInt64
  nanos : Nat
  nanos_lt : nanos < 1000000000
  deriving DecidableEq, Repr

namespace Duration

/-- The empty span. -/
def zero : Duration :=
  ⟨0, 0, by decide⟩

instance : Inhabited Duration := ⟨zero⟩

def ofSecs (secs : UInt64) : Duration :=
  ⟨secs, 0, by decide⟩

def ofMillis (ms : UInt64) : Duration :=
  ⟨ms / 1000, ms.toNat % 1000 * 1000000, by omega⟩

/-- Seconds and any number of nanoseconds, of which the full seconds carry over; nothing when the
seconds no longer fit in 64 bits. -/
def ofParts? (secs : UInt64) (nanos : Nat) : Option Duration :=
  let total := secs.toNat + nanos / 1000000000
  if total < UInt64.size then
    some ⟨.ofNat total, nanos % 1000000000, Nat.mod_lt _ (by decide)⟩
  else
    none

/-- The milliseconds that have fully passed. -/
def wholeMillis (d : Duration) : Nat :=
  d.secs.toNat * 1000 + d.nanos / 1000000

/-- The milliseconds after which the span has passed. -/
def clockMillis (d : Duration) : Nat :=
  d.secs.toNat * 1000 + (d.nanos + 999999) / 1000000

/-! ## Waiting -/

/-- The longest wait in milliseconds: thirty years of 365 days. -/
def longestWait : Nat :=
  30 * 365 * 24 * 60 * 60 * 1000

/-- A number of milliseconds as a wait: what is too long is cut short. -/
def cutWait (ms : Nat) : Nat :=
  min ms longestWait

/-! ## The text of a span -/

/-- The decimal digits of `part / 10 ^ places` after the point, without trailing zeros. -/
def fraction : Nat → Nat → List Char
  | 0, _ => []
  | places + 1, part =>
    if part = 0 then []
    else Nat.digitChar (part / 10 ^ places) :: fraction places (part % 10 ^ places)

/-- A whole number and a fraction of `places` decimal places, with the unit after them. -/
def decimal (whole part places : Nat) (unit : String) : String :=
  let digits := fraction places part
  if digits.isEmpty then s!"{whole}" ++ unit
  else s!"{whole}." ++ String.ofList digits ++ unit

/-- The span in its largest unit. -/
def shown (d : Duration) : String :=
  if d.secs ≠ 0 then decimal d.secs.toNat d.nanos 9 "s"
  else if 1000000 ≤ d.nanos then decimal (d.nanos / 1000000) (d.nanos % 1000000) 6 "ms"
  else if 1000 ≤ d.nanos then decimal (d.nanos / 1000) (d.nanos % 1000) 3 "µs"
  else decimal d.nanos 0 0 "ns"

example : (Duration.mk 1 500000000 (by decide)).shown = "1.5s" := by cbv
example : (Duration.mk 0 50000000 (by decide)).shown = "50ms" := by cbv
example : (Duration.mk 0 1001 (by decide)).shown = "1.001µs" := by cbv
example : zero.shown = "0ns" := by cbv

end Duration

end TrialRouting
