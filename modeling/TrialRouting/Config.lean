import TrialRouting.Telemetry

/-!
# TrialRouting.Config

The settings of a dispatcher: how many decisions it keeps and for how long, the budget of attempts
that have none of their own, and where its telemetry goes. `Config.validate` names the first bad
setting; settings that never passed it are still used within bounds (`capacity`, `scopeIdle`).
-/

namespace TrialRouting

open Text Document

/-! ## The decision cache -/

/-- How many decisions are kept, and for how long unused. -/
structure CacheConfig where
  maxEntries : UInt64 := 100000
  scopeIdleSecs : UInt64 := 300
  deriving DecidableEq, Repr, Inhabited

namespace CacheConfig

/-- At least one decision is kept. -/
def capacity (c : CacheConfig) : UInt64 :=
  max c.maxEntries 1

/-- A decision is kept for at least a second. -/
def scopeIdle (c : CacheConfig) : Duration :=
  .ofSecs (max c.scopeIdleSecs 1)

def shown (c : CacheConfig) : String :=
  shownRecord "DecisionCacheConfig"
    [("max_entries", toString c.maxEntries), ("scope_idle_secs", toString c.scopeIdleSecs)]

def encode (c : CacheConfig) : Document :=
  .record [("max_entries", .integer c.maxEntries.toNat),
    ("scope_idle_secs", .integer c.scopeIdleSecs.toNat)]

/-- Every field has a default. -/
def decode? (dialect : Dialect) (d : Document) : Option CacheConfig := do
  match ← fields? dialect ["max_entries", "scope_idle_secs"] d with
  | [maxEntries, scopeIdleSecs] =>
    let default : CacheConfig := {}
    let maxEntries ← orDefault default.maxEntries word? maxEntries
    let scopeIdleSecs ← orDefault default.scopeIdleSecs word? scopeIdleSecs
    return ⟨maxEntries, scopeIdleSecs⟩
  | _ => none

end CacheConfig

/-! ## The dispatcher -/

/-- The settings of a dispatcher. -/
structure Config where
  decisionCache : CacheConfig := {}
  defaultAttemptTimeoutMs : Option UInt64 := none
  telemetry : TelemetryKind := .none
  deriving DecidableEq, Repr, Inhabited

/-- A setting that is refused, and why. -/
structure InvalidSetting where
  field : String
  reason : String
  deriving DecidableEq, Repr, Inhabited

namespace InvalidSetting

def message (e : InvalidSetting) : String :=
  s!"invalid config value `{e.field}`: {e.reason}"

end InvalidSetting

namespace Config

/-- The first setting that is zero. -/
def validate (c : Config) : Except InvalidSetting Unit :=
  if c.decisionCache.maxEntries = 0 then
    .error ⟨"decision_cache.max_entries", "must be at least 1"⟩
  else if c.decisionCache.scopeIdleSecs = 0 then
    .error ⟨"decision_cache.scope_idle_secs", "must be at least 1"⟩
  else if c.defaultAttemptTimeoutMs = some 0 then
    .error ⟨"default_attempt_timeout_ms", "must be at least 1 when set"⟩
  else .ok ()

/-- The budget of attempts that have none of their own. -/
def defaultAttemptTimeout (c : Config) : Option Duration :=
  c.defaultAttemptTimeoutMs.map .ofMillis

/-! ## Settings made in code -/

def withMaxEntries (c : Config) (maxEntries : UInt64) : Config :=
  { c with decisionCache := { c.decisionCache with maxEntries } }

/-- Whole seconds, at least one. -/
def withScopeIdle (c : Config) (idle : Duration) : Config :=
  { c with decisionCache := { c.decisionCache with scopeIdleSecs := max idle.secs 1 } }

/-- Whole milliseconds, as many as fit. -/
def withDefaultTimeout (c : Config) (timeout : Duration) : Config :=
  { c with defaultAttemptTimeoutMs := some (.ofNat (min timeout.wholeMillis (UInt64.size - 1))) }

def withTelemetry (c : Config) (telemetry : TelemetryKind) : Config :=
  { c with telemetry }

/-! ## Written forms -/

def shown (c : Config) : String :=
  shownRecord "DispatchConfig"
    [("decision_cache", c.decisionCache.shown),
     ("default_attempt_timeout_ms", shownOption (c.defaultAttemptTimeoutMs.map toString)),
     ("telemetry", c.telemetry.shown)]

def encode (c : Config) : Document :=
  .record [("decision_cache", c.decisionCache.encode),
    ("default_attempt_timeout_ms",
      match c.defaultAttemptTimeoutMs with
      | none => .null
      | some ms => .integer ms.toNat),
    ("telemetry", c.telemetry.encode)]

/-- Every field has a default. -/
def decode? (dialect : Dialect) (d : Document) : Option Config := do
  match ← fields? dialect ["decision_cache", "default_attempt_timeout_ms", "telemetry"] d with
  | [decisionCache, timeout, telemetry] =>
    let decisionCache ← orDefault {} (CacheConfig.decode? dialect) decisionCache
    let timeout ← orDefault none (nullable word?) timeout
    let telemetry ← orDefault .none (TelemetryKind.decode? dialect) telemetry
    return ⟨decisionCache, timeout, telemetry⟩
  | _ => none

end Config

end TrialRouting
