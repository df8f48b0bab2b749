import TrialRouting.Document.Form
import TrialRouting.Name

/-!
# TrialRouting.Policy

What an experiment does when an attempt fails: the error policy says on which trials a failed
invocation is replayed, the timeout settings what the budget of an attempt is and whether a timeout
falls back to the default trial.

A policy whose name ends in one of several targets (`reportsExhaustion`) names all trials it tried
in its final error.
-/

namespace TrialRouting

open Text Document

/-! ## Error policies -/

/-- Where an invocation is replayed after a trial failed. -/
inductive ErrorPolicy where
  | throw
  | replayDefault
  | replayAny
  | replay (key : TrialKey)
  | replayOrdered (keys : List TrialKey)
  deriving DecidableEq, Repr, Inhabited

namespace ErrorPolicy

/-- The trials that the policy names itself. -/
def referencedKeys : ErrorPolicy → List TrialKey
  | .replay key => [key]
  | .replayOrdered keys => keys
  | _ => []

/-- The policies that move from target to target until none is left. -/
def reportsExhaustion : ErrorPolicy → Bool
  | .replayAny => true
  | .replayOrdered _ => true
  | _ => false

def name : ErrorPolicy → String
  | .throw => "throw"
  | .replayDefault => "redirect_and_replay_default"
  | .replayAny => "redirect_and_replay_any"
  | .replay _ => "redirect_and_replay"
  | .replayOrdered _ => "redirect_and_replay_ordered"

def shown : ErrorPolicy → String
  | .throw => "Throw"
  | .replayDefault => "RedirectAndReplayDefault"
  | .replayAny => "RedirectAndReplayAny"
  | .replay key => shownWrapped "RedirectAndReplay" key.shown
  | .replayOrdered keys =>
    shownWrapped "RedirectAndReplayOrdered" (shownList (keys.map TrialKey.shown))

def encode (p : ErrorPolicy) : Document :=
  match p with
  | .replay key => .record [(p.name, key.encode)]
  | .replayOrdered keys => .record [(p.name, .list (keys.map TrialKey.encode))]
  | _ => .text p.name

def decode? (dialect : Dialect) (d : Document) : Option ErrorPolicy := do
  let (name, contents) ← alternative? d
  if name = "redirect_and_replay" then
    let key ← required TrialKey.decode? contents
    return .replay key
  else if name = "redirect_and_replay_ordered" then
    let items ← required items? contents
    let keys ← items.mapM TrialKey.decode?
    return .replayOrdered keys
  else
    unit? dialect byName d
where
  byName (name : String) : Option ErrorPolicy :=
    if name = "throw" then some .throw
    else if name = "redirect_and_replay_default" then some .replayDefault
    else if name = "redirect_and_replay_any" then some .replayAny
    else none

end ErrorPolicy

/-! ## Timeouts -/

/-- What follows when an attempt uses up its budget. -/
inductive OnTimeout where
  | fail
  | fallbackToDefault
  deriving DecidableEq, Repr, Inhabited

namespace OnTimeout

def name : OnTimeout → String
  | .fail => "fail"
  | .fallbackToDefault => "fallback_to_default"

def shown : OnTimeout → String
  | .fail => "Fail"
  | .fallbackToDefault => "FallbackToDefault"

def ofName? (name : String) : Option OnTimeout :=
  if name = "fail" then some .fail
  else if name = "fallback_to_default" then some .fallbackToDefault
  else none

def encode (o : OnTimeout) : Document :=
  .text o.name

def decode? (dialect : Dialect) : Document → Option OnTimeout :=
  unit? dialect ofName?

end OnTimeout

/-- The budget of an attempt and what follows when it is used up. -/
structure TimeoutSettings where
  after : Duration
  onTimeout : OnTimeout
  deriving DecidableEq, Repr, Inhabited

namespace TimeoutSettings

def shown (t : TimeoutSettings) : String :=
  shownRecord "TimeoutSettings" [("after", t.after.shown), ("on_timeout", t.onTimeout.shown)]

def encode (t : TimeoutSettings) : Document :=
  .record [("after", t.after.encode), ("on_timeout", t.onTimeout.encode)]

def decode? (d : Document) : Option TimeoutSettings := do
  match ← fields? .json ["after", "on_timeout"] d with
  | [after, onTimeout] =>
    let after ← required Duration.decode? after
    let onTimeout ← required (OnTimeout.decode? .json) onTimeout
    return ⟨after, onTimeout⟩
  | _ => none

end TimeoutSettings

end TrialRouting
