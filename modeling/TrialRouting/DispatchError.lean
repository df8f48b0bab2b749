import TrialRouting.Duration
import TrialRouting.Name

/-!
# TrialRouting.DispatchError

How an invocation can fail, and how looking up an implementation can.

`DispatchError.trial?` is the trial that was attempted last, if the error tells one;
`DispatchError.trialError?` is the error of a trial itself, as opposed to one of the dispatch.
-/

namespace TrialRouting

open Text

/-! ## Looking up implementations -/

/-- Why there is no implementation to run. -/
inductive ResolveError where
  | notRegistered (contract : ContractId) (trial : TrialKey)
  | typeMismatch (implementation : ImplementationRef) (expected : String)
  | factory (implementation : ImplementationRef) (reason : String)
  deriving DecidableEq, Repr, Inhabited

namespace ResolveError

def message : ResolveError → String
  | .notRegistered contract trial => s!"no implementation registered for '{contract}/{trial}'"
  | .typeMismatch implementation expected =>
    s!"implementation '{implementation}' is not a {expected}"
  | .factory implementation reason => s!"failed to construct '{implementation}': {reason}"

/-- The name of the cause. -/
def name : ResolveError → String
  | .notRegistered .. => "NotRegistered"
  | .typeMismatch .. => "TypeMismatch"
  | .factory .. => "Factory"

end ResolveError

/-! ## Invocations -/

/-- How an invocation ends without an output. -/
inductive DispatchError where
  | definitionNotFound (contract : ContractId)
  | implementationUnavailable (contract : ContractId) (trial : TrialKey) (source : ResolveError)
  | failed (trial : TrialKey) (source : String)
  | fallbackExhausted (attempted : List TrialKey) (last : String)
  | timedOut (trial : TrialKey) (after : Duration)
  | cancelled (trial : Option TrialKey)
  | pipeline (trial : TrialKey) (source : String)
  deriving DecidableEq, Repr

namespace DispatchError

def kind : DispatchError → String
  | .definitionNotFound _ => "definition_not_found"
  | .implementationUnavailable .. => "implementation_unavailable"
  | .failed .. => "failed"
  | .fallbackExhausted .. => "fallback_exhausted"
  | .timedOut .. => "timed_out"
  | .cancelled _ => "cancelled"
  | .pipeline .. => "pipeline"

def message : DispatchError → String
  | .definitionNotFound contract => s!"no experiment registered for contract '{contract}'"
  | .implementationUnavailable contract trial source =>
    s!"implementation for trial '{trial}' of '{contract}' is unavailable: {source.message}"
  | .failed trial source => s!"trial '{trial}' failed: {source}"
  | .fallbackExhausted attempted last =>
    let keys := shownList (attempted.map TrialKey.shown)
    s!"all fallback trials failed (attempted {keys}): {last}"
  | .timedOut trial after => s!"trial '{trial}' timed out after {after.shown}"
  | .cancelled _ => "invocation cancelled"
  | .pipeline trial source => s!"decorator pipeline failed on trial '{trial}': {source}"

/-- The error of the trial that failed last. -/
def trialError? : DispatchError → Option String
  | .failed _ source => some source
  | .fallbackExhausted _ last => some last
  | _ => none

/-- The trial attempted last. -/
def trial? : DispatchError → Option TrialKey
  | .implementationUnavailable _ trial _ => some trial
  | .failed trial _ => some trial
  | .timedOut trial _ => some trial
  | .pipeline trial _ => some trial
  | .fallbackExhausted attempted _ => attempted.getLast?
  | .cancelled trial => trial
  | .definitionNotFound _ => none

def isCancelled : DispatchError → Bool
  | .cancelled _ => true
  | _ => false

def isTimeout : DispatchError → Bool
  | .timedOut .. => true
  | _ => false

/-- The text of the error behind this one. -/
def cause? : DispatchError → Option String
  | .implementationUnavailable _ _ source => some source.message
  | .failed _ source => some source
  | .fallbackExhausted _ last => some last
  | .pipeline _ source => some source
  | _ => none

end DispatchError

end TrialRouting
