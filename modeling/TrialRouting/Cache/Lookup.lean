import TrialRouting.Program

/-!
# TrialRouting.Cache.Lookup

Looking up a decision, and making it when there is none. Of several callers that look for one
decision at the same time one makes it and the others wait for it. A caller that is cancelled while
it makes the decision ends without one, and a waiting caller takes its place.
-/

namespace TrialRouting.DecisionCache

variable {σ : Type}

/-- What a caller is told who was cancelled before there was a decision. -/
def cancelledMessage : String :=
  "decision resolution cancelled"

/-- Ends what a won claim began. -/
def conclude (key : DecisionKey) : Program.Guarded Decision → Program σ (Option Decision)
  | .finished d => .settle key (some d) (.track key (.done (some d)))
  | .expired => .settle key none (.done none)
  | .cancelled => .settle key none (.done none)

/-- Makes a decision after a won claim, unless the caller was cancelled since. -/
def resolveClaimed (key : DecisionKey) (resolve : Work σ Decision) : Program σ (Option Decision) :=
  .note (.selecting key) <|
  (Program.unlessCancelled (Program.guarded none resolve)).bind (conclude key)

/-- What a caller does with the answer to its claim. -/
def answered (key : DecisionKey) (resolve : Work σ Decision) : Claim → Program σ (Option Decision)
  | .hit d => .track key (.done (some d))
  | .won => resolveClaimed key resolve
  | .abandoned => .done none

/-- The decision of a key; none if the caller is cancelled before there is one. -/
def getOrResolve (key : DecisionKey) (resolve : Work σ Decision) : Program σ (Option Decision) :=
  .cancelled fun
    | true => .done none
    | false => .claim key (answered key resolve)

end TrialRouting.DecisionCache
