import TrialRouting.Rehearsal.Script

/-!
# TrialRouting.Rehearsal.Stage

The state that the parties of a rehearsal share: the kill switch, the scripts, and how far each of
them has been followed.
-/

namespace TrialRouting.Rehearsal

/-! ## Counting -/

/-- How often something happened, by name. -/
abbrev Counts (κ : Type) := List (κ × Nat)

namespace Counts

variable {κ : Type} [BEq κ]

def count (c : Counts κ) (key : κ) : Nat :=
  ((c.find? (·.1 == key)).map (·.2)).getD 0

/-- Once more. -/
def increment (c : Counts κ) (key : κ) : Counts κ :=
  (key, c.count key + 1) :: c.filter (·.1 != key)

end Counts

/-! ## The stage -/

/-- A stage. A kill switch need not be installed. Decorators are numbered as they are made, and
`uses` says how often each was used. Calls are `counted` in the journal, or are not when several
invocations run at the same time. -/
structure Stage where
  switch : Option KillSwitch
  sources : List (String × List SourceLine)
  reads : Counts String
  picks : Counts ContractId
  trials : List TrialScript
  uses : List Nat
  counted : Bool
  deriving Inhabited

namespace Stage

/-- A stage on which nothing has happened yet. -/
def opened (switch : Option KillSwitch) (sources : List (String × List SourceLine))
    (trials : List TrialScript) : Stage :=
  ⟨switch, sources, [], [], trials, [], true⟩

/-! ### Switches -/

/-- What is switched off; nothing if there is no switch. -/
def switches (s : Stage) : KillSwitch :=
  s.switch.getD .allOn

/-- Operates the switch if there is one, and says what the log is told. -/
def kill (operations : List KillSwitch.Operation) (s : Stage) : List Event × Stage :=
  match s.switch with
  | none => ([], s)
  | some k =>
    let (k, events) := k.applyAll operations
    (events, { s with switch := some k })

/-! ### Sources and selectors -/

/-- Gives a source another script. -/
def setSource (name : String) (lines : List SourceLine) (s : Stage) : Stage :=
  { s with sources := (name, lines) :: s.sources.filter (·.1 != name) }

/-- The next line of a source; a source without a script has nothing. -/
def read (name : String) (s : Stage) : SourceLine × Stage :=
  let reads := s.reads.increment name
  let lines := ((s.sources.find? (·.1 == name)).map (·.2)).getD []
  ((line? lines (reads.count name)).getD .nothing, { s with reads })

/-- How often the selector of a contract has chosen before. -/
def pick (contract : ContractId) (s : Stage) : Nat × Stage :=
  (s.picks.count contract, { s with picks := s.picks.increment contract })

/-! ### Trials -/

/-- The place of the script of a trial. -/
def scriptIndex? (s : Stage) (contract : ContractId) (trial : TrialKey) : Option Nat :=
  s.trials.findIdx? fun t => t.contract == contract && t.trial == trial

/-- Adds the script of a trial in place of any former one. -/
def addScript (t : TrialScript) (s : Stage) : Stage :=
  match s.scriptIndex? t.contract t.trial with
  | some i => { s with trials := s.trials.set i t }
  | none => { s with trials := s.trials ++ [t] }

/-- Gives trials that have no script an empty one. -/
def ensureScripts (contract : ContractId) (keys : List TrialKey) (s : Stage) : Stage :=
  keys.foldl (fun s key =>
    match s.scriptIndex? contract key with
    | some _ => s
    | none => s.addScript (.fresh contract key .scripted [])) s

/-- Gives a trial other lines, to be followed from the first one. -/
def setLines (contract : ContractId) (trial : TrialKey) (lines : List TrialLine) (s : Stage) :
    Stage :=
  match s.scriptIndex? contract trial with
  | some i => { s with trials := s.trials.modify i fun t => { t with lines, called := 0 } }
  | none => s

/-- The trial at a place is called: its key, its line, and which call it is. -/
def call (i : Nat) (s : Stage) : (TrialKey × TrialLine × Option Nat) × Stage :=
  let t := s.trials.getD i default
  ((t.trial, t.next, if s.counted then some (t.called + 1) else none),
    { s with trials := s.trials.modify i TrialScript.advance })

/-! ### Decorators -/

/-- The number of a new decorator. -/
def makeDecorator (s : Stage) : Nat × Stage :=
  (s.uses.length, { s with uses := s.uses ++ [0] })

/-- A decorator is used: for how many times now. -/
def use (decorator : Nat) (s : Stage) : Nat × Stage :=
  let n := s.uses.getD decorator 0 + 1
  (n, { s with uses := s.uses.set decorator n })

end Stage

end TrialRouting.Rehearsal
