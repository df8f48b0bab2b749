import TrialRouting.CommandLine.Options
import TrialRouting.Config.Written
import TrialRouting.Simulation
import TrialRouting.Spread

/-!
# TrialRouting.CommandLine

The command line: `simulate` runs a simulation, `sticky` shows how sticky routing spreads
identities, and `config` shows the settings in effect. `read` finds out what is asked for,
`Command.answer` does it.

An answer is an exit code with what is printed. Misuse ends with the code two and prints nothing to
the standard output, any other error with the code one.
-/

namespace TrialRouting.CommandLine

/-! ## Values -/

/-- A natural number of 64 bits in decimal digits, with an optional plus sign. -/
def natural? (s : String) : Option UInt64 :=
  let digits := match s.toList with
    | '+' :: rest => rest
    | cs => cs
  if digits.isEmpty || digits.any (!·.isDigit) then none
  else
    let n := Binary64.digitsValue digits
    if n < UInt64.size then some (.ofNat n) else none

/-- The policies by the names that the command line has for them. -/
def policies : List (String × ErrorPolicy) :=
  [("throw", .throw), ("default", .replayDefault), ("any", .replayAny),
   ("ordered", .replayOrdered [⟨"one_click"⟩, ⟨"control"⟩])]

def routings : List (String × Simulation.Routing) :=
  [("random", .random), ("sticky", .sticky)]

/-! ## Commands -/

/-- What is asked for. -/
inductive Command where
  | nothing
  | simulate (settings : Simulation.Settings) (json : Bool)
  | sticky (identities variants : UInt64) (json : Bool)
  | config
  deriving Inhabited

/-- A command, and the path of the settings that it is to use. -/
structure Request where
  command : Command
  configPath : Option String
  verbose : Bool
  deriving Inhabited

def naturalValue : Shape :=
  .value fun s => (natural? s).isSome

def oneOf (names : List String) : Shape :=
  .value names.contains

/-- A path is any text but the empty one. -/
def pathValue : Shape :=
  .value (!·.isEmpty)

/-- Switches that every command has. -/
def commonGrammar : Grammar :=
  [("verbose", .switch), ("help", .switch)]

/-- The options before the command. -/
def rootGrammar : Grammar :=
  ("version", .switch) :: commonGrammar

def simulateGrammar : Grammar :=
  [("requests", naturalValue), ("scopes", naturalValue),
   ("failure-rate", .value fun s => (Binary64.parse? s).isSome),
   ("policy", oneOf (policies.map (·.1))), ("selection", oneOf (routings.map (·.1))),
   ("seed", naturalValue), ("config", pathValue), ("json", .switch)] ++ commonGrammar

def stickyGrammar : Grammar :=
  [("identities", naturalValue), ("variants", naturalValue), ("json", .switch)] ++ commonGrammar

def configGrammar : Grammar :=
  ("config", pathValue) :: commonGrammar

namespace Given

/-- The value of an option as `parse?` reads it, or a default. -/
def getD {α : Type} (g : Given) (name : String) (parse? : String → Option α) (default : α) : α :=
  ((g.lookup name).bind parse?).getD default

def has (g : Given) (name : String) : Bool :=
  (g.lookup name).isSome

end Given

/-- A simulation with the options given; the settings of the dispatcher are read later. -/
def simulateCommand (g : Given) : Command :=
  let default : Simulation.Settings := {}
  .simulate
    { seed := g.getD "seed" natural? default.seed
      requests := g.getD "requests" natural? default.requests
      scopes := g.getD "scopes" natural? default.scopes
      failureRate := g.getD "failure-rate" Binary64.parse? default.failureRate
      policy := g.getD "policy" (fun name => policies.lookup name) default.policy
      routing := g.getD "selection" (fun name => routings.lookup name) default.routing }
    (g.has "json")

def stickyCommand (g : Given) : Command :=
  .sticky (g.getD "identities" natural? 10000) (g.getD "variants" natural? 2) (g.has "json")

/-- Reads the options of a command, after which nothing may follow. -/
def readCommand (grammar : Grammar) (command : Given → Command) (verbose : Bool)
    (args : List String) : Except Halt Request := do
  let (g, rest) ← readOptions grammar [] args
  if !rest.isEmpty then throw .misuse
  return ⟨command g, g.lookup "config", verbose || g.has "verbose"⟩

/-- The grammar and the meaning of each command. -/
def commands : List (String × Grammar × (Given → Command)) :=
  [("simulate", simulateGrammar, simulateCommand), ("sticky", stickyGrammar, stickyCommand),
   ("config", configGrammar, fun _ => .config)]

/-- Asking for help on commands: nothing else can be asked for, and only on commands there are. -/
def readHelp (topics : List String) : Halt :=
  match topics with
  | [] => .help
  | [topic] => if topic = "help" || (commands.lookup topic).isSome then .help else .misuse
  | _ => .misuse

/-- Reads a command line. A command line without anything is misuse. -/
def read (args : List String) : Except Halt Request := do
  let (g, rest) ← readOptions rootGrammar [] args
  match rest with
  | [] => if g.isEmpty then .error .misuse else return ⟨.nothing, none, g.has "verbose"⟩
  | name :: args =>
    match commands.lookup name with
    | some (grammar, command) => readCommand grammar command (g.has "verbose") args
    | none => .error (if name = "help" then readHelp args else .misuse)

/-! ## Answers -/

/-- An exit code, what is printed, and the error if there is one. -/
structure Answer where
  exit : Nat
  output : String
  error : Option String
  deriving Inhabited

namespace Answer

def printed (output : String) : Answer :=
  ⟨0, output ++ "\n", none⟩

def failed (message : String) : Answer :=
  ⟨1, "", some s!"Error: {message}"⟩

end Answer

def versionText : String :=
  "trialswitch 0.1.0"

/-- How the program is used. -/
def usage : String :=
  "Usage: trialswitch [--verbose] <simulate|sticky|config> [options]"

/-- The answer to a command line that is not followed. -/
def Halt.answer : Halt → Answer
  | .misuse => { exit := 2, output := "", error := some usage }
  | .help => .printed usage
  | .version => .printed versionText

/-- Does what is asked for, with the settings that were read. -/
def Command.answer (config : Config) : Command → Answer
  | .nothing => ⟨0, "", none⟩
  | .simulate settings json =>
    match Simulation.run { settings with dispatch := config } with
    | .error e => .failed e.message
    | .ok found =>
      .printed (if json then found.report.document.pretty else found.report.text)
  | .sticky identities variants json =>
    match Spread.run identities.toNat variants.toNat with
    | .error e => .failed e.message
    | .ok s =>
      let output := if json then s.document.pretty ++ "\n" else s.text
      if s.stable then ⟨0, output, none⟩
      else ⟨1, output, some "Error: sticky assignment changed between passes"⟩
  | .config => .printed config.encode.pretty

/-- The settings of a request; `file?` is the text of its file, none if it cannot be read. -/
def Request.config? (r : Request) (file? : Option String) : Option Config :=
  match r.configPath with
  | none => some {}
  | some _ =>
    match file?.map Config.ofToml with
    | some (.ok config) => some config
    | _ => none

/-- The answer to a request, with the text of its file if it names one that can be read. -/
def Request.answer (r : Request) (file? : Option String) : Answer :=
  match r.config? file? with
  | some config => r.command.answer config
  | none => .failed ("loading " ++ r.configPath.getD "")

end TrialRouting.CommandLine
