/-!
# TrialRouting.CommandLine.Options

Options on a command line. An option has a long name; a switch stands alone, and any other option
takes a value, either after an equals sign or as the next argument. As an argument of its own a
value must not look like an option. Every option may be given once.

Reading stops at the first word that is no option; two hyphens end the options.
-/

namespace TrialRouting.CommandLine

/-- Whether an option takes a value, and which ones it accepts. -/
inductive Shape where
  | switch
  | value (accepts : String → Bool)

/-- The options of a command by their long names. -/
abbrev Grammar := List (String × Shape)

/-- The options that were given, with their values. -/
abbrev Given := List (String × String)

/-- Why a command line is not followed. -/
inductive Halt where
  | misuse
  | help
  | version
  deriving DecidableEq, Repr

/-! ## Arguments -/

/-- What an argument is by its form. -/
inductive Argument where
  | terminator
  | long (name : String) (attached : Option String)
  | short (letters : List Char)
  | word
  deriving DecidableEq, Repr

namespace Argument

/-- A single hyphen is a word. -/
def of (arg : String) : Argument :=
  match arg.toList with
  | ['-', '-'] => .terminator
  | '-' :: '-' :: cs =>
    let attached := match cs.dropWhile (· != '=') with
      | _ :: value => some (String.ofList value)
      | [] => none
    .long (String.ofList (cs.takeWhile (· != '='))) attached
  | '-' :: c :: cs => .short (c :: cs)
  | _ => .word

end Argument

/-! ## Reading -/

/-- Notes an option; none may be given twice. -/
def Given.add (g : Given) (name value : String) : Except Halt Given :=
  if g.any (·.1 == name) then .error .misuse else .ok (g ++ [(name, value)])

/-- The long name of a switch with one letter. -/
def letterName (c : Char) : Option String :=
  if c = 'v' then some "verbose"
  else if c = 'V' then some "version"
  else if c = 'h' then some "help"
  else none

/-- Notes a switch. Two of them end the reading at once. -/
def Given.addSwitch (grammar : Grammar) (g : Given) (name : String) : Except Halt Given :=
  match grammar.lookup name with
  | some .switch =>
    if name = "help" then .error .help
    else if name = "version" then .error .version
    else g.add name ""
  | _ => .error .misuse

/-- Notes an option with its value. -/
def Given.addValue (accepts : String → Bool) (g : Given) (name value : String) :
    Except Halt Given :=
  if accepts value then g.add name value else .error .misuse

/-- Reads options up to the first word: those given, and the arguments from that word on. -/
def readOptions (grammar : Grammar) : Given → List String → Except Halt (Given × List String)
  | g, [] => .ok (g, [])
  | g, arg :: rest =>
    match Argument.of arg with
    | .word => .ok (g, arg :: rest)
    | .terminator => if rest.isEmpty then .ok (g, []) else .error .misuse
    | .short letters => do
      let names := letters.map letterName
      let g ← names.foldlM (fun g name => g.addSwitch grammar (name.getD "")) g
      readOptions grammar g rest
    | .long name attached =>
      match grammar.lookup name, attached with
      | some (.value accepts), some value => do
        readOptions grammar (← g.addValue accepts name value) rest
      | some (.value accepts), none =>
        match rest with
        | value :: rest =>
          if Argument.of value = .word then do
            readOptions grammar (← g.addValue accepts name value) rest
          else .error .misuse
        | [] => .error .misuse
      | some .switch, none => do readOptions grammar (← g.addSwitch grammar name) rest
      | _, _ => .error .misuse

end TrialRouting.CommandLine
