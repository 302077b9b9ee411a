import Rewind.CommandLine.Usage
import Rewind.Text.Lines
import Rewind.Text.Similarity

/-!
The grammar of the command line: options, then a subcommand, then its arguments. A word that starts
with a dash and is longer is an option wherever options are possible, and never the value of one.
After a lone `--`, and after the first argument of a routine, every word stands for itself.
-/
namespace Rewind.CommandLine

inductive Command where
  | run (target : String) (args : List String)
  | maps
  | targets
  deriving DecidableEq, Repr

/-- What the options on a line say, in their order. -/
structure Given where
  settings : List Setting
  values : List (Setting × String)
  switches : List Switch
  deriving DecidableEq, Repr

namespace Given

def none : Given := ⟨[], [], []⟩

def mention (g : Given) (s : Setting) : Given := { g with settings := g.settings ++ [s] }

def value (g : Given) (s : Setting) (text : String) : Given :=
  { g with values := g.values ++ [(s, text)] }

def turnOn (g : Given) (s : Switch) : Given := { g with switches := g.switches ++ [s] }

end Given

def isOption (word : String) : Bool :=
  match word.toList with
  | '-' :: _ :: _ => true
  | _ => false

def settingNamed? (name : String) : Option Setting :=
  [Setting.iterations, .cpu, .targetStackSize, .armTimeout].find? (·.name == name)

def switchNamed? (name : String) : Option Switch :=
  [Switch.verifyRestore, .noRearm, .quietTarget, .json].find? (·.name == name)

/-- The name in a long option, and the value behind its equals sign. -/
def splitLong (word : List Char) : String × Option String :=
  match Text.fields '=' 2 (word.dropWhile (· = '-')) with
  | [name, value] => (String.ofList name, some (String.ofList (value.dropWhile (· = '='))))
  | parts => (String.ofList parts.flatten, .none)

/-- Questions that every command answers by long name. -/
def asked : String → UsageError
  | "help" => .helpAsked
  | "version" => .versionAsked
  | _ => .unknownArgument

/-- Questions that every command answers by letter. -/
def askedLetter : Char → UsageError
  | 'h' => .helpAsked
  | 'V' => .versionAsked
  | _ => .unknownArgument

/-- Take up options, with the one that still waits for its value. -/
abbrev Reading := Except UsageError (Given × Option Setting)

def readLong (g : Given) (word : List Char) : Reading :=
  let (name, value) := splitLong word
  match settingNamed? name, value with
  | some s, some text => .ok ((g.mention s).value s text, .none)
  | some s, .none => .ok (g.mention s, some s)
  | .none, _ =>
    match switchNamed? name with
    | some s => .ok (g.turnOn s, .none)
    | .none => .error (asked name)

/-- Letters after one dash. The letter of an option with a value takes the rest of the word. -/
def readLetters (g : Given) : List Char → Reading
  | [] => .ok (g, .none)
  | 'q' :: rest => readLetters (g.turnOn .quietTarget) rest
  | 'n' :: [] => .ok (g.mention .iterations, some .iterations)
  | 'n' :: rest =>
    let text := String.ofList (rest.dropWhile (· = '='))
    .ok ((g.mention .iterations).value .iterations text, .none)
  | c :: _ => .error (askedLetter c)

def readOption (g : Given) (word : String) : Reading :=
  match word.toList with
  | '-' :: '-' :: rest => readLong g rest
  | '-' :: letters => readLetters g letters
  | _ => .error .unknownArgument

/-- What an option of a subcommand asks; subcommands have no others. -/
def askedOf (word : String) : UsageError :=
  match word.toList with
  | '-' :: '-' :: rest => asked (splitLong rest).1
  | '-' :: c :: _ => askedLetter c
  | _ => .unknownArgument

/-- The arguments of a subcommand that takes none. -/
def readNothing : List String → Except UsageError Unit
  | [] => .ok ()
  | ["--"] => .ok ()
  | "--" :: _ => .error .unknownArgument
  | word :: _ => .error (if isOption word then askedOf word else .unknownArgument)

/-- The arguments of a routine: one mark in front of them is dropped. -/
def readArguments : List String → Except UsageError (List String)
  | [] => .ok []
  | "--" :: rest => .ok rest
  | word :: rest => if isOption word then .error (askedOf word) else .ok (word :: rest)

def readRun : List String → Except UsageError Command
  | [] => .error .missingTarget
  | ["--"] => .error .missingTarget
  | "--" :: target :: args => .ok (.run target args)
  | target :: rest =>
    if isOption target then .error (askedOf target)
    else do return .run target (← readArguments rest)

def subcommandNames : List String := ["run", "maps", "targets", "help"]

/-- What follows a request for help: nothing, or one subcommand. -/
def readHelp : List String → UsageError
  | [] => .helpAsked
  | [name] => if name ∈ subcommandNames then .helpAsked else .unknownSubcommand
  | _ => .unknownSubcommand

def stray (word : String) : UsageError :=
  if subcommandNames.any fun name => Text.resembles word.toList name.toList
  then .misspeltSubcommand else .unknownArgument

def readCommand (word : String) (rest : List String) : Except UsageError Command :=
  match word with
  | "run" => readRun rest
  | "maps" => do
    readNothing rest
    return .maps
  | "targets" => do
    readNothing rest
    return .targets
  | "help" => .error (readHelp rest)
  | _ => .error (stray word)

/-- Read a line on, where the option `waiting` may still get its value. -/
def readFrom (g : Given) (waiting : Option Setting) :
    List String → Except UsageError (Given × Command)
  | [] => .error .missingSubcommand
  | "--" :: [] => .error .missingSubcommand
  | "--" :: word :: _ => .error (stray word)
  | word :: rest =>
    if isOption word then
      match readOption g word with
      | .ok (g, waiting) => readFrom g waiting rest
      | .error e => .error e
    else
      match waiting with
      | some s => readFrom (g.value s word) .none rest
      | .none => (readCommand word rest).map (g, ·)

def readLine (args : List String) : Except UsageError (Given × Command) :=
  readFrom .none .none args

end Rewind.CommandLine
