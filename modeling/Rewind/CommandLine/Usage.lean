import Rewind.Size

/-!
What can be wrong with a command line. Asking for help or for the version is among it: either ends
the reading of the line.
-/
namespace Rewind.CommandLine

/-- Options that take a value. -/
inductive Setting where
  | iterations
  | cpu
  | targetStackSize
  | armTimeout
  deriving DecidableEq, Repr

def Setting.name : Setting → String
  | .iterations => "iterations"
  | .cpu => "cpu"
  | .targetStackSize => "target-stack-size"
  | .armTimeout => "arm-timeout-ms"

/-- Options that are on or off. -/
inductive Switch where
  | verifyRestore
  | noRearm
  | quietTarget
  | json
  deriving DecidableEq, Repr

def Switch.name : Switch → String
  | .verifyRestore => "verify-restore"
  | .noRearm => "no-rearm"
  | .quietTarget => "quiet-target"
  | .json => "json"

inductive UsageError where
  | helpAsked
  | versionAsked
  | unknownArgument
  /-- Help was asked on a subcommand that does not exist. -/
  | unknownSubcommand
  /-- A stray word resembles a subcommand. -/
  | misspeltSubcommand
  | missingSubcommand
  | missingTarget
  | repeated
  | invalidValue (setting : Setting) (cause : String)
  deriving DecidableEq, Repr

/-- The text that goes with a value that cannot be read. -/
def UsageError.message? : UsageError → Option String
  | .invalidValue s cause => some s!"error: Invalid value for '--{s.name} <{s.name}>': {cause}"
  | _ => none

end Rewind.CommandLine
