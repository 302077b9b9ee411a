import Rewind.Console
import Rewind.Failure

/-!
How the program ends: with a code and, unless all went well, with a message for whoever started it.
-/
namespace Rewind

structure Exit where
  code : Nat
  message : Option String
  deriving DecidableEq, Repr

namespace Exit

def success : Exit := ⟨0, none⟩

/-- The code of a program whose command line or surroundings cannot be used. -/
def usageCode : Nat := 1

def usage (message : String) : Exit := ⟨usageCode, some message⟩

/-- The code of a program that could not set up what it needs. -/
def setupCode : Nat := 2

/-- The code of a run that stopped early or had iterations that failed. -/
def runCode : Nat := 3

def ofFailure (code : Nat) (cause : Failure) : Exit := ⟨code, some cause.exitMessage⟩

def complaint (e : Exit) : String :=
  match e.message with
  | some message => s!"snapbench: {message}\n"
  | none => ""

/-- Print a text as the last thing before going on to end. A console that takes no more ends the
program with the code given. -/
def afterPrinting (text : String) (code : Nat) (next : Exit) (c : Console) : Exit × Console :=
  match c.print? text with
  | some c => (next, c)
  | none => (⟨code, some (Errno.systemMessage 28)⟩, c)

end Rewind.Exit
