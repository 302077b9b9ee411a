import Rewind.Text.Blank
import Rewind.Text.Lines

/-!
Levels of log records and the choice of levels by module. A specification lists pairs such as
`monitor:debug` between commas; the module `all` stands for every module without a pair of its own,
and of two pairs for one module the later counts.
-/
namespace Rewind.Log

/-- How urgent a record is, the most urgent first. -/
inductive Level where
  | fatal
  | error
  | warn
  | info
  | debug
  deriving DecidableEq, Repr

namespace Level

def rank : Level → Nat
  | fatal => 0
  | error => 1
  | warn => 2
  | info => 3
  | debug => 4

def name : Level → String
  | fatal => "FATAL"
  | error => "ERROR"
  | warn => "WARN"
  | info => "INFO"
  | debug => "DEBUG"

/-- The level that a word in a specification means; any other word means warnings. -/
def ofWord : String → Level
  | "fatal" => fatal
  | "error" => error
  | "info" => info
  | "debug" => debug
  | _ => warn

end Level

/-- The level up to which each module writes. -/
structure Levels where
  fallback : Level
  modules : List (String × Level)
  deriving DecidableEq, Repr

namespace Levels

def standard : Levels := ⟨.warn, []⟩

/-- One pair of a specification; text without a colon is passed over. -/
def readPair (levels : Levels) (pair : List Char) : Levels :=
  match Text.fields ':' 2 pair with
  | [key, word] =>
    let key := String.ofList (Text.trim key)
    let level := Level.ofWord (String.ofList (Text.trim word))
    if key = "all" then { levels with fallback := level }
    else { levels with modules := (levels.modules.filter (·.1 ≠ key)) ++ [(key, level)] }
  | _ => levels

def pairs (s : List Char) : List (List Char) := Text.fields ',' (s.length + 1) s

def read (s : String) : Levels := (pairs s.toList).foldl readPair standard

def of (levels : Levels) (module : String) : Level :=
  ((levels.modules.find? fun entry => entry.1 = module).map (·.2)).getD levels.fallback

def writes (levels : Levels) (level : Level) (module : String) : Bool :=
  level.rank ≤ (levels.of module).rank

end Rewind.Log.Levels
