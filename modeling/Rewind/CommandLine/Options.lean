import Rewind.CommandLine.Line
import Rewind.Harness

/-!
The options of a command line as values. The grammar of the whole line is settled before any value
is looked at; then every option has readable values, and is given once at most.
-/
namespace Rewind.CommandLine

structure Options where
  iterations : Nat
  cpu : Option Nat
  targetStack : Nat
  /-- Milliseconds to wait until all regions are guarded. -/
  armTimeout : Nat
  verify : Bool
  noRearm : Bool
  quiet : Bool
  json : Bool
  command : Command
  deriving DecidableEq, Repr

def Setting.read (s : Setting) (text : String) : Except UsageError Nat :=
  if s = .targetStackSize then
    (Size.read text).mapError fun e => .invalidValue s e.message
  else
    (Text.Numeral.read 10 Word.limit text.toList).mapError fun e => .invalidValue s e.message

namespace Given

/-- The number that an option was given, if any. -/
def number? (g : Given) (s : Setting) : Except UsageError (Option Nat) := do
  let numbers ← (g.values.filter (·.1 = s)).mapM fun entry => s.read entry.2
  if 1 < g.settings.count s then throw .repeated
  return numbers.head?

def isOn (g : Given) (s : Switch) : Except UsageError Bool :=
  if 1 < g.switches.count s then .error .repeated else .ok (s ∈ g.switches)

end Given

namespace Options

def read (args : List String) : Except UsageError Options := do
  let (g, command) ← readLine args
  return {
    iterations := (← g.number? .iterations).getD 10
    cpu := ← g.number? .cpu
    targetStack := (← g.number? .targetStackSize).getD (8 * 1024 * 1024)
    armTimeout := (← g.number? .armTimeout).getD 5000
    verify := ← g.isOn .verifyRestore
    noRearm := ← g.isOn .noRearm
    quiet := ← g.isOn .quietTarget
    json := ← g.isOn .json
    command }

def config (o : Options) : Harness.Config :=
  { Harness.Config.standard with
    targetStack := o.targetStack, armTimeout := .ofMillis o.armTimeout, verify := o.verify
    rearm := !o.noRearm }

end Rewind.CommandLine.Options
