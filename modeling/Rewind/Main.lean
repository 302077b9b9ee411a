import Rewind.Benchmark
import Rewind.CommandLine.Help
import Rewind.CommandLine.Listings
import Rewind.Maps.File
import Rewind.Maps.Present

/-!
The program. Benchmarks run on a machine of their own, whose memory holds the data of the routine
and nothing else; maps are those of the program itself.
-/
namespace Rewind.Main

def place : Nat := 0x100000000000

def surroundings : Surroundings where
  regions memory := Outcome.ofFaulty memory.regions
  processors := 1
  place _ := place
  clock _ := .zero

def finish (exit : Exit) (console : Console) : IO UInt32 := do
  IO.print console.printed
  IO.eprint exit.complaint
  return UInt32.ofNat exit.code

def giveUp (why : String) : IO UInt32 := do
  IO.eprintln why
  return 101

def benchmark (o : CommandLine.Options) : IO UInt32 := do
  let levels := (← IO.getEnv "SNAPBENCH_LOG").elim Log.Levels.standard Log.Levels.read
  let remains := Benchmark.run o surroundings .blank (Machine.start .empty [])
  for record in remains.journal.shown levels do
    IO.eprint record.line
  match remains.exit with
  | .ok exit => finish exit remains.console
  | .error (.fault cause) => giveUp cause.message
  | .error (.error _) => giveUp "the process ended"

/-- The stack and the code that the program itself needs, by their first addresses. -/
def policyFor (regions : List Region) : Policy :=
  let first (p : Region → Bool) := ((regions.find? p).map Region.start).getD 0
  CommandLine.ownPolicy (first Region.isStack) (first fun r => r.access.executable)

def maps (json : Bool) : IO UInt32 := do
  let bytes ← IO.FS.readBinFile "/proc/self/maps"
  let regions := Maps.readFound "/proc/self/maps" (.content bytes.toList)
  let policy := (regions.toOption.map policyFor).getD .empty
  match CommandLine.listRegions json policy regions .blank with
  | .ok (exit, console) => finish exit console
  | .error cause => giveUp cause.message

def run (args : List String) : IO UInt32 := do
  match CommandLine.Options.read args with
  | .error .helpAsked => finish .success ⟨false, CommandLine.help⟩
  | .error .versionAsked => finish .success ⟨false, CommandLine.version⟩
  | .error cause => do
    IO.eprint cause.complaint
    return 1
  | .ok o =>
    match o.command with
    | .run .. => benchmark o
    | .maps => maps o.json
    | .targets =>
      let (exit, console) := CommandLine.listTargets .blank
      finish exit console

end Rewind.Main

/-- Run the program on the words after its name. -/
def main (args : List String) : IO UInt32 := Rewind.Main.run args
