import Rewind.CommandLine.Options
import Rewind.Demo.Catalog
import Rewind.Exit
import Rewind.Report.Basic

/-!
The benchmark that a command line asks for. The routine and its data are built before the harness
is, so they belong to the memory that every iteration starts from; the report comes after the
regions are given up again. What a quiet routine prints is lost.
-/
namespace Rewind

/-- What a benchmark finds around it. -/
structure Surroundings where
  /-- The regions that are found in a memory. -/
  regions : Memory → Outcome Failure (List Region)
  processors : Nat
  /-- Where data of so many bytes comes to lie. -/
  place : Nat → Nat
  /-- How long each iteration takes. -/
  clock : Nat → Duration

structure Benchmark extends Harness where
  console : Console

namespace Benchmark

abbrev Op := Act Benchmark Stop

def harness : Part Benchmark Harness where
  split := fun ⟨harness, console⟩ => (harness, (⟨·, console⟩))

/-- The most processors that can be told apart. -/
def processorLimit : Nat := 1024

def pin (s : Surroundings) (n : Nat) : Act Machine Exit Unit := do
  let refuse (why : String) : Act Machine Exit Unit :=
    Act.fail (.usage s!"cannot pin to cpu {n}: {why}")
  if processorLimit ≤ n then refuse Errno.inval.message
  else if s.processors ≤ n then refuse (Errno.systemMessage 22)
  else Machine.log .debug .benchmark s!"pinned to cpu {n}"

def settle (memory : Memory) (demo : Demo) (place : Nat) : Memory :=
  let image := demo.image
  (memory.lay place image.size .readWrite .anonymous).write place image

/-- Build the routine and set up a harness over the regions that are there. -/
def setUp (o : CommandLine.Options) (name : String) (args : List String) (s : Surroundings) :
    Act Machine Exit (Demo × Harness) := do
  o.cpu.forM (pin s)
  let demo ← (Demo.build name args).mapError fun e => Exit.usage e.message
  modify fun m => { m with memory := settle m.memory demo (s.place demo.image.size) }
  let regions := s.regions (← get).memory
  let harness ← (Harness.new o.config Policy.empty regions).mapError
    (Exit.ofFailure Exit.setupCode)
  return (demo, harness)

/-- Run the routine, which prints on the console unless it is kept quiet. -/
def measure (o : CommandLine.Options) (args : List String) (target : Target Console)
    (clock : Nat → Duration) : Op Series := do
  let console := (← get).console
  let stage := if o.quiet then .blank else console
  let (series, stage) ← (Harness.run target args clock o.iterations stage).focus harness
  modify fun b => { b with console := if o.quiet then console else stage }
  return series

/-- How a program ends that has made its report. -/
def verdict (series : Series) (teardown : Option Failure) : Exit :=
  match teardown.or series.aborted with
  | some cause => .ofFailure Exit.runCode cause
  | none =>
    if series.failures = 0 then .success
    else ⟨Exit.runCode,
      some s!"{series.failures} of {series.samples.length} iteration(s) failed"⟩

def conclude (o : CommandLine.Options) (name : String) (series : Series)
    (teardown : Option Failure) : Op Exit := do
  let report ← Report.new name series
  let text := if o.json then report.json else report.text
  let (exit, console) :=
    Exit.afterPrinting text Exit.runCode (verdict series teardown) (← get).console
  modify fun b => { b with console := console }
  return exit

/-- Everything from the first touch on the regions to the end. -/
def perform (o : CommandLine.Options) (name : String) (args : List String)
    (target : Target Console) (clock : Nat → Duration) : Op Exit := do
  (Harness.normalize Normalization.unhindered).focus harness
  Harness.arm.focus harness
  let count := (← get).monitored.length
  (Harness.onWatch (Watch.onMachine (Machine.log .info .benchmark
    s!"running `{name}` {o.iterations} time(s) over {count} region(s)"))).focus harness
  let series ← Stop.attempt (measure o args target clock)
  let teardown ← Stop.failureOf (Harness.teardown.focus harness)
  match series with
  | .ok series => conclude o name series teardown
  | .error cause => Act.fail (.failure cause)

/-- Let go of the harness once an operation is over, unless the process is. -/
def closing {α : Type} (act : Op α) : Op α := Act.ofFunction fun b =>
  match act.on b with
  | (.error (.error (.halt cause)), b) => (.error (.error (.halt cause)), b)
  | (result, b) =>
    match (Harness.close.focus harness).on b with
    | (.ok _, b) => (result, b)
    | (.error cause, b) => (.error cause, b)

/-- What is left of a benchmark. -/
structure Remains where
  /-- How the program ended, or what ended the process instead. -/
  exit : Outcome Halt Exit
  journal : Log.Journal
  console : Console

/-- A failure that is not reported on ends the program before the run. -/
def exitOf : Outcome Stop Exit → Outcome Halt Exit
  | .ok exit => .ok exit
  | .error (.error (.failure cause)) => .ok (.ofFailure Exit.setupCode cause)
  | .error (.error (.halt cause)) => .error (.error cause)
  | .error (.fault cause) => .error (.fault cause)

/-- Run the benchmark that a command line asks for. -/
def run (o : CommandLine.Options) (s : Surroundings) (console : Console) (m : Machine) :
    Remains :=
  match o.command with
  | .run name args =>
    match (setUp o name args s).on m with
    | (.ok (demo, harness), _) =>
      let target := demo.target (s.place demo.image.size)
      let (result, b) := (closing (perform o name args target s.clock)).on ⟨harness, console⟩
      ⟨exitOf result, b.journal, b.console⟩
    | (.error (.error exit), m) => ⟨.ok exit, m.journal, console⟩
    | (.error (.fault cause), m) => ⟨.error (.fault cause), m.journal, console⟩
  | _ => ⟨.error (.fault .notARun), m.journal, console⟩

end Rewind.Benchmark
