import Rewind.Policy
import Rewind.Schedule.Run
import Rewind.Watch.Arming

/-!
The harness and its lifecycle: it is constructed over the regions of a catalog, normalizes them,
arms the monitor, runs routines as often as wanted, and is torn down. Each step is taken in its own
state only and is refused in any other; teardown is possible always and happens once.
-/
namespace Rewind

namespace Harness

structure Config where
  /-- Usable bytes of the stack on which routines run. -/
  targetStack : Nat
  monitorStack : Nat
  armTimeout : Duration
  drainTimeout : Duration
  /-- Compare checksums after every iteration. -/
  verify : Bool
  /-- Guard captured pages again after each iteration. -/
  rearm : Bool
  /-- Captures to make room for in advance. -/
  reservePages : Nat
  deriving DecidableEq, Repr

def Config.standard : Config where
  targetStack := 8 * 1024 * 1024
  monitorStack := 256 * 1024
  armTimeout := .ofMillis 5000
  drainTimeout := .ofMillis 1000
  verify := false
  rearm := true
  reservePages := 256

def Config.options (c : Config) : Scheduler.Options := ⟨c.drainTimeout, c.rearm, c.verify⟩

inductive Lifecycle where
  | constructed
  | normalized
  | armed
  | tornDown
  deriving DecidableEq, Repr

def Lifecycle.text : Lifecycle → String
  | .constructed => "constructed"
  | .normalized => "normalized"
  | .armed => "armed"
  | .tornDown => "torn down"

end Harness

open Harness

structure Harness extends Watch where
  config : Config
  lifecycle : Lifecycle
  classified : List (Region × Verdict)
  monitored : List Region
  /-- The slots of the monitored regions, in order. -/
  table : PrivateArray Slot 24
  scheduler : Scheduler

namespace Harness

/-- Operations of a harness. -/
abbrev Op := Act Harness Stop

def watch : Part Harness Watch where
  split := fun ⟨watch, config, lifecycle, classified, monitored, table, scheduler⟩ =>
    (watch, (⟨·, config, lifecycle, classified, monitored, table, scheduler⟩))

def onWatch {α : Type} (act : Watch.Op α) : Op α := act.focus watch

def log (level : Log.Level) (text : String) : Op Unit :=
  onWatch (Watch.onMachine (Machine.log level .harness text))

def fillTable (slots : List Slot) : Outcome Failure (PrivateArray Slot 24) := do
  let table ← (PrivateArray.withCapacity Mapping.refusal 256).mapError Failure.privateMemory
  match (PrivateArray.pushAll Mapping.refusal slots).on table with
  | (.ok _, table) => return table
  | (.error e, _) => Outcome.mapError Failure.privateMemory (.error e)

/-- Set up a harness over a catalog. Everything private is mapped before the catalog is read, so
that the policy can exclude it. The policy comes from outside: where the private mappings, the stack
and the code of the process itself lie is not part of this machine. -/
def new (config : Config) (policy : Policy) (catalog : Outcome Failure (List Region)) :
    Act Machine Failure Harness := do
  let channel ← Tracking.Channel.negotiate
  let monitor ← Monitor.new channel config.monitorStack
  let (reserved, snapshot) :=
    (Snapshot.reserve Mapping.refusal config.reservePages).on monitor.snapshot
  Outcome.mapError Failure.privateMemory reserved
  let scheduler ← Scheduler.new config.targetStack
  let regions ← catalog
  let classified ← policy.classify regions
  let monitored := Policy.monitoredOf classified
  let table ← fillTable (monitored.map Region.slot)
  classified.forM fun piece =>
    Machine.log .debug .harness s!"{piece.1.line}: {piece.2.text}"
  Machine.log .info .harness (s!"{monitored.length} of {classified.length} region piece(s) "
    ++ "selected for monitoring")
  return {
    toMachine := ← get, monitor := { monitor with snapshot := snapshot }, config
    lifecycle := .constructed, classified, monitored, table, scheduler }

/-- Refuse to go on in any state but the expected one. -/
def expect (expected : Lifecycle) : Op Unit := do
  let actual := (← get).lifecycle
  if actual ≠ expected then Act.fail (.failure (.lifecycle expected.text actual.text))

def enter (next : Lifecycle) : Op Unit := modify fun h => { h with lifecycle := next }

/-- Turn the monitored regions into private memory. -/
def normalize (plan : Normalization.Plan) : Op Unit := do
  expect .constructed
  let h ← get
  onWatch (Watch.onMachine (Machine.normalize plan h.table.items.toList h.monitored))
  enter .normalized

def arm : Op Unit := do
  expect .normalized
  let h ← get
  onWatch (Watch.arm h.table.items.toList h.config.armTimeout)
  enter .armed

/-- Run a routine `n` times from the state `subject`; the series and the state it ends in. -/
def run {σ : Type} (target : Target σ) (args : List String) (clock : Nat → Duration) (n : Nat)
    (subject : σ) : Op (Series × σ) := do
  expect .armed
  let series ← Act.ofFunction
    fun ⟨watch, config, lifecycle, classified, monitored, table, scheduler⟩ =>
      let act := Bench.run config.options target args table.items.toList clock n
      let (result, ⟨watch, scheduler, subject⟩) := act.on ⟨watch, scheduler, subject⟩
      (result.map (·, subject),
        ⟨watch, config, lifecycle, classified, monitored, table, scheduler⟩)
  match series.1.aborted with
  | some cause =>
    log .error s!"run aborted after {series.1.samples.length} iteration(s): {cause.message}"
  | none => pure ()
  return series

/-- Give up all regions and stop the monitor, once. -/
def teardown : Op Unit := do
  if (← get).lifecycle ≠ .tornDown then
    enter .tornDown
    onWatch Watch.teardown

/-- Let go of the harness. What goes wrong is only entered in the journal. -/
def close : Op Unit := do
  match ← Stop.failureOf teardown with
  | some cause => log .error s!"teardown failed: {cause.message}"
  | none => pure ()
  onWatch Watch.close

end Rewind.Harness
