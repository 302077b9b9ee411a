import Rewind.Context
import Rewind.Schedule.Checksums
import Rewind.Schedule.Sample
import Rewind.Watch.Restore

/-!
The iteration loop. Every iteration calls the routine, waits for the last fault, writes back what
the routine changed and records a sample; with verification on, the checksums of the start are then
compared. The first failure of the harness ends the run, and the samples before it are kept.
-/
namespace Rewind

/-- The context that iterations run in and the tables that they fill. -/
structure Scheduler where
  context : Context
  samples : PrivateArray Sample 32
  checksums : Checksums

namespace Scheduler

/-- A scheduler whose routines get a stack of this size. -/
def new (stackSize : Nat) : Outcome Failure Scheduler := do
  return ⟨← Context.new stackSize, .empty, .empty⟩

structure Options where
  drainTimeout : Duration
  rearm : Bool
  verify : Bool
  deriving DecidableEq, Repr

end Scheduler

/-- A watched machine with a scheduler and the routine's own state. -/
structure Bench (σ : Type) extends Watch where
  scheduler : Scheduler
  subject : σ

namespace Bench

variable {σ : Type} [Digest]

/-- Operations of a bench. -/
abbrev Op (σ : Type) := Act (Bench σ) Stop

def watch : Part (Bench σ) Watch where
  split := fun ⟨watch, scheduler, subject⟩ => (watch, (⟨·, scheduler, subject⟩))

def sampleTable : Part (Bench σ) (PrivateArray Sample 32) where
  split b := (b.scheduler.samples, fun t => { b with scheduler := { b.scheduler with samples := t } })

def checksumTable : Part (Bench σ) Checksums where
  split b :=
    (b.scheduler.checksums, fun t => { b with scheduler := { b.scheduler with checksums := t } })

/-- Work on a private table, which may not get the memory that it needs. -/
def onTable {τ α : Type} (part : Part (Bench σ) τ) (act : Act τ Errno α) : Op σ α :=
  (act.mapError fun e => Stop.failure (.privateMemory e)).focus part

def onWatch {α : Type} (act : Watch.Op α) : Op σ α := act.focus watch

/-- Call the routine, whose writes go to the watched memory. -/
def call (target : Target σ) (args : List String) : Op σ Conclusion := do
  let b ← get
  let call := target b.subject args b.memory
  set { b with subject := call.state }
  onWatch (Watch.writeAll call.writes)
  return call.conclusion

/-- Compare all regions with the checksums of the start. -/
def verify (iteration : Nat) (slots : List Slot) : Op σ Unit := do
  let b ← get
  match b.scheduler.checksums.mismatch? b.memory slots with
  | some span => Act.fail (.failure (.restoreMismatch iteration span))
  | none => pure ()

/-- One iteration, which takes as long as told. -/
def iteration (o : Scheduler.Options) (target : Target σ) (args : List String)
    (slots : List Slot) (i : Nat) (duration : Duration) : Op σ Unit := do
  let conclusion ← call target args
  onWatch (Watch.drain o.drainTimeout)
  let pages ← onWatch (Watch.restore o.rearm)
  onTable sampleTable (PrivateArray.push Mapping.refusal ⟨duration, .ofConclusion conclusion, pages⟩)
  if o.verify then verify i slots

def iterations (o : Scheduler.Options) (target : Target σ) (args : List String)
    (slots : List Slot) (clock : Nat → Duration) : (todo i : Nat) → Op σ Unit
  | 0, _ => pure ()
  | todo + 1, i => do
    iteration o target args slots i (clock i)
    iterations o target args slots clock todo (i + 1)

/-- Prepare the tables, take the present memory for the baseline, and iterate. -/
def loop (o : Scheduler.Options) (target : Target σ) (args : List String) (slots : List Slot)
    (clock : Nat → Duration) (n : Nat) : Op σ Unit := do
  modify fun b => { b with scheduler := { b.scheduler with samples := b.scheduler.samples.clear } }
  onTable sampleTable (PrivateArray.reserve Mapping.refusal n)
  if o.verify then onTable checksumTable (Checksums.take (← get).memory slots)
  let _ ← onWatch (Watch.rebaseline o.drainTimeout)
  iterations o target args slots clock n 0

/-- Run a routine `n` times. Iteration `i` takes as long as the clock says. -/
def run (o : Scheduler.Options) (target : Target σ) (args : List String) (slots : List Slot)
    (clock : Nat → Duration) (n : Nat) : Op σ Series := do
  let aborted ← Stop.failureOf (loop o target args slots clock n)
  return ⟨(← get).scheduler.samples.items.toList, aborted⟩

end Rewind.Bench
