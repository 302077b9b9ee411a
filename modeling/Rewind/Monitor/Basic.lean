import Rewind.Monitor.State
import Rewind.Snapshot
import Rewind.Tracking.Channel
import Rewind.Tracking.Message

/-!
The monitor: a thread that guards regions, captures each page on the first write to it, and then
lets the writer go on. `Point` lists the steps of that thread one by one, in the order in which it
takes them, so that what others can see between two of them has a place in the model.
-/
namespace Rewind

namespace Monitor

/-- What the thread has said about arming. -/
inductive Readiness where
  | pending
  | armed
  | refused (index : Nat) (stage : Stage) (errno : Errno)
  deriving DecidableEq, Repr

/-- The step that the thread takes next. -/
inductive Point where
  /-- Track the region at this position. -/
  | register (index : Nat)
  | registered
  /-- Guard the region at this position. -/
  | guard (index : Nat)
  | armed
  /-- Tell the one who armed it that all is guarded. -/
  | ready
  | listen
  | poll
  /-- Wait for a message or for the word to stop. -/
  | wait
  | read
  /-- Note that a fault is in flight. -/
  | begin (page : Nat)
  | capturing (page : Nat)
  | capture (page : Nat)
  | unprotecting (page : Nat)
  /-- Stop guarding the page, which wakes its writer. -/
  | release (page : Nat)
  | count
  /-- Note that no fault is in flight. -/
  | finish
  | stop
  | failed (index : Nat) (stage : Stage) (errno : Errno)
  /-- Tell the one who armed it what was refused. -/
  | refused (index : Nat) (stage : Stage) (errno : Errno)
  | ended
  deriving DecidableEq, Repr

structure Thread where
  next : Point
  /-- The request of the last step has not returned. -/
  held : Bool
  deriving DecidableEq, Repr

def Thread.fresh : Thread := ⟨.register 0, false⟩

end Monitor

open Monitor

structure Monitor where
  channel : Tracking.Channel
  /-- The message of a writer that waits. -/
  inbox : Option Tracking.Message
  stack : Mapping
  block : Mapping
  /-- All regions ever handed over, in order. -/
  slots : PrivateArray Slot 24
  snapshot : Snapshot
  state : State
  readiness : Readiness
  inFlight : Nat
  handled : Nat
  /-- The word to stop has been given. It is never taken back. -/
  stopSignalled : Bool
  thread : Option Thread
  /-- The last arming was waited for, and succeeded. -/
  armed : Bool

namespace Monitor

/-- Set up a monitor whose thread does not run yet. -/
def new (channel : Tracking.Channel) (stackSize : Nat) : Act Machine Failure Monitor := do
  match ← Machine.ask .eventfd with
  | some (.refuse errno) => Act.fail (.monitorThread errno)
  | _ => pure ()
  let stack ← (Mapping.withGuard Mapping.refusal stackSize).mapError Failure.privateMemory
  let block ← (Mapping.new Mapping.refusal Page.size).mapError Failure.privateMemory
  return {
    channel, inbox := none, stack, block, slots := .empty, snapshot := .new Page.size
    state := .init, readiness := .pending, inFlight := 0, handled := 0, stopSignalled := false
    thread := none, armed := false }

/-- The sizes of the mappings that belong to the monitor. -/
def mapped (m : Monitor) : List Nat :=
  [m.stack.total, m.block.total] ++ m.slots.mapped.toList ++ m.snapshot.mapped

/-- The smallest stack on which a thread can be started. -/
def smallestStack : Nat := 16384

end Rewind.Monitor
