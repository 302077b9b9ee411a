import Rewind.Monitor.Basic

/-!
A machine together with the monitor of its memory. `Watch.perform` is one step of the monitor's
thread and `Watch.serve` runs the thread until it waits; `Watch.write` is a write of the process,
which waits on every guarded page until the thread has captured it.
-/
namespace Rewind

structure Watch extends Machine where
  monitor : Monitor

namespace Watch

open Monitor (Point State)

/-- Operations of a watched machine. -/
abbrev Op := Act Watch Stop

/-- The machine without its monitor. -/
def machine : Part Watch Machine where
  split := fun ⟨machine, monitor⟩ => (machine, (⟨·, monitor⟩))

/-- The snapshot that the monitor keeps. -/
def snapshot : Part Watch Snapshot where
  split w :=
    let s := w.monitor.snapshot
    let w := { w with monitor := { w.monitor with snapshot := default } }
    (s, fun s => { w with monitor := { w.monitor with snapshot := s } })

/-- The table of regions that the monitor keeps. -/
def slots : Part Watch (PrivateArray Slot 24) where
  split w := (w.monitor.slots, fun slots => { w with monitor := { w.monitor with slots := slots } })

def modifyMonitor (f : Monitor → Monitor) : Op Unit :=
  modify fun w => { w with monitor := f w.monitor }

def setState (state : State) : Op Unit := modifyMonitor fun m => { m with state := state }

/-- Give up with a failure to report. -/
def fail {α : Type} (cause : Failure) : Op α := Act.fail (.failure cause)

/-- The process ends here. -/
def halt {α : Type} (cause : Halt) : Op α := Act.fail (.halt cause)

/-- Operations of the machine that fail with failures to report. -/
def onMachine {α : Type} (act : Act Machine Failure α) : Op α :=
  (act.mapError Stop.failure).focus machine

/-- Put a request to the kernel, whose refusal is left to the caller. -/
def request (act : Act Machine Errno Machine.Return) : Op (Except Errno Machine.Return) :=
  act.attempt.focus machine

end Rewind.Watch
