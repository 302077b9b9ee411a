import Rewind.Watch.Basic

/-!
The steps of the monitor's thread. `Watch.perform` takes one step and says where the thread goes
from there; `Watch.serve` takes steps until the thread waits, is held or has ended. A thread whose
calls the kernel keeps answering out of turn never waits; `Watch.patience` is the number of steps
after which the script has nothing new to offer.
-/
namespace Rewind.Watch

open Monitor (Point State)

/-- Where a step leads. -/
inductive Next where
  | go (point : Point)
  /-- The step is done, but its request has not returned. -/
  | hold (point : Point)
  /-- There is nothing to do yet. -/
  | block
  deriving DecidableEq, Repr

/-- Go on once a request has returned. -/
def Next.after (returned : Machine.Return) (point : Point) : Next :=
  match returned with
  | .prompt => .go point
  | .late => .hold point

/-- The thread cannot go on and ends the process. -/
def abort {α : Type} (what : String) (errno : Errno) : Op α := halt (.aborted what errno)

/-- Conditions of the fault channel after which nothing more can be read from it. -/
def brokenConditions : Nat := 8 + 16 + 32

/-- What the thread does about the conditions that polling reports. -/
def onConditions (bits : Nat) : Op Next :=
  if bits &&& brokenConditions ≠ 0 then abort "poll on userfaultfd" .io
  else return .go (if bits &&& 1 = 0 then .listen else .read)

/-- Ask for conditions. Without an answer from the script the thread waits for a message. -/
def poll : Op Next := do
  match ← onMachine (Machine.ask .poll) with
  | some (.refuse .intr) => return .go .listen
  | some (.refuse errno) => abort "poll" errno
  | some (.conditions bits) => onConditions bits
  | _ => return .go .wait

/-- Where a message leads: only write faults are served. -/
def onMessage (m : Tracking.Message) : Next :=
  match m.writeFault? with
  | some address => .go (.begin (Page.floor address))
  | none => .go .listen

/-- Bytes in a message. -/
def messageSize : Nat := 32

/-- Read a message. One that the script makes up takes none from the channel. -/
def read : Op Next := do
  match ← onMachine (Machine.ask .read) with
  | some (.refuse .again) | some (.refuse .intr) => return .go .listen
  | some (.refuse errno) => abort "read of fault message" errno
  | some (.short count) =>
    if count = messageSize then return .go .listen else abort "read of fault message" .io
  | some (.event kind) => return onMessage ⟨kind, 0, 0⟩
  | _ =>
    match (← get).monitor.inbox with
    | none => return .go .listen
    | some message =>
      modifyMonitor fun m => { m with inbox := none }
      return onMessage message

/-- Copy a page as it is before its writer goes on. -/
def capture (page : Nat) : Op Unit := do
  let memory := (← get).memory
  match ← ((Snapshot.capture Mapping.refusal memory page).focus snapshot).attempt with
  | .ok _ => pure ()
  | .error errno => abort "page capture" errno

/-- One step of the thread. -/
def perform : Point → Op Next
  | .register index => do
    match (← get).monitor.slots.items[index]? with
    | none => return .go .registered
    | some slot =>
      match ← request (Machine.register slot.span) with
      | .ok returned => return .after returned (.register (index + 1))
      | .error errno => return .go (.failed index .register errno)
  | .registered => do
    setState .registered
    return .go (.guard 0)
  | .guard index => do
    match (← get).monitor.slots.items[index]? with
    | none => return .go .armed
    | some slot =>
      match ← request (Machine.guard slot.span) with
      | .ok returned => return .after returned (.guard (index + 1))
      | .error errno => return .go (.failed index .protect errno)
  | .armed => do
    setState .armed
    return .go .ready
  | .ready => do
    modifyMonitor fun m => { m with readiness := .armed }
    return .go .listen
  | .listen => do
    setState .listening
    return .go .poll
  | .poll => poll
  | .wait => do
    let m := (← get).monitor
    return if m.stopSignalled then .go .stop else if m.inbox.isSome then .go .read else .block
  | .read => read
  | .begin page => do
    modifyMonitor fun m => { m with inFlight := 1 }
    return .go (.capturing page)
  | .capturing page => do
    setState .capturing
    return .go (.capture page)
  | .capture page => do
    capture page
    return .go (.unprotecting page)
  | .unprotecting page => do
    setState .unprotecting
    return .go (.release page)
  | .release page => do
    let span ← Span.ofLength page Page.size
    match ← request (Machine.unguard span) with
    | .ok returned => return .after returned .count
    | .error errno => abort "UFFDIO_WRITEPROTECT (clear)" errno
  | .count => do
    modifyMonitor fun m => { m with handled := m.handled + 1 }
    return .go .finish
  | .finish => do
    modifyMonitor fun m => { m with inFlight := 0 }
    return .go .listen
  | .stop => do
    setState .stopped
    return .go .ended
  | .failed index stage errno => do
    setState .failed
    return .go (.refused index stage errno)
  | .refused index stage errno => do
    modifyMonitor fun m => { m with readiness := .refused index stage errno }
    return .go .ended
  | .ended => return .block

/-- Note where the thread is. -/
def setThread (next : Point) (held : Bool) : Op Unit :=
  modifyMonitor fun m => { m with thread := some ⟨next, held⟩ }

/-- Let the thread take so many steps at most. -/
def serveFor : Nat → Op Unit
  | 0 => pure ()
  | steps + 1 => do
    match (← get).monitor.thread with
    | some ⟨point, false⟩ =>
      match ← perform point with
      | .go next =>
        setThread next false
        serveFor steps
      | .hold next => setThread next true
      | .block => pure ()
    | _ => pure ()

/-- Steps of one turn of the loop, from listening to the end of a served fault. -/
def turnSteps : Nat := 12

/-- Steps after which the thread either waits or does the same over and over. -/
def patience (w : Watch) : Nat :=
  2 * w.monitor.slots.size + 8 +
    turnSteps * (w.kernel.horizon .poll + w.kernel.horizon .read + 3)

/-- Let the thread run until it waits, is held or has ended. -/
def serve : Op Unit := do serveFor (patience (← get))

/-- A held request returns, and the thread catches up. -/
def resume : Op Unit := do
  modifyMonitor fun m => { m with thread := m.thread.map fun t => { t with held := false } }
  serve

end Rewind.Watch
