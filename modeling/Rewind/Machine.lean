import Rewind.Act
import Rewind.Failure
import Rewind.Kernel
import Rewind.Log.Journal
import Rewind.Normalization
import Rewind.Private.Mapping
import Rewind.Tracking.Requests

/-!
The machine that a harness works on: its memory, its kernel, and the journal of what happened.
Requests go to the kernel's script first and to the memory only if the script lets them through.
-/
namespace Rewind

/-- A process that is past reporting errors. -/
inductive Halt where
  /-- The thread that serves write faults could not go on and ended the process. -/
  | aborted (what : String) (errno : Errno)
  /-- A write or a request waits for something that never happens. -/
  | stalled
  /-- Bytes were read from memory that is no longer mapped. -/
  | crashed
  deriving DecidableEq, Repr

/-- What ends an operation of the harness. -/
inductive Stop where
  | failure (cause : Failure)
  | halt (cause : Halt)
  deriving DecidableEq, Repr

/-- The result of an operation as a value, be it a failure. Faults and the end of the process go on
as they are. -/
def Stop.attempt {σ α : Type} (act : Act σ Stop α) : Act σ Stop (Except Failure α) :=
  Act.ofFunction fun s =>
    match act.on s with
    | (.ok a, s) => (.ok (.ok a), s)
    | (.error (.error (.failure cause)), s) => (.ok (.error cause), s)
    | (.error (.error (.halt cause)), s) => (.error (.error (.halt cause)), s)
    | (.error (.fault cause), s) => (.error (.fault cause), s)

def Stop.failureOf {σ : Type} (act : Act σ Stop Unit) : Act σ Stop (Option Failure) := do
  match ← Stop.attempt act with
  | .ok _ => return none
  | .error cause => return some cause

structure Machine where
  memory : Memory
  kernel : Kernel
  journal : Log.Journal

namespace Machine

/-- A machine with this memory whose kernel follows a script. -/
def start (memory : Memory) (rules : List Kernel.Rule) : Machine :=
  ⟨memory, .scripted rules, .empty⟩

variable {ε : Type}

def ask (call : Kernel.Call) : Act Machine ε (Option Kernel.Answer) := do
  let (answer, kernel) := (← get).kernel.ask call
  modify fun m => { m with kernel := kernel }
  return answer

def log (level : Log.Level) (site : Log.Site) (text : String) : Act Machine ε Unit :=
  modify fun m => { m with journal := m.journal.add level site text }

/-- Whether a request returns at once. -/
inductive Return where
  | prompt
  | late
  deriving DecidableEq, Repr

def requestMemory (call : Kernel.Call) (f : Memory → Except Errno Unit × Memory) :
    Act Machine Errno Return := do
  let answer ← ask call
  match answer with
  | some (.refuse errno) => Act.fail errno
  | _ =>
    Act.request fun m =>
      let (result, memory) := f m.memory
      (result, { m with memory := memory })
    return if answer = some .hold then .late else .prompt

/-- The requests that a registration has to allow: guarding pages. -/
def guardingBit : UInt64 := 0x40

/-- Track the writes to a span. A span that can be tracked but not guarded is not supported. -/
def register (s : Span) : Act Machine Errno Return := do
  let answer ← ask .register
  match answer with
  | some (.refuse errno) => Act.fail errno
  | _ =>
    Act.request fun m =>
      let (result, memory) := m.memory.register s
      (result, { m with memory := memory })
    match answer with
    | some (.requests bits) => if bits &&& guardingBit = 0 then Act.fail .opnotsupp
    | _ => pure ()
    return if answer = some .hold then .late else .prompt

def unregister (s : Span) : Act Machine Errno Return :=
  requestMemory .unregister (·.unregister s)

def guard (s : Span) : Act Machine Errno Return := requestMemory .protect (·.setGuarded s true)

def unguard (s : Span) : Act Machine Errno Return :=
  requestMemory .unprotect (·.setGuarded s false)

/-- The size that a log line gives for a table. Only a line that is written asks for it, so the sum
takes no part in what is done, and it is not kept within a word. -/
def totalSize (slots : List Slot) : Nat := slots.foldl (fun bytes slot => bytes + slot.span.size) 0

/-- Turn the regions behind the slots into private memory. -/
def normalize (plan : Normalization.Plan) (slots : List Slot) (regions : List Region) :
    Act Machine Failure Unit := do
  let work := (Normalization.normalizeEntries plan slots).mapError
    (Normalization.Obstacle.failure regions)
  Act.ofFunction fun m =>
    let (result, w) := work.on ⟨m.memory, []⟩
    (result, { m with memory := w.memory })
  log .info .normalization s!"normalized {slots.length} region(s), {totalSize slots} bytes"

end Rewind.Machine
