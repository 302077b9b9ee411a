import Rewind.Act
import Rewind.Failure
import Rewind.Region
import Rewind.Memory.Calls

/-!
Turning regions into private anonymous memory in place. The bytes of a region are put aside in
scratch memory while a fresh mapping is laid over it, and every request of the way can be turned
down; the region then keeps its bytes, and the first refusal ends the work.
-/
namespace Rewind

/-- Memory to normalize, and the scratch copies that are mapped elsewhere. -/
structure Workspace where
  memory : Memory
  scratch : List (Array UInt8)

namespace Normalization

/-- Which requests are turned down out of hand, by the position of the entry and the step. -/
abbrev Plan := Nat → Step → Option Errno

def unhindered : Plan := fun _ _ => none

/-- Where the work stopped, and why. -/
structure Obstacle where
  index : Nat
  step : Step
  errno : Errno
  deriving DecidableEq, Repr

/-- The work on one entry. -/
abbrev Work := Act Workspace (Step × Errno)

/-- Put a request to the kernel, unless it is turned down before it has any effect. -/
def request {α : Type} (refused : Step → Option Errno) (step : Step)
    (f : Workspace → Except Errno α × Workspace) : Work α :=
  match refused step with
  | some errno => Act.fail (step, errno)
  | none => (Act.request f).mapError fun errno => (step, errno)

def onMemory {α : Type} (f : Memory → Except Errno α × Memory) (w : Workspace) :
    Except Errno α × Workspace :=
  let (result, memory) := f w.memory
  (result, { w with memory := memory })

/-- Map a scratch copy of so many bytes, to which nothing is copied yet. -/
def mapScratch (length : Nat) (w : Workspace) : Except Errno Unit × Workspace :=
  match Mapping.refusal length with
  | some errno => (.error errno, w)
  | none => (.ok (), { w with scratch := #[] :: w.scratch })

def unmapScratch (w : Workspace) : Except Errno Unit × Workspace :=
  (.ok (), { w with scratch := w.scratch.tail })

/-- Copies go word by word, so their length is a whole number of words. -/
def checkWords (length : Nat) : Except Fault Unit :=
  if length % 8 = 0 then .ok () else .error (.broken .wholeWords)

def copyOut (span : Span) : Work Unit := do
  checkWords span.size
  modify fun w =>
    { w with scratch := w.memory.read span.start span.size :: w.scratch.tail }

def copyBack (span : Span) : Work Unit := do
  checkWords span.size
  modify fun w => { w with memory := w.memory.write span.start (w.scratch.headD #[]) }

def normalizeEntry (refused : Step → Option Errno) (slot : Slot) : Work Unit := do
  let start := slot.span.start
  let size := slot.span.size
  if slot.access.readable = false then
    request refused .makeReadable (onMemory (·.protect start size slot.access.addRead))
  request refused .mapScratch (mapScratch size)
  copyOut slot.span
  let _ ← request refused .mapFixed (onMemory (·.mapFixed start size .readWrite))
  copyBack slot.span
  request refused .unmapScratch unmapScratch
  request refused .reprotect (onMemory (·.protect start size slot.access))

/-- Convert entries from a position on, up to the first that cannot be. -/
def normalizeFrom (plan : Plan) (index : Nat) : List Slot → Act Workspace Obstacle Unit
  | [] => pure ()
  | slot :: slots => do
    (normalizeEntry (plan index) slot).mapError fun cause => ⟨index, cause.1, cause.2⟩
    normalizeFrom plan (index + 1) slots

def normalizeEntries (plan : Plan) (slots : List Slot) : Act Workspace Obstacle Unit :=
  normalizeFrom plan 0 slots

/-- The failure that an obstacle is, with the region it concerns as a line of a memory map. -/
def Obstacle.failure (regions : List Region) (o : Obstacle) : Failure :=
  .normalization ((regions[o.index]?.map Region.line).getD "") o.step o.errno

end Rewind.Normalization
