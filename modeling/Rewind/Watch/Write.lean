import Rewind.Watch.Thread

/-!
Writes of the watched process. They reach page after page, and on a guarded page the writer sends a
message and waits until the thread no longer guards the page.
-/
namespace Rewind.Watch

/-- Make a page ready to be written to at an address. -/
def claim (n address : Nat) : Op Unit := do
  if (← get).memory.isGuarded n then
    modifyMonitor fun m => { m with inbox := some (.heldWrite address) }
    serve
    if (← get).memory.isGuarded n then halt .stalled

/-- Write the parts of a run of bytes that fall on these pages, one after another. -/
def writePages (start : Nat) (bytes : Array UInt8) : List Nat → Op Unit
  | [] => pure ()
  | n :: ns => do
    claim n (max start (n * Page.size))
    modify fun w => { w with memory := w.memory.writePage start bytes n }
    writePages start bytes ns

/-- Write a run of bytes. -/
def write (start : Nat) (bytes : Array UInt8) : Op Unit :=
  writePages start bytes (Page.numbers start bytes.size)

/-- Write several runs of bytes in order. -/
def writeAll : List (Nat × Array UInt8) → Op Unit
  | [] => pure ()
  | (start, bytes) :: rest => do
    write start bytes
    writeAll rest

end Rewind.Watch
