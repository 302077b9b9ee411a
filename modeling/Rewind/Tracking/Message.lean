/-!
Messages that the kernel sends about tracked memory. Only a page fault that carries the mark of
write protection asks to be served.
-/
namespace Rewind.Tracking

structure Message where
  event : UInt8
  flags : UInt64
  address : Nat
  deriving DecidableEq, Repr

namespace Message

def pageFault : UInt8 := 0x12

/-- The message of a write held back at an address. -/
def heldWrite (address : Nat) : Message := ⟨pageFault, 3, address⟩

/-- The address of a held-back write, if the message is about one. -/
def writeFault? (m : Message) : Option Nat :=
  if m.event = pageFault ∧ m.flags &&& 2 ≠ 0 then some m.address else none

@[simp] theorem writeFault?_heldWrite (address : Nat) :
    (heldWrite address).writeFault? = some address := by
  have marked : (3 : UInt64) &&& 2 ≠ 0 := by decide
  simp [heldWrite, writeFault?, marked]

end Rewind.Tracking.Message
