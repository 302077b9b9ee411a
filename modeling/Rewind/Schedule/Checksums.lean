import Rewind.Checksum
import Rewind.Private.Array
import Rewind.Region

/-!
Checksums of regions, taken once and compared later. Regions that cannot be read are passed over:
they count as zero and never differ.
-/
namespace Rewind

/-- How bytes are summed up. What a run does with the sums does not depend on it. -/
class Digest where
  sum : Array UInt8 → UInt32

instance : Digest := ⟨Checksum.crc32⟩

/-- One checksum for each region of a table, in order. -/
abbrev Checksums := PrivateArray UInt32 4

namespace Checksums

variable [Digest]

def ofSlot (memory : Memory) (slot : Slot) : UInt32 :=
  Digest.sum (memory.read slot.span.start slot.span.size)

def entry (memory : Memory) (slot : Slot) : UInt32 :=
  if slot.access.readable then ofSlot memory slot else 0

/-- Replace the checksums by those of the regions as they are now. -/
def take (memory : Memory) (slots : List Slot) : Act Checksums Errno Unit := do
  modify PrivateArray.clear
  PrivateArray.reserve Mapping.refusal slots.length
  PrivateArray.pushAll Mapping.refusal (slots.map (entry memory))

/-- A region differs from what was entered for it. -/
def differs (memory : Memory) (row : Slot × UInt32) : Bool :=
  row.1.access.readable && ofSlot memory row.1 != row.2

/-- The first region that differs from its checksum. -/
def mismatch? (memory : Memory) (slots : List Slot) (sums : Checksums) : Option Span :=
  ((slots.zip sums.items.toList).find? (differs memory)).map (·.1.span)

end Rewind.Checksums
