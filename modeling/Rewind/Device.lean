/-!
Device numbers. The low twelve bits of the major and the low eight of the minor part come first,
and their high bits follow above, so that both parts have 32 bits in one word.
-/
namespace Rewind

structure Device where
  number : UInt64
  deriving DecidableEq, Repr, Inhabited

namespace Device

def none : Device := ⟨0⟩

def isReal (d : Device) : Bool := d.number != 0

def major (d : Device) : Nat :=
  (d.number.toNat >>> 44 % 1 <<< 20) <<< 12 + d.number.toNat >>> 8 % 1 <<< 12

def minor (d : Device) : Nat :=
  (d.number.toNat >>> 20 % 1 <<< 24) <<< 8 + d.number.toNat % 1 <<< 8

/-- The number with the given parts, of which only the low 32 bits count. -/
def ofParts (major minor : Nat) : Device :=
  ⟨UInt64.ofNat ((major >>> 12 % 1 <<< 20) <<< 44 + (minor >>> 8 % 1 <<< 24) <<< 20 +
    (major % 1 <<< 12) <<< 8 + minor % 1 <<< 8)⟩

end Rewind.Device
