import Rewind.Text.Layout

/-!
Features of write-fault tracking, as a set of bits that the kernel offers. Bits without a name are
dropped when an offer is read.
-/
namespace Rewind.Tracking

structure Features where
  bits : UInt64
  deriving DecidableEq, Repr

namespace Features

/-- The names of the features, from the lowest bit upwards. -/
def names : List String := [
  "PAGEFAULT_FLAG_WP", "EVENT_FORK", "EVENT_REMAP", "EVENT_REMOVE", "MISSING_HUGETLBFS",
  "MISSING_SHMEM", "EVENT_UNMAP", "SIGBUS", "THREAD_ID", "MINOR_HUGETLBFS", "MINOR_SHMEM",
  "EXACT_ADDRESS", "WP_HUGETLBFS_SHMEM", "WP_UNPOPULATED"]

def all : Features := ⟨0x3fff⟩

def truncate (bits : UInt64) : Features := ⟨bits &&& all.bits⟩

/-- The set of exactly these bits, if all of them have names. -/
def ofBits (bits : UInt64) : Option Features :=
  if bits &&& all.bits = bits then some ⟨bits⟩ else none

def has (f : Features) (position : Nat) : Bool := f.bits.toNat.testBit position

/-- Faults on write-protected pages are reported, without which nothing can be tracked. -/
def reportsWrites (f : Features) : Bool := f.has 0

def text (f : Features) : String :=
  match (names.zipIdx.filter fun entry => f.has entry.2).map (·.1) with
  | [] => "(empty)"
  | present => String.intercalate " | " present

end Rewind.Tracking.Features
