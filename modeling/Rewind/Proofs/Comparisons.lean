import Rewind.Proofs.Checksum
import Rewind.Proofs.Courses
import Rewind.Proofs.Isolation
import Rewind.Proofs.Tallies
import Rewind.Proofs.Undisturbed

/-! Verification in a run. Checksums and regions go together by their place in two tables, of which
one is filled anew for each run; in every run a region is compared with its own checksum of the
start of that run. -/
namespace Rewind

namespace Checksums

variable [Digest] {before after m m' : Memory} {slots : List Slot} {sums : Checksums}

/-- The first region that can be read and has another checksum than before. -/
def firstChanged (slots : List Slot) (before after : Memory) : Option Span :=
  (slots.find? fun slot => slot.access.readable && ofSlot after slot != ofSlot before slot).map
    (·.span)

end Checksums

namespace Bench

open Watch (Rests Open Quiet Parted)

end Bench

namespace Bench.Task

open Checksums

variable {σ : Type} {t : Task σ} {b c : Bench σ} {i : Nat}

variable [Digest]

/-- No region had changed after any of the restores before iteration `i`. -/
def UnchangedBefore (t : Task σ) (b : Bench σ) (i : Nat) : Prop :=
  ∀ k < i, ∃ row c, (t.restored k).on b = (.ok row, c) ∧
    firstChanged t.slots b.memory c.memory = none

/-- Up to iteration `i` a run compares with the checksums of its start, and found no change. -/
structure Compared (t : Task σ) (b : Bench σ) (i : Nat) (c : Bench σ) : Prop where
  holds : c.scheduler.checksums.Holds b.memory t.slots
  unchanged : t.UnchangedBefore b i

theorem Compared.of_eq (h : t.Compared b i c) {c' : Bench σ} (hs : c'.scheduler = c.scheduler) :
    t.Compared b i c' := ⟨hs ▸ h.holds, h.unchanged⟩

end Bench.Task

namespace Bench

end Bench

end Rewind
