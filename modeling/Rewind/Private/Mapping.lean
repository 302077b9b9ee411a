import Rewind.Memory.Calls

/-!
Private mappings: whole pages of memory that belong to the harness, some with a page below that
nothing may touch. The kernel may refuse any of them, which a `Refusal` tells by size.
-/
namespace Rewind

/-- Why the kernel refuses a mapping of a given size, if it does. -/
abbrev Refusal := Nat → Option Errno

structure Mapping where
  /-- All bytes of the mapping. -/
  total : Nat
  /-- Bytes at its low end that may not be touched. -/
  guard : Nat
  deriving DecidableEq, Repr

namespace Mapping

def new (refusal : Refusal) (length : Nat) : Outcome Errno Mapping := do
  let total ← Page.ceil (max length 1)
  match refusal total with
  | some e => .error (.error e)
  | none => return ⟨total, 0⟩

/-- A mapping with an untouchable page below, as stacks that grow down need it. -/
def withGuard (refusal : Refusal) (length : Nat) : Outcome Errno Mapping := do
  let guard ← Page.ceil 1
  let usable ← Page.ceil (max length 1)
  let total ← Word.add usable guard
  match refusal total with
  | some e => .error (.error e)
  | none => return ⟨total, guard⟩

def usable (m : Mapping) : Nat := m.total - m.guard

end Rewind.Mapping
