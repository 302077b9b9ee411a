import Rewind.Memory.Basic
import Rewind.Region

/-!
The regions that a memory consists of. Neighbouring pages with the same rights and the same backing
belong to one region.
-/
namespace Rewind

/-- A run of mapped pages that are alike. -/
structure Stretch where
  first : Nat
  pages : Nat
  access : Access
  source : Source
  deriving DecidableEq, Repr

def stretches : List (Nat × Frame) → List Stretch
  | [] => []
  | (n, f) :: rest =>
    match stretches rest with
    | [] => [⟨n, 1, f.access, f.source⟩]
    | s :: others =>
      if s.first = n + 1 ∧ s.access = f.access ∧ s.source = f.source then
        ⟨n, s.pages + 1, s.access, s.source⟩ :: others
      else ⟨n, 1, f.access, f.source⟩ :: s :: others

def Stretch.region (s : Stretch) : Except Fault Region := do
  let span ← Span.ofLength (s.first * Page.size) (s.pages * Page.size)
  Region.make span s.access (s.source == .shared) 0 .none 0 .anonymous

def Memory.regions (m : Memory) : Except Fault (List Region) :=
  (stretches m.toList).mapM Stretch.region

end Rewind
