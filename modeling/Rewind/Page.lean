import Rewind.Word

/-!
Page arithmetic. `floor` is the greatest page boundary not above an address and `ceil` the least
one not below it; `ceil` adds a whole page first and so faults in the last page of the word range.
-/
namespace Rewind.Page

/-- Bytes in a page. The system is asked for them when a process starts; here they are those of a
system with small pages, and larger ones are left out. -/
def size : Nat := 4096

def floor (x : Nat) : Nat := x / size * size

def ceil (x : Nat) : Except Fault Nat :=
  (Word.add x size).map fun y => floor (y - 1)

def IsAligned (x : Nat) : Prop := x % size = 0

instance (x : Nat) : Decidable (IsAligned x) := inferInstanceAs (Decidable (_ = _))

/-- The number of the page that holds an address. -/
def number (x : Nat) : Nat := x / size

theorem size_pos : 0 < size := by decide

def offset (x : Nat) : Fin size := ⟨x % size, Nat.mod_lt x size_pos⟩

/-- The numbers of the pages that a run of bytes touches, in ascending order. -/
def numbers (start length : Nat) : List Nat :=
  if length = 0 then []
  else List.range' (number start) (number (start + length - 1) - number start + 1)

theorem isAligned_floor (x : Nat) : IsAligned (floor x) := Nat.mul_mod_left _ _

theorem ceil_eq_ok_iff {x y : Nat} :
    ceil x = .ok y ↔ x + size < Word.limit ∧ y = floor (x + size - 1) := by
  unfold ceil Word.add; split <;> grind [Except.map]

end Rewind.Page
