import Rewind.Act
import Rewind.Private.Mapping

/-!
Growable arrays in private mappings. The view of an array is `items`. Growing doubles the capacity
until it suffices and then uses the whole last page; the elements move to a new mapping, and an
array that cannot get one stays as it was.
-/
namespace Rewind

/-- An array of elements that take `width` bytes each. -/
structure PrivateArray (α : Type) (width : Nat) where
  items : Array α
  capacity : Nat
  mapping : Option Mapping

namespace PrivateArray

variable {α : Type} {width : Nat}

def empty : PrivateArray α width := ⟨#[], 0, none⟩

instance : Inhabited (PrivateArray α width) := ⟨empty⟩

def size (v : PrivateArray α width) : Nat := v.items.size

/-- Double a capacity until it covers what is needed. Doubling 0 would not end, and `nextCapacity`
starts with at least 1. -/
def doubleUntil (needed capacity : Nat) : Except Fault Nat :=
  if capacity < needed ∧ 0 < capacity then
    if capacity * 2 < Word.limit then doubleUntil needed (capacity * 2)
    else .error (.overflow .multiply)
  else .ok capacity
termination_by needed - capacity

/-- The capacity to grow to, at least a page's worth of elements. -/
def nextCapacity (width capacity needed : Nat) : Except Fault Nat := do
  let enough ← doubleUntil needed (max capacity (max (Page.size / width) 1))
  let bytes ← Word.mul enough width
  let whole ← Page.ceil bytes
  return whole / width

/-- Make room for so many more elements. Only the elements have a place in `items`, not the unused
slots behind them, so that moving to a new mapping, which copies the elements there before the old
mapping goes, leaves `items` alone. -/
def reserve (refusal : Refusal) (additional : Nat) : Act (PrivateArray α width) Errno Unit := do
  let needed ← Word.add (← get).size additional
  if (← get).capacity < needed then
    let doubled ← Word.mul (← get).capacity 2
    let capacity ← nextCapacity width doubled needed
    let bytes ← Word.mul capacity width
    let mapping ← Mapping.new refusal bytes
    modify fun v => { v with capacity := capacity, mapping := some mapping }

def push (refusal : Refusal) (x : α) : Act (PrivateArray α width) Errno Unit := do
  if (← get).size = (← get).capacity then reserve refusal 1
  modify fun v => { v with items := v.items.push x }

def pushAll (refusal : Refusal) : List α → Act (PrivateArray α width) Errno Unit
  | [] => pure ()
  | x :: xs => do
    push refusal x
    pushAll refusal xs

/-- Make room for elements at once and append them. -/
def extend (refusal : Refusal) (xs : Array α) : Act (PrivateArray α width) Errno Unit := do
  reserve refusal xs.size
  modify fun v => { v with items := v.items ++ xs }

def clear (v : PrivateArray α width) : PrivateArray α width := { v with items := #[] }

/-- The element at an index, which the caller promises to be in range. -/
def get (v : PrivateArray α width) (i : Nat) : Except Fault α :=
  match v.items[i]? with
  | some x => .ok x
  | none => .error (.outOfBounds v.size i)

def set (v : PrivateArray α width) (i : Nat) (x : α) : Except Fault (PrivateArray α width) :=
  if i < v.size then .ok { v with items := v.items.setIfInBounds i x }
  else .error (.outOfBounds v.size i)

def withCapacity (refusal : Refusal) (n : Nat) : Outcome Errno (PrivateArray α width) :=
  match (reserve refusal n).on empty with
  | (.ok _, v) => .ok v
  | (.error e, _) => .error e

/-- The size of the mapping behind the array, if it has one. -/
def mapped (v : PrivateArray α width) : Option Nat := v.mapping.map (·.total)

@[simp] theorem items_clear (v : PrivateArray α width) : v.clear.items = #[] := rfl

@[simp] theorem capacity_clear (v : PrivateArray α width) : v.clear.capacity = v.capacity := rfl

@[simp] theorem mapping_clear (v : PrivateArray α width) : v.clear.mapping = v.mapping := rfl

end Rewind.PrivateArray
