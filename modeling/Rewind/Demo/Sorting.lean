import Rewind.Demo.Basic

/-!
Sorting in place. The data starts with an element that is not the smallest, so a second run finds
another one in front unless the data was put back in between.
-/
namespace Rewind.Demo

structure Sorting where
  data : List UInt64
  /-- The element in front of the data as it was set up. -/
  first : UInt64
  deriving DecidableEq, Repr

namespace Sorting

/-- The element at an index. -/
def item (data : List UInt64) (i : Nat) : Except Fault UInt64 :=
  match data[i]? with
  | some x => .ok x
  | none => .error (.outOfBounds data.length i)

/-- Two elements change places. -/
def swap (data : List UInt64) (i j : Nat) : Except Fault (List UInt64) := do
  let x ← item data i
  let y ← item data j
  return (data.set i y).set j x

/-- The position of the first of the least elements. -/
def leastIndex? (data : List UInt64) : Option Nat :=
  data.min?.map fun least => data.findIdx (· == least)

/-- A first element that is the least goes to the end. -/
def arrange (generated : List UInt64) : Except Fault (List UInt64) :=
  if leastIndex? generated = some 0 then swap generated 0 (generated.length - 1) else .ok generated

/-- Set up the data so that its first element is not the least. -/
def prepare (generated : List UInt64) : Outcome BuildError Sorting := do
  let data ← arrange generated
  let first ← item data 0
  if first = data.min?.getD 0 then .error (.error .allEqual) else .ok ⟨data, first⟩

/-- Set up the data from as many numbers as asked for, which a seed determines. -/
def build (generate : UInt64 → Nat → List UInt64) (args : List String) :
    Outcome BuildError Sorting := do
  let count ← argument args 0 100000
  let seed ← argument args 1 1
  if count < 2 then .error (.error .tooFew)
  else do
    let _ ← allocation (count * 8)
    prepare (generate (UInt64.ofNat seed) count)

/-- No element is followed by a smaller one. -/
def ascends : List UInt64 → Bool
  | x :: y :: rest => x ≤ y && ascends (y :: rest)
  | _ => true

def median (sorted : List UInt64) : Except Fault UInt64 := item sorted (sorted.length / 2)

/-- What a run prints. -/
def report (middle : UInt64) : String := s!"median {middle.toNat}\n"

/-- Sort the data and print its median. Data that starts with another element than at first is not
touched. -/
def run (s : Sorting) (console : Console) : Sorting × Conclusion × Console :=
  match item s.data 0 with
  | .error _ => (s, .panicked, console)
  | .ok front =>
    if front ≠ s.first then (s, .failed dirtyStart, console)
    else
      let sorted := s.data.mergeSort
      let s := { s with data := sorted }
      if ascends sorted = false then (s, .failed badResult, console)
      else match median sorted with
        | .error _ => (s, .panicked, console)
        | .ok middle =>
          match console.print? (report middle) with
          | some console => (s, .completed, console)
          | none => (s, .failed badResult, console)

end Rewind.Demo.Sorting
