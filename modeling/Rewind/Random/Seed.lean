import Rewind.Random.ChaCha

/-!
Keys from seeds. A small generator of its own, a linear congruence with a permuted output, spreads
a seed of 64 bits over the eight words of a key.
-/
namespace Rewind.Random

def advance (state : UInt64) : UInt64 := state * 6364136223846793005 + 11634580027462260723

/-- The word that a state gives: its high bits folded and rotated by the highest five. -/
def permuted (state : UInt64) : UInt32 :=
  let folded := (((state >>> 18) ^^^ state) >>> 27).toUInt32
  let turn := (state >>> 59).toUInt32
  (folded >>> turn) ||| (folded <<< ((32 - turn) &&& 31))

def keyWord (seed : UInt64) (i : Nat) : UInt32 := permuted (Nat.repeat advance (i + 1) seed)

def keyOfSeed (seed : UInt64) : Vector UInt32 8 := Vector.ofFn fun i => keyWord seed i

def ofSeed (seed : UInt64) (count : Nat) : List UInt64 := numbers (keyOfSeed seed) count

theorem length_ofSeed (seed : UInt64) (count : Nat) : (ofSeed seed count).length = count := by
  rw [ofSeed, numbers, List.length_take, List.length_flatMap]
  simp only [length_numbersOf, List.map_const', List.sum_replicate_nat, List.length_range]
  omega

end Rewind.Random
