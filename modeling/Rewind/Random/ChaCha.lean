/-!
The ChaCha stream: blocks of sixteen words, each a function of a key and the number of the block.
A double round mixes the four columns and then the four diagonals of the block.
-/
namespace Rewind.Random

/-- Sixteen words in rows of four. -/
abbrev Block := Vector UInt32 16

namespace Block

def rotate (x : UInt32) (n : UInt32) : UInt32 := (x <<< n) ||| (x >>> (32 - n))

def quarterRound (v : Block) (a b c d : Fin 16) : Block :=
  let wa := v.get a + v.get b
  let wd := rotate (v.get d ^^^ wa) 16
  let wc := v.get c + wd
  let wb := rotate (v.get b ^^^ wc) 12
  let wa := wa + wb
  let wd := rotate (wd ^^^ wa) 8
  let wc := wc + wd
  let wb := rotate (wb ^^^ wc) 7
  (((v.set a wa).set b wb).set c wc).set d wd

def doubleRound (v : Block) : Block :=
  let v := v.quarterRound 0 4 8 12
  let v := v.quarterRound 1 5 9 13
  let v := v.quarterRound 2 6 10 14
  let v := v.quarterRound 3 7 11 15
  let v := v.quarterRound 0 5 10 15
  let v := v.quarterRound 1 6 11 12
  let v := v.quarterRound 2 7 8 13
  v.quarterRound 3 4 9 14

/-- What block number `n` is mixed from: constants, key, number, and no nonce. -/
def initial (key : Vector UInt32 8) (n : UInt64) : Block :=
  Vector.ofFn fun i =>
    if h : i.val < 4 then #v[0x61707865, 0x3320646e, 0x79622d32, 0x6b206574].get ⟨i.val, h⟩
    else if h : i.val - 4 < 8 then key.get ⟨i.val - 4, h⟩
    else if i.val = 12 then n.toUInt32
    else if i.val = 13 then (n >>> 32).toUInt32
    else 0

/-- Block number `n` of the stream with so many double rounds. -/
def stream (doubleRounds : Nat) (key : Vector UInt32 8) (n : UInt64) : Block :=
  let start := initial key n
  let mixed := Nat.repeat doubleRound doubleRounds start
  Vector.ofFn fun i => mixed.get i + start.get i

end Block

/-- The words of the stream as numbers of 64 bits, the low half first. -/
def numbersOf (block : Block) : List UInt64 :=
  (List.finRange 8).map fun i =>
    let low := block.get ⟨2 * i.val, by omega⟩
    let high := block.get ⟨2 * i.val + 1, by omega⟩
    low.toUInt64 ||| (high.toUInt64 <<< 32)

theorem length_numbersOf (block : Block) : (numbersOf block).length = 8 := by
  simp [numbersOf]

/-- The first `count` numbers of the stream of twelve rounds. -/
def numbers (key : Vector UInt32 8) (count : Nat) : List UInt64 :=
  ((List.range ((count + 7) / 8)).flatMap fun n =>
    numbersOf (Block.stream 6 key (UInt64.ofNat n))).take count

end Rewind.Random
