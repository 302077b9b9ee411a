/-!
How alike two texts are, on a scale from zero to one. Characters agree if they are equal and not too
far from each other; agreeing characters count for both texts, those out of order count less, and a
common beginning lifts the result. All of it is a quotient of natural numbers.
-/
namespace Rewind.Text

/-- The first position from `i` on, below `stop`, that holds `c` and is not taken. -/
def findFree (c : Char) (stop : Nat) : Nat → List Char → List Nat → Option Nat
  | _, [], _ => none
  | i, d :: rest, taken =>
    if stop ≤ i then none
    else if d = c ∧ i ∉ taken then some i
    else findFree c stop (i + 1) rest taken

/-- The positions in `b` that agree with the characters of `a`, in the order of `a`. -/
def agreeing (reach : Nat) (b : List Char) : Nat → List Char → List Nat → List Nat
  | _, [], taken => taken.reverse
  | i, c :: rest, taken =>
    match findFree c (i + reach + 1) (i - reach) (b.drop (i - reach)) taken with
    | some j => agreeing reach b (i + 1) rest (j :: taken)
    | none => agreeing reach b (i + 1) rest taken

def descents : List Nat → Nat
  | x :: y :: rest => (if y < x then 1 else 0) + descents (y :: rest)
  | _ => 0

/-- Characters at the start that two texts share. -/
def sharedStart : List Char → List Char → Nat
  | a :: as, b :: bs => if a = b then sharedStart as bs + 1 else 0
  | _, _ => 0

/-- Two texts are more alike than four fifths of the scale. -/
def resembles (a b : List Char) : Bool :=
  if a = b then true
  else if a = [] ∨ b = [] ∨ (a.length = 1 ∧ b.length = 1) then false
  else
    let found := agreeing (max a.length b.length / 2 - 1) b 0 a []
    let m := found.length
    if m = 0 then false
    else
      let below := 3 * a.length * b.length * m
      let above := m * b.length * m + m * a.length * m +
        (m - descents found) * a.length * b.length
      4 * 10 * below < 5 * (10 * above + sharedStart a b * (below - above))

end Rewind.Text
