import Rewind.Decimal.Binary
import Rewind.Text.Layout

/-!
Numbers with a fixed count of decimal places: the exact value is rounded once, and a tie goes to
the even neighbour.
-/
namespace Rewind.Decimal

/-- The natural number nearest to a fraction, the even one of two. -/
def roundDiv (numerator denominator : Nat) : Nat :=
  let quotient := numerator / denominator
  let twice := 2 * (numerator % denominator)
  if twice < denominator then quotient
  else if denominator < twice then quotient + 1
  else quotient + quotient % 2

/-- A count of units of the last place, with the point in its place. -/
def placePoint (places count : Nat) : String :=
  let digits := (Text.padLeft (places + 1) '0' (toString count)).toList
  let whole := digits.length - places
  String.ofList (digits.take whole) ++ "." ++ String.ofList (digits.drop whole)

/-- A number of no sign with so many places after the point. -/
def fixed (places : Nat) (x : Float) : String :=
  match Binary.ofBits x.toBits with
  | some b => placePoint places (roundDiv (b.value * Nat.pow 10 places) b.denominator)
  | none => if x.isNaN then "NaN" else "inf"

end Rewind.Decimal
