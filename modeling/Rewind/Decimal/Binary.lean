/-!
Binary floating-point numbers as exact fractions. A finite number is the fraction
`value / denominator`; `low` and `high`, over the same denominator, are the ends of the interval of
real numbers that are rounded to it.
-/
namespace Rewind.Decimal

structure Binary where
  low : Nat
  value : Nat
  high : Nat
  denominator : Nat
  /-- The ends of the interval are rounded to the number as well. -/
  closed : Bool
  deriving Repr

namespace Binary

/-- The fraction of a mantissa times a power of two, between its two neighbours. The lower one is
only half as far away where the mantissa is the smallest of its binade. -/
def ofParts (mantissa : Nat) (exponent : Int) (narrow : Bool) : Binary :=
  let up := 1 <<< (exponent - 2).toNat
  { low := (4 * mantissa - if narrow then 1 else 2) * up
    value := 4 * mantissa * up
    high := (4 * mantissa + 2) * up
    denominator := 1 <<< (2 - exponent).toNat
    closed := mantissa % 2 = 0 }

/-- The magnitude of the number that 64 bits encode, if it is finite. -/
def ofBits (bits : UInt64) : Option Binary :=
  let field : Nat := bits.toNat >>> 52 % 1 <<< 11
  let fraction : Nat := bits.toNat % 1 <<< 52
  if field = 2047 then none
  else if field = 0 then some (ofParts fraction (-1074) false)
  else some (ofParts (1 <<< 52 + fraction) ((field : Int) - 1075) (fraction == 0 && 1 < field))

/-- The number counted in units of a power of ten. -/
def inUnits (b : Binary) (power : Int) : Binary :=
  let up := Nat.pow 10 (-power).toNat
  { b with
    low := b.low * up, value := b.value * up, high := b.high * up
    denominator := b.denominator * Nat.pow 10 power.toNat }

end Rewind.Decimal.Binary
