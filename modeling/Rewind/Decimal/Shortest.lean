import Rewind.Decimal.Binary
import Rewind.Text.Layout

/-!
The shortest decimal text of a binary floating-point number: the fewest digits that are read back
as the same number, of several such decimals the nearest to it, and of two equally near ones the
even one.
-/
namespace Rewind.Decimal

namespace Binary

/-- So many whole units are read back as the number. -/
def covers (b : Binary) (units : Nat) : Bool :=
  let point := units * b.denominator
  if b.closed then b.low ≤ point && point ≤ b.high else b.low < point && point < b.high

/-- The nearest whole number of units that is read back as the number. -/
def nearest? (b : Binary) : Option Nat :=
  let below := b.value / b.denominator
  let twice := 2 * (b.value % b.denominator)
  match b.covers below, b.covers (below + 1) with
  | true, true =>
    some (if twice < b.denominator then below
      else if b.denominator < twice then below + 1
      else below + below % 2)
  | true, false => some below
  | false, true => some (below + 1)
  | false, false => none

def magnitude (b : Binary) : Int :=
  let whole := b.value / b.denominator
  if whole = 0 then
    -(((List.range 400).find? fun n => b.denominator ≤ b.value * Nat.pow 10 n).getD 0 : Int)
  else (toString whole).length - 1

/-- The fewest digits, as a number of units of a power of ten. Seventeen always suffice. -/
def shortest (b : Binary) : Nat × Int :=
  let top := b.magnitude
  ((List.range 17).findSome? fun (n : Nat) =>
    let power := top - n
    (b.inUnits power).nearest?.map (·, power)).getD (0, 0)

end Binary

/-- Where a layout stops writing numbers without an exponent. -/
structure Layout where
  /-- The least power of ten of a first digit that is written out. -/
  least : Int
  /-- The first power of ten that is not written out any more. -/
  beyond : Int
  /-- The least count of digits in an exponent. -/
  exponentDigits : Nat

namespace Layout

/-- Digits before and after the point, at least one of each, for a first digit at `power`. -/
def positional (digits : List Char) (power : Int) : String :=
  if power < 0 then
    "0." ++ String.ofList (List.replicate (-power - 1).toNat '0' ++ digits)
  else
    let whole := power.toNat + 1
    let fraction := digits.drop whole
    String.ofList (digits.take whole ++ List.replicate (whole - digits.length) '0') ++ "." ++
      String.ofList (if fraction.isEmpty then ['0'] else fraction)

/-- One digit before the point, and a signed exponent. -/
def scientific (l : Layout) (digits : List Char) (power : Int) : String :=
  let mantissa := match digits with
    | [] => ""
    | [d] => String.singleton d
    | d :: rest => String.ofList (d :: '.' :: rest)
  mantissa ++ (if power < 0 then "e-" else "e+") ++
    Text.padLeft l.exponentDigits '0' (toString power.natAbs)

/-- The digits of a number laid out, for a first digit at `power`. -/
def place (l : Layout) (digits : List Char) (power : Int) : String :=
  if l.least ≤ power ∧ power < l.beyond then positional digits power
  else l.scientific digits power

/-- The shortest text of a number of no sign. Numbers that are not finite have none. -/
def text? (l : Layout) (x : Float) : Option String :=
  (Binary.ofBits x.toBits).map fun b =>
    if b.value = 0 then "0.0"
    else
      let (units, power) := b.shortest
      let digits := (toString units).toList
      let kept := (digits.reverse.dropWhile (· == '0')).reverse
      l.place kept (power + digits.length - 1)

end Rewind.Decimal.Layout
