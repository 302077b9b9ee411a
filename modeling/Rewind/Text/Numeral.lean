import Rewind.Text.Layout

/-!
Numerals read from text: an optional plus sign and at least one digit of the base. Characters are
taken from the left, so the first character that is no digit, or the first digit that carries the
value past the limit, decides which error is reported.
-/
namespace Rewind.Text.Numeral

inductive Error where
  | empty
  | invalidDigit
  | tooLarge
  deriving DecidableEq, Repr

def Error.message : Error → String
  | .empty => "cannot parse integer from empty string"
  | .invalidDigit => "invalid digit found in string"
  | .tooLarge => "number too large to fit in target type"

/-- The value of a digit in any base up to 36, letters of either case. -/
def digitValue (c : Char) : Option Nat :=
  if '0' ≤ c ∧ c ≤ '9' then some (c.toNat - '0'.toNat)
  else if 'a' ≤ c ∧ c ≤ 'z' then some (c.toNat - 'a'.toNat + 10)
  else if 'A' ≤ c ∧ c ≤ 'Z' then some (c.toNat - 'A'.toNat + 10)
  else none

def digit (base : Nat) (c : Char) : Option Nat := (digitValue c).filter (· < base)

/-- Read digits on from the value `acc`, staying below `limit`. -/
def readDigits (base limit : Nat) : Nat → List Char → Except Error Nat
  | acc, [] => .ok acc
  | acc, c :: cs =>
    match digit base c with
    | none => .error .invalidDigit
    | some d =>
      if acc * base + d < limit then readDigits base limit (acc * base + d) cs
      else .error .tooLarge

/-- Read a numeral below `limit` that takes up the whole text. -/
def read (base limit : Nat) : List Char → Except Error Nat
  | [] => .error .empty
  | ['+'] => .error .invalidDigit
  | '+' :: c :: cs => readDigits base limit 0 (c :: cs)
  | cs => readDigits base limit 0 cs

end Rewind.Text.Numeral
