import Rewind.Text.Layout

/-!
Lengths of time in seconds and nanoseconds. The text form takes the largest unit of which the time
holds at least one, and drops the zeros at the end of the fraction.
-/
namespace Rewind

structure Duration where
  seconds : Nat
  nanos : Nat
  deriving DecidableEq, Repr, Inhabited

namespace Duration

def zero : Duration := ⟨0, 0⟩

def ofMillis (n : Nat) : Duration := ⟨n / 1000, n % 1000 * 1000000⟩

/-- A fraction as `places` digits after a point, without the zeros at its end. -/
def fraction (places part : Nat) : String :=
  let digits := (Text.padLeft places '0' (toString part)).toList
  match (digits.reverse.dropWhile (· == '0')).reverse with
  | [] => ""
  | kept => "." ++ String.ofList kept

def text (d : Duration) : String :=
  if 0 < d.seconds then s!"{d.seconds}{fraction 9 d.nanos}s"
  else if 1000000 ≤ d.nanos then s!"{d.nanos / 1000000}{fraction 6 (d.nanos % 1000000)}ms"
  else if 1000 ≤ d.nanos then s!"{d.nanos / 1000}{fraction 3 (d.nanos % 1000)}µs"
  else s!"{d.nanos}ns"

end Rewind.Duration
