import Rewind.Schedule.Sample
import Rewind.Word

/-!
Statistics of a run, over any arithmetic. Sums run over the sorted times, so a summary does not
depend on the order in which the samples were taken.
-/
namespace Rewind.Report

/-- The numbers in which times are reckoned. -/
structure Arithmetic (R : Type) where
  /-- A length of time in microseconds. -/
  ofDuration : Duration → R
  ofCount : Nat → R
  zero : R
  add : R → R → R
  sub : R → R → R
  div : R → R → R
  square : R → R
  sqrt : R → R
  le : R → R → Bool

def Arithmetic.binary : Arithmetic Float where
  ofDuration d :=
    ((UInt64.ofNat d.seconds).toFloat + (UInt64.ofNat d.nanos).toFloat / 1000000000.0) * 1000000.0
  ofCount n := (UInt64.ofNat n).toFloat
  zero := 0.0
  add := (· + ·)
  sub := (· - ·)
  div := (· / ·)
  square x := x * x
  sqrt := Float.sqrt
  le x y := decide (x ≤ y)

structure Summary (R : Type) where
  iterations : Nat
  failures : Nat
  min : R
  median : R
  mean : R
  max : R
  /-- The deviation of a sample; nothing deviates where there are fewer than two. -/
  deviation : R
  pagesRestored : Nat
  aborted : Option String
  deriving Repr

variable {R : Type}

namespace Arithmetic

def sum (a : Arithmetic R) (xs : List R) : R := xs.foldl a.add a.zero

def mean (a : Arithmetic R) (xs : List R) : R :=
  if xs.isEmpty then a.zero else a.div (a.sum xs) (a.ofCount xs.length)

/-- The middle element of sorted numbers, or half the sum of the two middle ones. -/
def median (a : Arithmetic R) (xs : List R) : R :=
  let n := xs.length
  if n = 0 then a.zero
  else if n % 2 = 1 then xs.getD (n / 2) a.zero
  else a.div (a.add (xs.getD (n / 2 - 1) a.zero) (xs.getD (n / 2) a.zero)) (a.ofCount 2)

def deviation (a : Arithmetic R) (xs : List R) : R :=
  if xs.length < 2 then a.zero
  else
    let mean := a.mean xs
    a.sqrt (a.div (a.sum (xs.map fun x => a.square (a.sub x mean))) (a.ofCount (xs.length - 1)))

end Arithmetic

def pagesRestored (samples : List Sample) : Except Fault Nat :=
  samples.foldlM (fun total s => Word.add total s.pagesRestored) 0

def times (a : Arithmetic R) (samples : List Sample) : List R :=
  (samples.map fun s => a.ofDuration s.duration).mergeSort a.le

def summarize (a : Arithmetic R) (samples : List Sample) (aborted : Option String) :
    Except Fault (Summary R) := do
  let times := times a samples
  let pages ← pagesRestored samples
  return {
    iterations := samples.length
    failures := failuresIn samples
    min := times.head?.getD a.zero
    median := a.median times
    mean := a.mean times
    max := times.getLast?.getD a.zero
    deviation := a.deviation times
    pagesRestored := pages
    aborted }

end Rewind.Report
