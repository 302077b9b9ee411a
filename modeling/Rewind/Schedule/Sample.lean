import Rewind.Duration
import Rewind.Failure
import Rewind.Target.Basic

/-!
What is recorded of a run: a sample for each iteration and, if the harness itself failed on the
way, that failure.
-/
namespace Rewind

/-- How an iteration ended. -/
inductive Ending where
  | completed
  | failed (code : Int)
  deriving DecidableEq, Repr

/-- The code recorded for a routine that gave up. -/
def panicCode : Int := 101

def Ending.ofConclusion : Conclusion → Ending
  | .completed => .completed
  | .failed code => .failed code
  | .panicked => .failed panicCode

structure Sample where
  duration : Duration
  ending : Ending
  pagesRestored : Nat
  deriving DecidableEq, Repr

/-- The samples of a run, and what ended it early. -/
structure Series where
  samples : List Sample
  aborted : Option Failure
  deriving DecidableEq, Repr

def failuresIn (samples : List Sample) : Nat := samples.countP fun s => s.ending ≠ .completed

def Series.failures (s : Series) : Nat := failuresIn s.samples

end Rewind
