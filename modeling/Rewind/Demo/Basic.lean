import Rewind.Console
import Rewind.Fault
import Rewind.Target.Basic
import Rewind.Text.Numeral
import Rewind.Word

/-!
What the built-in routines have in common: how their arguments are read, and what can be wrong with
them and their data.
-/
namespace Rewind.Demo

/-- Why a routine could not be set up. -/
inductive BuildError where
  | unknown (name : String)
  /-- An argument, counted from one, is no number. -/
  | argument (position : Nat) (text : String)
  | tooFew
  | allEqual
  | noPages
  deriving DecidableEq, Repr

/-- The code of a routine that finds its data changed. -/
def dirtyStart : Int := 2

/-- The code of a routine whose result is wrong or cannot be printed. -/
def badResult : Int := 3

/-- The number given as an argument, counted from zero, or a number to use instead. -/
def argument (args : List String) (i default : Nat) : Outcome BuildError Nat :=
  match args[i]? with
  | none => .ok default
  | some text =>
    match Text.Numeral.read 10 Word.limit text.toList with
    | .ok n => .ok n
    | .error _ => .error (.error (.argument (i + 1) text))

theorem argument_ne_fault (args : List String) (i default : Nat) (cause : Fault) :
    argument args i default ≠ .error (.fault cause) := by
  fun_cases argument args i default <;> simp

def largestObject : Nat := 1 <<< 63 - 1

/-- Bytes to allocate, which cannot be more than an object can have. -/
def allocation (bytes : Nat) : Except Fault Nat :=
  if bytes ≤ largestObject then .ok bytes else .error .capacity

theorem allocation_bind {ε α : Type} (bytes : Nat) (f : Nat → Outcome ε α) :
    (liftM (allocation bytes) : Outcome ε Nat) >>= f =
      if largestObject < bytes then .error (.fault .capacity) else f bytes := by
  unfold allocation
  split
  · next hfits => rw [Outcome.lift_ok_bind, if_neg (Nat.not_lt.mpr hfits)]
  · next hlarge => rw [Outcome.lift_error_bind, if_pos (Nat.not_le.mp hlarge)]

end Rewind.Demo
