/-!
The states that a monitor stores for others to see. It is armed from the moment at which all of its
memory is guarded until it stops.
-/
namespace Rewind.Monitor

inductive State where
  | init
  | registered
  | armed
  | listening
  | capturing
  | unprotecting
  | failed
  | stopped
  deriving DecidableEq, Repr

namespace State

/-- The states by their number; all higher numbers mean stopped. -/
def ofCode : Nat → State
  | 0 => init
  | 1 => registered
  | 2 => armed
  | 3 => listening
  | 4 => capturing
  | 5 => unprotecting
  | 6 => failed
  | _ => stopped

def code : State → Nat
  | init => 0
  | registered => 1
  | armed => 2
  | listening => 3
  | capturing => 4
  | unprotecting => 5
  | failed => 6
  | stopped => 7

/-- Tracking is established and memory may be written to. -/
def isArmed : State → Bool
  | armed | listening | capturing | unprotecting => true
  | _ => false

@[simp] theorem ofCode_code (s : State) : ofCode s.code = s := by cases s <;> rfl

end Rewind.Monitor.State
