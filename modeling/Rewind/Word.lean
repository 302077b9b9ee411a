import Rewind.Fault

/-!
Machine words. Addresses, sizes and counters are natural numbers below `Word.limit`; the sums,
differences and products that could leave that range are checked and fault instead of wrapping.
-/
namespace Rewind.Word

def limit : Nat := 1 <<< 64

/-- A sum of words, or the fault that it is none. -/
def add (a b : Nat) : Except Fault Nat :=
  if a + b < limit then .ok (a + b) else .error (.overflow .add)

/-- A difference of words, or the fault that it is none. -/
def sub (a b : Nat) : Except Fault Nat :=
  if b ≤ a then .ok (a - b) else .error (.overflow .subtract)

/-- A product of words, or the fault that it is none. -/
def mul (a b : Nat) : Except Fault Nat :=
  if a * b < limit then .ok (a * b) else .error (.overflow .multiply)

theorem add_eq_ok_iff {a b c : Nat} : add a b = .ok c ↔ a + b < limit ∧ c = a + b := by
  unfold add; split <;> grind

theorem sub_eq_ok_iff {a b c : Nat} : sub a b = .ok c ↔ b ≤ a ∧ c = a - b := by
  unfold sub; split <;> grind

theorem mul_eq_ok_iff {a b c : Nat} : mul a b = .ok c ↔ a * b < limit ∧ c = a * b := by
  unfold mul; split <;> grind

end Rewind.Word
