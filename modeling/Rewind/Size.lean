import Rewind.Text.Blank
import Rewind.Text.Numeral
import Rewind.Text.Slice
import Rewind.Word

/-!
Byte counts as people write them: a numeral and at most one letter for a power of 1024, of either
case, with white space around. A count is positive and fits a machine word.
-/
namespace Rewind.Size

inductive Error where
  | numeral (cause : Text.Numeral.Error)
  /-- The count is zero or too large. -/
  | range
  deriving DecidableEq, Repr

def Error.message : Error → String
  | .numeral cause => cause.message
  | .range => "error: Size must be a positive integer, optionally followed by K, M or G\n"

/-- The binary exponent that a letter stands for. -/
def unit? : Char → Option Nat
  | 'k' | 'K' => some 10
  | 'm' | 'M' => some 20
  | 'g' | 'G' => some 30
  | _ => none

/-- Cut off a last character that is such a letter: one byte. -/
def split (s : List Char) : Except Fault (List Char × Nat) :=
  match s.getLast?.bind unit? with
  | some exponent => do return (← Text.cutAt (Text.byteSize s - 1) s, exponent)
  | none => .ok (s, 0)

def scale (n exponent : Nat) : Except Error Nat :=
  let bytes := n <<< exponent
  if bytes = 0 ∨ Word.limit ≤ bytes then .error .range else .ok bytes

/-- The count that digits and an exponent stand for. -/
def count (digits : List Char) (exponent : Nat) : Except Error Nat := do
  let n ← (Text.Numeral.read 10 Word.limit digits).mapError .numeral
  scale n exponent

/-- What it comes to to read a text. -/
def outcome (s : String) : Outcome Error Nat := do
  let (digits, exponent) ← split (Text.trim s.toList)
  (count digits exponent).mapError .error

theorem utf8Size_of_unit? {c : Char} {exponent : Nat} (h : unit? c = some exponent) :
    c.utf8Size = 1 := by
  unfold unit? at h
  split at h <;> first | rfl | cases h

/-- A text without its last character if that is a letter for a unit, and the exponent. -/
def parts (s : List Char) : List Char × Nat :=
  match s.getLast?.bind unit? with
  | some exponent => (s.dropLast, exponent)
  | none => (s, 0)

/-- The letters take one byte each, so the cut is always between two characters. -/
theorem split_eq (s : List Char) : split s = .ok (parts s) := by
  unfold split parts
  cases hlast : s.getLast? with
  | none => rfl
  | some c =>
    obtain ⟨digits, rfl⟩ := List.getLast?_eq_some_iff.mp hlast
    cases hunit : unit? c with
    | none => simp [hunit]
    | some exponent =>
      have hsize : Text.byteSize (digits ++ [c]) - 1 = Text.byteSize digits := by
        simp [Text.byteSize, utf8Size_of_unit? hunit]
      simp only [Option.bind_some, hunit, hsize, Text.cutAt_byteSize, List.dropLast_concat]
      rfl

theorem outcome_eq (s : String) :
    outcome s = (count (parts (Text.trim s.toList)).1 (parts (Text.trim s.toList)).2).mapError
      .error := by
  rw [outcome, split_eq]
  rfl

theorem outcome_ne_fault (s : String) (cause : Fault) : outcome s ≠ .error (.fault cause) := by
  rw [outcome_eq]
  cases count (parts (Text.trim s.toList)).1 (parts (Text.trim s.toList)).2 with
  | error e => exact fun h => nomatch h
  | ok n => exact fun h => nomatch h

def read (s : String) : Except Error Nat :=
  match h : outcome s with
  | .ok n => .ok n
  | .error (.error cause) => .error cause
  | .error (.fault cause) => (outcome_ne_fault s cause h).elim

end Rewind.Size
