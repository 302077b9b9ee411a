import Rewind.Fault

/-!
Cuts of texts at byte offsets. A text is a list of characters here, each of which takes up as many
bytes as its encoding has, so an offset can fall inside of a character.
-/
namespace Rewind.Text

/-- The bytes that a text takes up. -/
def byteSize : List Char → Nat
  | [] => 0
  | c :: cs => c.utf8Size + byteSize cs

/-- The characters that take up the first `n` bytes, if these are whole characters. -/
def upTo? : Nat → List Char → Option (List Char)
  | 0, _ => some []
  | _, [] => none
  | n, c :: cs => if c.utf8Size ≤ n then (upTo? (n - c.utf8Size) cs).map (c :: ·) else none

/-- The text without what follows its first `n` bytes. -/
def cutAt (n : Nat) (s : List Char) : Except Fault (List Char) :=
  match upTo? n s with
  | some front => .ok front
  | none => .error (.insideCharacter n)

@[simp] theorem byteSize_append (s t : List Char) :
    byteSize (s ++ t) = byteSize s + byteSize t := by
  induction s with
  | nil => simp [byteSize]
  | cons c s ih => simp [byteSize, ih, Nat.add_assoc]

theorem upTo?_byteSize (s t : List Char) : upTo? (byteSize s) (s ++ t) = some s := by
  induction s with
  | nil => rw [byteSize, upTo?]
  | cons c s ih =>
    have hpos := c.utf8Size_pos
    rw [byteSize, List.cons_append, upTo?.eq_3 _ _ _ (by omega), if_pos (Nat.le_add_right _ _),
      Nat.add_sub_cancel_left, ih]
    rfl

/-- A cut between two texts gives the first of them. -/
theorem cutAt_byteSize (s t : List Char) : cutAt (byteSize s) (s ++ t) = .ok s := by
  rw [cutAt, upTo?_byteSize]

end Rewind.Text
