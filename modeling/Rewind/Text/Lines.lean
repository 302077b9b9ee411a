/-!
Texts cut into lines and lines into fields. A line ends at a line feed, and a carriage return just
before the line feed belongs to the ending; what follows the last line feed is a line of its own
unless it is empty. The items are characters or bytes.
-/
namespace Rewind.Text

/-- The lines of a text, without their endings. -/
def lines {α : Type} [DecidableEq α] (lf cr : α) : List α → List (List α)
  | [] => []
  | c :: rest =>
    if c = lf then [] :: lines lf cr rest
    else if c = cr ∧ rest.head? = some lf then lines lf cr rest
    else match lines lf cr rest with
      | [] => [[c]]
      | line :: others => (c :: line) :: others

/-- At most `n` fields between separators; the last one keeps the separators left over. -/
def fields {α : Type} [DecidableEq α] (separator : α) : Nat → List α → List (List α)
  | 0, _ => []
  | 1, s => [s]
  | n + 2, s =>
    match s.dropWhile (· ≠ separator) with
    | [] => [s]
    | _ :: rest => s.takeWhile (· ≠ separator) :: fields separator (n + 1) rest

end Rewind.Text
