/-!
White space as Unicode's property White_Space lists it, and texts trimmed of it at both ends.
-/
namespace Rewind.Text

/-- The characters with the property White_Space. -/
def isBlank (c : Char) : Bool :=
  let n := c.toNat
  (9 ≤ n && n ≤ 13) || n == 0x20 || n == 0x85 || n == 0xA0 || n == 0x1680 ||
  (0x2000 ≤ n && n ≤ 0x200A) || n == 0x2028 || n == 0x2029 || n == 0x202F || n == 0x205F ||
  n == 0x3000

/-- Characters dropped from the end as long as they fit. -/
def dropRightWhile (p : Char → Bool) (s : List Char) : List Char :=
  (s.reverse.dropWhile p).reverse

/-- Characters without the white space at both ends. -/
def trim (s : List Char) : List Char := dropRightWhile isBlank (s.dropWhile isBlank)

end Rewind.Text
