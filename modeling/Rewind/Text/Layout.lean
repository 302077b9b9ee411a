/-!
Fixed layouts of text: numbers in base 16 and 10, and padding to a column. Widths count
characters, and a text that is already too wide is left as it is.
-/
namespace Rewind.Text

/-- Lower-case base-16 digits without leading zeros. -/
def hexDigits (n : Nat) : String := String.ofList (Nat.toDigits 16 n)

def hex (n : Nat) : String := "0x" ++ hexDigits n

def padLeft (width : Nat) (fill : Char) (s : String) : String :=
  String.ofList (List.replicate (width - s.length) fill) ++ s

def padRight (width : Nat) (fill : Char) (s : String) : String :=
  s ++ String.ofList (List.replicate (width - s.length) fill)

end Rewind.Text
