/-!
Where a program prints. A console that is full takes no more text.
-/
namespace Rewind

structure Console where
  full : Bool
  printed : String
  deriving DecidableEq, Repr

namespace Console

/-- A console with room for everything and nothing on it. -/
def blank : Console := ⟨false, ""⟩

def print? (c : Console) (text : String) : Option Console :=
  if c.full then none else some { c with printed := c.printed ++ text }

end Rewind.Console
