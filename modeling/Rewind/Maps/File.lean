import Rewind.Maps.Reader

/-!
Memory maps read from files. A file that cannot be opened is a failure to find the regions, while
one that opens and cannot be read is a failure of input.
-/
namespace Rewind.Maps

/-- What is found behind a path. -/
inductive Found where
  | content (bytes : List UInt8)
  | directory
  /-- Opening fails with this number. -/
  | unopenable (code : Int)

def readFound (path : String) : Found → Outcome Failure (List Region)
  | .content bytes => (readBytes bytes).mapError Error.failure
  | .directory => .error (.error (.io (Errno.systemMessage 21)))
  | .unopenable code =>
    .error (.error (.catalog s!"failed to open {path}: {Errno.systemMessage code}"))

end Rewind.Maps
