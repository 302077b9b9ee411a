import Rewind.Errno
import Rewind.Log.Level

/-!
Where log records come from and how they are headed. A record's module is the name of its file
without the extension; a file named `mod` counts under the name of its directory. Debug records are
headed by their module, all others by level, file and line and, if they are warnings or worse, by
the last system error.
-/
namespace Rewind.Log

/-- The names in a path, without empty ones and those that stay in place. -/
def pathNames (path : List Char) : List (List Char) :=
  (Text.fields '/' (path.length + 1) path).filter fun name => name ≠ [] ∧ name ≠ ['.']

/-- The last name in a path, unless it leads upwards. -/
def lastName? (names : List (List Char)) : Option (List Char) :=
  names.getLast?.filter (· ≠ ['.', '.'])

/-- A name without what follows its last dot. A dot in front does not count. -/
def stem (name : List Char) : List Char :=
  match (name.reverse.dropWhile (· ≠ '.')).drop 1 with
  | [] => name
  | front => front.reverse

def moduleOf (file : String) : String :=
  let names := pathNames file.toList
  let own := (lastName? names).map stem
  let directory := if own = some ['m', 'o', 'd'] then lastName? names.dropLast else none
  String.ofList ((directory.or own).getD [])

/-- What a record says about itself. -/
structure Origin where
  level : Level
  file : String
  line : Nat
  /-- The last system error, or zero. -/
  errno : Int
  deriving DecidableEq, Repr

namespace Origin

def moduleName (o : Origin) : String := moduleOf o.file

/-- Level, place and, where it matters, the last system error. -/
def place (o : Origin) : String :=
  let cause := if o.level.rank ≤ Level.warn.rank ∧ o.errno ≠ 0
    then s!" errno: {(Errno.ofCode o.errno).message}" else ""
  s!"[{o.level.name} {o.file}:{o.line}{cause}] "

def heading (o : Origin) : String :=
  if o.level = .debug then s!"[{o.moduleName}] " else o.place

end Rewind.Log.Origin
