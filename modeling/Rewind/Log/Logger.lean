import Rewind.Log.Origin
import Rewind.Text.Numeral
import Rewind.Text.Quoted
import Rewind.Word

/-!
The logger of a process. Records go to a file if one is asked for and can be opened, and to the
console otherwise. A buffer may stand in front: a record that does not fit behind those already held
first drives them out, and one that would fill the whole buffer passes it by. Without a buffer every
record passes.
-/
namespace Rewind.Log

/-- What the environment asks of the logger. -/
structure Settings where
  levels : Option String
  file : Option String
  /-- A file to add to, if no other is asked for. -/
  appendFile : Option String
  capacity : Option String
  deriving DecidableEq, Repr

/-- What opening a file for the log comes to. -/
inductive Opening where
  /-- The file holds this text and takes more. -/
  | opened (content : String)
  | refused (code : Int)
  deriving DecidableEq, Repr

/-- How a file is opened: emptied, or kept as it is. -/
inductive Mode where
  | truncate
  | append
  deriving DecidableEq, Repr

structure Logger where
  levels : Levels
  capacity : Nat
  held : String
  /-- The text of the log file, if records go to one. -/
  file : Option String
  console : String
  deriving DecidableEq, Repr

namespace Logger

/-- A logger that writes to the console at once. -/
def plain (levels : Levels) : Logger := ⟨levels, 0, "", none, ""⟩

/-- Tell something on the console, past the buffer. -/
def announce (l : Logger) (line : String) : Logger :=
  { l with console := l.console ++ line ++ "\n" }

def out (l : Logger) (text : String) : Logger :=
  match l.file with
  | some content => { l with file := some (content ++ text) }
  | none => { l with console := l.console ++ text }

def flush (l : Logger) : Logger := { l.out l.held with held := "" }

def write (l : Logger) (text : String) : Logger :=
  let l := if l.capacity < l.held.utf8ByteSize + text.utf8ByteSize then l.flush else l
  if l.capacity ≤ text.utf8ByteSize then l.out text else { l with held := l.held ++ text }

def openFile (l : Logger) (verb setting path : String) : Opening → Logger
  | .opened content => { l with file := some content }
  | .refused code => l.announce (s!"Could not {verb} `{Text.quoted path}' specified in "
      ++ s!"{setting}: {Errno.systemMessage code}. Logging to stderr.")

def chooseFile (s : Settings) (opening : Mode → String → Opening) (l : Logger) : Logger :=
  match s.file, s.appendFile with
  | some path, _ => l.openFile "create" "SNAPBENCH_LOG_FILE" path (opening .truncate path)
  | none, some path =>
    l.openFile "append to" "SNAPBENCH_APPEND_LOG_FILE" path (opening .append path)
  | none, none => l

def chooseCapacity (s : Settings) (l : Logger) : Logger :=
  match s.capacity with
  | none => l
  | some text =>
    match Text.Numeral.read 10 Word.limit text.toList with
    | .ok n => { l with capacity := n }
    | .error _ => l.announce
        s!"Could not parse `{text}' in SNAPBENCH_LOG_BUFFER as a number. Ignoring."

def start (s : Settings) (opening : Mode → String → Opening) : Logger :=
  let levels := (s.levels.map Levels.read).getD Levels.standard
  chooseCapacity s (chooseFile s opening (plain levels))

/-- Records of this level from this file are written. -/
def shows (l : Logger) (level : Level) (file : String) : Bool :=
  l.levels.writes level (moduleOf file)

/-- A record in the portions in which it is written: whole, or broken after each part. -/
def portions (heading : String) (parts : List String) (broken : Bool) : List String :=
  let whole := if broken then
    match parts with
    | [] => [heading ++ "\n"]
    | part :: parts => (heading ++ part) :: parts ++ ["\n"]
  else [heading ++ String.join parts ++ "\n"]
  whole.filter (· ≠ "")

/-- Write a record made of parts, one portion after another. -/
def record (l : Logger) (o : Origin) (parts : List String) (broken : Bool) : Logger :=
  (portions o.heading parts broken).foldl write l

end Rewind.Log.Logger
