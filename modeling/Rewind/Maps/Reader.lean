import Rewind.Failure
import Rewind.Region
import Rewind.Text.Blank
import Rewind.Text.Lines
import Rewind.Text.Numeral

/-!
Memory maps read from text, one region a line. Lines of white space are skipped but counted. The
first line that describes no region is reported with its number, the defect and the line itself,
and nothing before it is returned.
-/
namespace Rewind.Maps

/-- What is wrong with a line; the checks are made in this order. -/
inductive Defect where
  | missingPermissions
  | missingOffset
  | missingDevice
  | missingInode
  | missingEnd
  | missingMinor
  | badStart
  | badEnd
  | reversed
  | badOffset
  | badMajor
  | badMinor
  | badInode
  | badPermissions
  deriving DecidableEq, Repr

def Defect.text : Defect → String
  | .missingPermissions => "missing permissions"
  | .missingOffset => "missing offset"
  | .missingDevice => "missing device"
  | .missingInode => "missing inode"
  | .missingEnd => "missing end address"
  | .missingMinor => "missing device minor"
  | .badStart => "bad start address"
  | .badEnd => "bad end address"
  | .reversed => "end address below start address"
  | .badOffset => "bad offset"
  | .badMajor => "bad device major"
  | .badMinor => "bad device minor"
  | .badInode => "bad inode"
  | .badPermissions => "bad permissions"

inductive Error where
  /-- A line describes no region. -/
  | line (number : Nat) (defect : Defect) (text : String)
  /-- A line is no text. -/
  | undecodable
  deriving DecidableEq, Repr

def Error.failure : Error → Failure
  | .line number defect text => .catalog s!"line {number}: {defect.text}: `{text}'"
  | .undecodable => .io "stream did not contain valid UTF-8"

/-- Line feeds in file names are escaped as a backslash and 012. Other escapes stand for
themselves, and so do the three characters after any backslash. -/
def unescape : List Char → List Char
  | '\\' :: '0' :: '1' :: '2' :: rest => '\n' :: unescape rest
  | '\\' :: a :: b :: c :: rest => '\\' :: a :: b :: c :: unescape rest
  | '\\' :: rest => '\\' :: rest
  | c :: rest => c :: unescape rest
  | [] => []

/-- A numeral that fits in a word, or the defect to report. -/
def number (base : Nat) (defect : Defect) (s : List Char) : Except Defect UInt64 :=
  match Text.Numeral.read base (1 <<< 64) s with
  | .ok n => .ok (UInt64.ofNat n)
  | .error _ => .error defect

/-- The two parts of a field around its first separator, up to a second one. -/
def pair (separator : Char) (defect : Defect) (s : List Char) :
    Except Defect (List Char × List Char) :=
  match s.dropWhile (· ≠ separator) with
  | [] => .error defect
  | _ :: rest => .ok (s.takeWhile (· ≠ separator), rest.takeWhile (· ≠ separator))

/-- The fields of a line, before any of them is looked into. -/
structure Columns where
  addresses : List Char
  permissions : List Char
  offset : List Char
  device : List Char
  inode : List Char
  name : List Char

/-- Cut a line at its first five spaces. A region without a name may lack the fifth. -/
def columns (line : List Char) : Except Defect Columns :=
  match Text.fields ' ' 6 line with
  | [addresses, permissions, offset, device, inode, name] =>
    .ok ⟨addresses, permissions, offset, device, inode, name.dropWhile (· == ' ')⟩
  | [addresses, permissions, offset, device, inode] =>
    .ok ⟨addresses, permissions, offset, device, inode, []⟩
  | [_, _, _, _] => .error .missingInode
  | [_, _, _] => .error .missingDevice
  | [_, _] => .error .missingOffset
  | _ => .error .missingPermissions

/-- What a line says of a region, before the region's own promises are checked. -/
structure Entry where
  span : Span
  access : Access
  shared : Bool
  offset : UInt64
  device : Device
  inode : UInt64
  backing : Backing
  deriving DecidableEq, Repr

/-- The span between two words that are in order. -/
def orderedSpan (start stop : UInt64) : Except Defect Span :=
  if h : start.toNat ≤ stop.toNat then .ok ⟨start.toNat, stop.toNat, h, stop.toNat_lt⟩
  else .error .reversed

def entry (line : List Char) : Except Defect Entry := do
  let c ← columns line
  let (low, high) ← pair '-' .missingEnd c.addresses
  let (majorText, minorText) ← pair ':' .missingMinor c.device
  let start ← number 16 .badStart low
  let stop ← number 16 .badEnd high
  let span ← orderedSpan start stop
  let offset ← number 16 .badOffset c.offset
  let major ← number 16 .badMajor majorText
  let minor ← number 16 .badMinor minorText
  let inode ← number 10 .badInode c.inode
  if (String.ofList c.permissions).utf8ByteSize ≠ 4 then .error .badPermissions
  let has := fun right => c.permissions.contains right
  return {
    span := span
    access := Access.ofRights (has 'r') (has 'w') (has 'x')
    shared := c.permissions.getLast? ≠ some 'p'
    offset := offset
    device := Device.ofParts major.toNat minor.toNat
    inode := inode
    backing := Backing.ofName (String.ofList (unescape c.name)) }

def Entry.region (e : Entry) : Except Fault Region :=
  Region.make e.span e.access e.shared e.offset e.device e.inode e.backing

/-- Read decoded lines from the given line number on; `none` stands for a line that is no text. -/
def readLines : Nat → List (Option (List Char)) → Outcome Error (List Region)
  | _, [] => .ok []
  | _, none :: _ => .error (.error .undecodable)
  | n, some line :: rest =>
    if line.all Text.isBlank then readLines (n + 1) rest
    else match entry line with
      | .error defect => .error (.error (.line n defect (String.ofList line)))
      | .ok e => do
        let region ← Outcome.ofFaulty e.region
        let others ← readLines (n + 1) rest
        return region :: others

def read (text : List Char) : Outcome Error (List Region) :=
  readLines 1 ((Text.lines '\n' '\r' text).map some)

/-- The regions of a memory map in bytes, decoded line by line. -/
def readBytes (bytes : List UInt8) : Outcome Error (List Region) :=
  readLines 1 ((Text.lines 10 13 bytes).map fun line =>
    (String.fromUTF8? ⟨line.toArray⟩).map String.toList)

end Rewind.Maps
