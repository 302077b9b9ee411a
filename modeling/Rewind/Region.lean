import Rewind.Span
import Rewind.Access
import Rewind.Device
import Rewind.Text.Layout

/-!
Regions of an address space: a span of whole pages with its rights, its sharing, and what backs
it. `Region.make` checks what a region promises, `Region.subregion` restricts one to a span inside
it, and `Region.line` prints it as a line of a memory map.
-/
namespace Rewind

/-- What backs a region, as the last column of a memory map tells it. -/
inductive Backing where
  | anonymous
  | file (path : String)
  /-- A bracketed name that the kernel gives, such as the heap or the stack. -/
  | kernel (name : String)
  deriving DecidableEq, Repr, Inhabited

namespace Backing

def ofName (name : String) : Backing :=
  if name.isEmpty then .anonymous
  else if name.toList.head? = some '[' ∧ name.toList.getLast? = some ']' then .kernel name
  else .file name

def name : Backing → String
  | .anonymous => ""
  | .file path => path
  | .kernel name => name

/-- Mappings that the kernel provides and that are no memory of the process. -/
def pseudoNames : List String := ["[vsyscall]", "[vvar]", "[vvar_vclock]", "[vdso]", "[uprobes]"]

def isPseudo : Backing → Bool
  | .kernel name => pseudoNames.contains name
  | _ => false

end Backing

/-- What tracking needs to know of a region: where it is and which rights to give back. -/
structure Slot where
  span : Span
  access : Access
  deriving DecidableEq, Repr, Inhabited

structure Region where
  span : Span
  access : Access
  shared : Bool
  offset : UInt64
  device : Device
  inode : UInt64
  backing : Backing
  wholePages : Page.IsAligned span.size := by decide
  alignedOffset : Page.IsAligned offset.toNat := by decide
  deriving DecidableEq, Repr

namespace Region

instance : Inhabited Region := ⟨⟨default, default, false, 0, default, 0, default, by decide, by decide⟩⟩

/-- A region from its parts, after checking that it covers whole pages from a page of the file. -/
def make (span : Span) (access : Access) (shared : Bool) (offset : UInt64) (device : Device)
    (inode : UInt64) (backing : Backing) : Except Fault Region :=
  if h : Page.IsAligned span.size then
    if g : Page.IsAligned offset.toNat then
      .ok ⟨span, access, shared, offset, device, inode, backing, h, g⟩
    else .error (.broken .alignedOffset)
  else .error (.broken .wholePages)

/-- The region restricted to a span inside it. Only a real device's offset moves along. -/
def subregion (r : Region) (part : Span) : Except Fault Region :=
  if r.span.contains part then do
    let delta := if r.device.isReal then part.start - r.span.start else 0
    let offset ← Word.add r.offset.toNat delta
    make part r.access r.shared (UInt64.ofNat offset) r.device r.inode r.backing
  else .error (.broken .inside)

def start (r : Region) : Nat := r.span.start
def stop (r : Region) : Nat := r.span.stop
def size (r : Region) : Nat := r.span.size

def slot (r : Region) : Slot := ⟨r.span, r.access⟩

def isAnonymous (r : Region) : Bool := r.backing == .anonymous
def isPseudo (r : Region) : Bool := r.backing.isPseudo
def isHeap (r : Region) : Bool := r.backing == .kernel "[heap]"

def isStack (r : Region) : Bool :=
  match r.backing with
  | .kernel name => "[stack".toList.isPrefixOf name.toList
  | _ => false

def permissions (r : Region) : String := r.access.letters ++ (if r.shared then "s" else "p")

/-- All columns before the backing, each padded to its width and ended by a space. -/
def columns (r : Region) : String :=
  let low := Text.padLeft 8 ' ' (Text.hexDigits r.start)
  let high := Text.padLeft 8 ' ' (Text.hexDigits r.stop)
  let offset := Text.padLeft 8 '0' (Text.hexDigits r.offset.toNat)
  let major := Text.padLeft 2 '0' (Text.hexDigits r.device.major)
  let minor := Text.padLeft 2 '0' (Text.hexDigits r.device.minor)
  let inode := Text.padRight 10 ' ' (toString r.inode.toNat)
  s!"{low}-{high} {r.permissions} {offset} {major}:{minor} {inode} "

def line (r : Region) : String := r.columns ++ r.backing.name

end Rewind.Region
