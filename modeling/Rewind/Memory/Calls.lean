import Rewind.Errno
import Rewind.Memory.Basic

/-!
The kernel's answers to requests on mappings. Every request checks its arguments in a fixed order;
only a change of rights can fail after part of its effect, at the first page that is not mapped.
-/
namespace Rewind

namespace Mapping

/-- The most bytes one mapping can have, and the end of the usable address space. -/
def limit : Nat := 1 <<< 47 - Page.size

/-- Why the kernel refuses to map so many bytes, if it does. -/
def refusal (length : Nat) : Option Errno :=
  if length = 0 then some .inval
  else if limit < length then some .nomem
  else none

end Mapping

namespace Memory

def pageCount (length : Nat) : Nat := (length + Page.size - 1) / Page.size

/-- The pages that a request over a span covers. -/
def covered (start length : Nat) : List Nat :=
  List.range' (Page.number start) (pageCount length)

/-- Give new rights to so many pages in order, until one is not mapped. -/
def protectPages (access : Access) : (count n : Nat) → Memory → Except Errno Unit × Memory
  | 0, _, m => (.ok (), m)
  | count + 1, n, m =>
    match m.frame? n with
    | none => (.error .nomem, m)
    | some f => protectPages access count (n + 1) (m.put n { f with access := access })

def protect (m : Memory) (start length : Nat) (access : Access) : Except Errno Unit × Memory :=
  let growth := access.bits &&& 0x03000000
  let rights := access.bits &&& 0xfcffffff
  if growth = 0x03000000 then (.error .inval, m)
  else if ¬ Page.IsAligned start then (.error .inval, m)
  else if length = 0 then (.ok (), m)
  else if Word.limit ≤ start + pageCount length * Page.size then (.error .nomem, m)
  else if rights &&& 0xfffffff0 ≠ 0 then (.error .inval, m)
  else if m.isMapped (Page.number start) = false then (.error .nomem, m)
  else if growth ≠ 0 then (.error .inval, m)
  else protectPages ⟨access.bits &&& 7⟩ (pageCount length) (Page.number start) m

/-- Give a span back. Pages of it that are not mapped do not matter. -/
def unmap (m : Memory) (start length : Nat) : Except Errno Unit × Memory :=
  if ¬ Page.IsAligned start ∨ Mapping.limit < start ∨ Mapping.limit - start < length ∨ length = 0 then
    (.error .inval, m)
  else
    let first := Page.number start
    (.ok (), ⟨m.frames.filter fun n _ => n < first || first + pageCount length ≤ n⟩)

def lay (m : Memory) (start length : Nat) (access : Access) (source : Source) : Memory :=
  (covered start length).foldl (fun m n => m.put n (Frame.zero access source)) m

/-- Map fresh private memory exactly at a span, replacing what was there. -/
def mapFixed (m : Memory) (start length : Nat) (access : Access) : Except Errno Nat × Memory :=
  match Mapping.refusal length with
  | some e => (.error e, m)
  | none =>
    if Mapping.limit < start + length then (.error .nomem, m)
    else if ¬ Page.IsAligned start then (.error .inval, m)
    else (.ok start, m.lay start length access .anonymous)

/-- How a mapping is asked for: its flag word, the file it is of, and the place in that file. -/
structure MapFlags where
  bits : UInt32
  offset : Nat

namespace MapFlags

def anonymous (f : MapFlags) : Bool := f.bits &&& 0x20 != 0

def keepsOthers (f : MapFlags) : Bool := f.bits &&& 0x100000 != 0

def fixed (f : MapFlags) : Bool := f.bits &&& 0x10 != 0 || f.keepsOthers

/-- Private or shared; anything else is no kind of mapping. -/
def source (f : MapFlags) : Option Source :=
  if f.bits &&& 0xf = 2 then some .anonymous
  else if f.bits &&& 0xf = 1 then some .shared
  else none

end MapFlags

/-- A mapping request in full generality, over files that cannot be opened. The result is the
address; a hint that cannot be met gives memory elsewhere, which is not followed up. -/
def map (m : Memory) (start length : Nat) (access : Access) (flags : MapFlags) :
    Except Errno Nat × Memory :=
  if ¬ Page.IsAligned flags.offset then (.error .inval, m)
  else if flags.anonymous = false then (.error .badf, m)
  else match Mapping.refusal length with
  | some e => (.error e, m)
  | none =>
    let inUse := (covered start length).any m.isMapped
    if flags.fixed && decide (Mapping.limit < start + length) then (.error .nomem, m)
    else if flags.fixed && !decide (Page.IsAligned start) then (.error .inval, m)
    else if flags.keepsOthers && inUse then (.error .exist, m)
    else match flags.source with
    | none => (.error .inval, m)
    | some source =>
      if flags.fixed || !inUse then
        (.ok (Page.floor start), m.lay start length ⟨access.bits &&& 7⟩ source)
      else (.ok 0, m)

end Rewind.Memory
