import Std.Data.TreeMap
import Rewind.Access
import Rewind.Page

/-!
Memory of a process, page by page. A mapped page is a `Frame`: its bytes, its rights, what backs
it, and whether writes to it are tracked and held back. The view of a memory is `Memory.byte`;
bytes of unmapped pages read as zero and writes to them are lost.
-/
namespace Rewind

/-- The bytes of one page. -/
abbrev Page.Bytes := Vector UInt8 Page.size

/-- What a mapped page is a page of. -/
inductive Source where
  | anonymous
  /-- Anonymous memory shared with other processes. -/
  | shared
  /-- A private copy of a file. -/
  | file
  deriving DecidableEq, Repr

structure Frame where
  bytes : Page.Bytes
  access : Access
  source : Source
  /-- Registered for write faults. -/
  tracked : Bool
  /-- The next write is held back and reported. -/
  guarded : Bool

def Frame.zero (access : Access) (source : Source) : Frame :=
  ⟨Vector.replicate Page.size 0, access, source, false, false⟩

/-- Mapped pages by page number. -/
structure Memory where
  frames : Std.TreeMap Nat Frame

namespace Memory

def empty : Memory := ⟨{}⟩

def frame? (m : Memory) (n : Nat) : Option Frame := m.frames[n]?

def put (m : Memory) (n : Nat) (f : Frame) : Memory := ⟨m.frames.insert n f⟩

def drop (m : Memory) (n : Nat) : Memory := ⟨m.frames.erase n⟩

/-- Change the frame of a page, if it is mapped. -/
def adjust (m : Memory) (n : Nat) (f : Frame → Frame) : Memory :=
  match m.frame? n with
  | some frame => m.put n (f frame)
  | none => m

/-- Mapped pages with their numbers, in ascending order. -/
def toList (m : Memory) : List (Nat × Frame) := m.frames.toList

def isMapped (m : Memory) (n : Nat) : Bool := (m.frame? n).isSome

def byte (m : Memory) (x : Nat) : UInt8 :=
  match m.frame? (Page.number x) with
  | some f => f.bytes.get (Page.offset x)
  | none => 0

/-- So many bytes of page `n` from an offset on. -/
def slice (m : Memory) (n offset length : Nat) : Array UInt8 :=
  match m.frame? n with
  | some f => f.bytes.toArray.extract offset (offset + length)
  | none => Array.replicate length 0

/-- A run of bytes put behind others, page after page. -/
def readOnto (m : Memory) (done : Array UInt8) (x length : Nat) : Array UInt8 :=
  if _ : length = 0 then done
  else
    let here := min length (Page.size - Page.offset x)
    m.readOnto (done ++ m.slice (Page.number x) (Page.offset x) here) (x + here) (length - here)
termination_by length
decreasing_by have := (Page.offset x).isLt; omega

def read (m : Memory) (x length : Nat) : Array UInt8 := m.readOnto #[] x length

/-- Lay bytes over the part of page `n` that they reach. -/
def Frame.overlay (f : Frame) (n start : Nat) (bytes : Array UInt8) : Frame :=
  { f with bytes := Vector.ofFn fun i =>
      let x := n * Page.size + i
      if start ≤ x then bytes.getD (x - start) (f.bytes.get i) else f.bytes.get i }

/-- Write the part of a run of bytes that falls on page `n`. -/
def writePage (m : Memory) (start : Nat) (bytes : Array UInt8) (n : Nat) : Memory :=
  m.adjust n fun f => Frame.overlay f n start bytes

def write (m : Memory) (start : Nat) (bytes : Array UInt8) : Memory :=
  (Page.numbers start bytes.size).foldl (fun m n => m.writePage start bytes n) m

@[simp] theorem frame?_put_self (m : Memory) (n : Nat) (f : Frame) :
    (m.put n f).frame? n = some f := by simp [put, frame?]

theorem frame?_put_of_ne (m : Memory) {n k : Nat} (f : Frame) (h : k ≠ n) :
    (m.put n f).frame? k = m.frame? k := by
  simp only [put, frame?, Std.TreeMap.getElem?_insert, Std.LawfulEqCmp.compare_eq_iff_eq]
  exact if_neg fun e => h e.symm

theorem slice_eq (m : Memory) (x length : Nat) (h : Page.offset x + length ≤ Page.size) :
    m.slice (Page.number x) (Page.offset x) length =
      Array.ofFn (fun i : Fin length => m.byte (x + i)) := by
  have page (i : Nat) (hi : i < length) : Page.number (x + i) = Page.number x := by
    simp only [Page.number, Page.offset, Page.size] at h ⊢; omega
  have offset (i : Nat) (hi : i < length) : (x + i) % Page.size = x % Page.size + i := by
    simp only [Page.offset, Page.size] at h ⊢; omega
  unfold slice
  split
  · next f hf =>
    apply Array.ext
    · simp only [Page.offset] at h
      simp [Page.offset]; omega
    · intro i _ hi
      simp only [Array.size_ofFn] at hi
      simp [byte, page i hi, hf, Page.offset, offset i hi, Vector.get]
  · next hf =>
    apply Array.ext
    · simp
    · intro i _ hi
      simp only [Array.size_ofFn] at hi
      simp [byte, page i hi, hf]

theorem readOnto_eq (m : Memory) (done : Array UInt8) (x length : Nat) :
    m.readOnto done x length = done ++ Array.ofFn (fun i : Fin length => m.byte (x + i)) := by
  fun_induction readOnto m done x length with
  | case1 done x => simp
  | case2 done x length h here ih =>
    have le : here ≤ length := Nat.min_le_left _ _
    rw [ih, slice_eq m x here (by have := (Page.offset x).isLt; omega), Array.append_assoc]
    congr 1
    apply Array.ext
    · simp; omega
    · intro i _ hi
      simp only [Array.getElem_append, Array.size_ofFn, Array.getElem_ofFn]
      split
      · rfl
      · congr 1; omega

/-- Reading goes byte by byte, whichever pages the bytes are on. -/
theorem read_eq (m : Memory) (x length : Nat) :
    m.read x length = Array.ofFn (fun i : Fin length => m.byte (x + i)) := by
  simp [read, readOnto_eq]

@[simp] theorem size_read (m : Memory) (x length : Nat) : (m.read x length).size = length := by
  simp [read_eq]

end Rewind.Memory
