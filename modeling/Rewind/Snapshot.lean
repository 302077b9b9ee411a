import Rewind.Private.Array

/-!
Snapshots: copies of pages taken just before they change. A snapshot holds the addresses in the
order of capture and, side by side, the bytes that each page had then; a page captured twice is
there twice, and `Snapshot.replay` lets its first capture win.
-/
namespace Rewind

structure Snapshot where
  pageSize : Nat
  addresses : PrivateArray Nat 8
  data : PrivateArray UInt8 1

namespace Snapshot

def new (pageSize : Nat) : Snapshot := ⟨pageSize, .empty, .empty⟩

instance : Inhabited Snapshot := ⟨new Page.size⟩

def size (s : Snapshot) : Nat := s.addresses.size

def content (s : Snapshot) (i : Nat) : Array UInt8 :=
  s.data.items.extract (i * s.pageSize) ((i + 1) * s.pageSize)

/-- The captures in order, as addresses with bytes. -/
def toList (s : Snapshot) : List (Nat × Array UInt8) :=
  s.addresses.items.toList.mapIdx fun i page => (page, s.content i)

def get? (s : Snapshot) (page : Nat) : Option (Array UInt8) :=
  (s.addresses.items.findIdx? (· == page)).map s.content

def addressTable : Part Snapshot (PrivateArray Nat 8) where
  split := fun ⟨pageSize, addresses, data⟩ => (addresses, (⟨pageSize, ·, data⟩))

def dataTable : Part Snapshot (PrivateArray UInt8 1) where
  split := fun ⟨pageSize, addresses, data⟩ => (data, (⟨pageSize, addresses, ·⟩))

/-- Make room for captures: for the addresses first, then for the bytes. -/
def reserve (refusal : Refusal) (pages : Nat) : Act Snapshot Errno Unit := do
  (PrivateArray.reserve refusal pages).focus addressTable
  let bytes ← Word.mul pages (← get).pageSize
  (PrivateArray.reserve refusal bytes).focus dataTable

/-- A captured address is a whole number of pages. -/
def checkAligned (s : Snapshot) (page : Nat) : Except Fault Unit :=
  if s.pageSize = 0 then .error .remainderByZero
  else if page % s.pageSize = 0 then .ok ()
  else .error (.unaligned (page % s.pageSize))

/-- Copy a page out of memory. Both tables get room before either grows, so a refusal leaves the
captures as they were. -/
def capture (refusal : Refusal) (memory : Memory) (page : Nat) : Act Snapshot Errno Unit := do
  checkAligned (← get) page
  let pageSize := (← get).pageSize
  (PrivateArray.reserve refusal pageSize).focus dataTable
  (PrivateArray.reserve refusal 1).focus addressTable
  (PrivateArray.extend refusal (memory.read page pageSize)).focus dataTable
  (PrivateArray.push refusal page).focus addressTable

/-- Write every capture back, the latest first. -/
def replay (s : Snapshot) (memory : Memory) : Memory :=
  s.toList.foldr (fun capture memory => memory.write capture.1 capture.2) memory

def clear (s : Snapshot) : Snapshot :=
  { s with addresses := s.addresses.clear, data := s.data.clear }

/-- The sizes of the mappings behind the tables. -/
def mapped (s : Snapshot) : List Nat := s.addresses.mapped.toList ++ s.data.mapped.toList

end Rewind.Snapshot
