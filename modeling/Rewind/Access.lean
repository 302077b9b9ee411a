/-!
Access rights of a mapping, as the flag word that the kernel takes: read, write and execute in the
three low bits, and two growth flags that some mappings carry.
-/
namespace Rewind

structure Access where
  bits : UInt32
  deriving DecidableEq, Repr, Inhabited

namespace Access

def none : Access := ⟨0⟩

/-- Read and write, the rights of freshly mapped memory. -/
def readWrite : Access := ⟨3⟩

def readable (a : Access) : Bool := a.bits &&& 1 != 0
def writable (a : Access) : Bool := a.bits &&& 2 != 0
def executable (a : Access) : Bool := a.bits &&& 4 != 0

def addRead (a : Access) : Access := ⟨a.bits ||| 1⟩

/-- The flags that a region can carry: the three rights and the two growth flags. -/
def known (a : Access) : Access := ⟨a.bits &&& 0x03000007⟩

def ofRights (read write execute : Bool) : Access :=
  ⟨(if read then 1 else 0) ||| (if write then 2 else 0) ||| (if execute then 4 else 0)⟩

def isNone (a : Access) : Bool := !(a.readable || a.writable || a.executable)

/-- The three rights as letters, a dash for each missing one. -/
def letters (a : Access) : String :=
  String.ofList [if a.readable then 'r' else '-', if a.writable then 'w' else '-',
    if a.executable then 'x' else '-']

@[simp] theorem readable_ofRights (r w x : Bool) : (ofRights r w x).readable = r := by
  cases r <;> cases w <;> cases x <;> decide

@[simp] theorem writable_ofRights (r w x : Bool) : (ofRights r w x).writable = w := by
  cases r <;> cases w <;> cases x <;> decide

@[simp] theorem executable_ofRights (r w x : Bool) : (ofRights r w x).executable = x := by
  cases r <;> cases w <;> cases x <;> decide

end Rewind.Access
