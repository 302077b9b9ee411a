import Rewind.Target.Basic

/-!
Routines given as scripts of single commands. A script runs on the memory that it finds and sees
its own writes; it stops early where a command fails or gives up. What it reads is shown in order.
-/
namespace Rewind.Target

inductive Command where
  | write (address : Nat) (bytes : Array UInt8)
  /-- Show a run of bytes. -/
  | read (address length : Nat)
  /-- Add one to a byte, wrapping around. -/
  | increment (address : Nat)
  | copy (source destination length : Nat)
  | fail (code : Int)
  /-- Fail if a byte has this value. -/
  | failIf (address : Nat) (byte : UInt8) (code : Int)
  /-- Show the arguments and fail with their number. -/
  | failWithArguments
  | panic
  /-- Run a script, but only on this call. -/
  | onCall (call : Nat) (script : List Command)
  deriving Inhabited

/-- What a script shows. -/
inductive Shown where
  | bytes (bytes : Array UInt8)
  | arguments (args : List String)

/-- Calls so far, and all that was shown, the latest first. -/
structure ScriptState where
  calls : Nat
  shown : List Shown

/-- A script half-way: memory as it sees it, its writes so far, and what it showed, both latest
first. -/
structure Progress where
  memory : Memory
  writes : List (Nat × Array UInt8)
  shown : List Shown

namespace Progress

def write (p : Progress) (address : Nat) (bytes : Array UInt8) : Progress :=
  { p with memory := p.memory.write address bytes, writes := (address, bytes) :: p.writes }

def reveal (p : Progress) (s : Shown) : Progress := { p with shown := s :: p.shown }

end Progress

mutual

/-- Run one command on call number `call`, up to the conclusion if it brings one. -/
def Command.run (call : Nat) (args : List String) (p : Progress) :
    Command → Progress × Option Conclusion
  | .write address bytes => (p.write address bytes, none)
  | .read address length => (p.reveal (.bytes (p.memory.read address length)), none)
  | .increment address => (p.write address #[p.memory.byte address + 1], none)
  | .copy source destination length => (p.write destination (p.memory.read source length), none)
  | .fail code => (p, some (.failed code))
  | .failIf address byte code =>
    (p, if p.memory.byte address = byte then some (.failed code) else none)
  | .failWithArguments => (p.reveal (.arguments args), some (.failed args.length))
  | .panic => (p, some .panicked)
  | .onCall k script => if k = call then runAll call args p script else (p, none)

/-- Run commands in order, up to the first that brings a conclusion. -/
def runAll (call : Nat) (args : List String) (p : Progress) :
    List Command → Progress × Option Conclusion
  | [] => (p, none)
  | command :: commands =>
    match command.run call args p with
    | (p, none) => runAll call args p commands
    | (p, some conclusion) => (p, some conclusion)

end

def ofScript (script : List Command) : Target ScriptState := fun state args memory =>
  let call := state.calls + 1
  let (p, conclusion) := runAll call args ⟨memory, [], state.shown⟩ script
  ⟨p.writes.reverse, conclusion.getD .completed, ⟨call, p.shown⟩⟩

end Rewind.Target
