import Rewind.Errno

/-!
What the kernel answers out of turn. A script of rules says which calls are refused, held back or
answered with something else than the state of the machine calls for; a call that no rule covers
takes its natural course. Calls are counted per kind, and the first rule that covers one wins.
-/
namespace Rewind

namespace Kernel

/-- The kinds of calls that a rule can cover. -/
inductive Call where
  /-- Open a channel for write faults. -/
  | userfaultfd
  /-- Open the channel on which the monitor is told to stop. -/
  | eventfd
  | startThread
  /-- Agree on features. -/
  | handshake
  | register
  | unregister
  | protect
  | unprotect
  | poll
  | read
  deriving DecidableEq, Repr

def Call.index : Call → Fin 10
  | .userfaultfd => 0
  | .eventfd => 1
  | .startThread => 2
  | .handshake => 3
  | .register => 4
  | .unregister => 5
  | .protect => 6
  | .unprotect => 7
  | .poll => 8
  | .read => 9

inductive Answer where
  /-- The call fails and has no effect. -/
  | refuse (errno : Errno)
  /-- The handshake reports these features. -/
  | features (bits : UInt64)
  /-- Registering reports these requests as possible. -/
  | requests (bits : UInt64)
  /-- The call takes effect and returns late. -/
  | hold
  /-- Polling reports these conditions of the fault channel. -/
  | conditions (bits : Nat)
  /-- Reading gives so many bytes. -/
  | short (count : Nat)
  /-- Reading gives a message of this event, otherwise empty. -/
  | event (kind : UInt8)
  deriving DecidableEq, Repr

structure Rule where
  call : Call
  /-- The calls it covers, counted from one; all of them if none are named. -/
  turns : Option (List Nat)
  answer : Answer
  deriving DecidableEq, Repr

/-- The answer of a rule to the `n`-th call of a kind. -/
def Rule.answer? (r : Rule) (call : Call) (n : Nat) : Option Answer :=
  if r.call = call ∧ (r.turns.all (·.contains n)) = true then some r.answer else none

end Kernel

open Kernel

structure Kernel where
  rules : List Rule
  tally : Vector Nat 10
  deriving Repr

namespace Kernel

/-- A kernel that follows a script and has not been called yet. -/
def scripted (rules : List Rule) : Kernel := ⟨rules, Vector.replicate 10 0⟩

def count (k : Kernel) (call : Call) : Nat := k.tally.get call.index

def ask (k : Kernel) (call : Call) : Option Answer × Kernel :=
  let n := k.count call + 1
  (k.rules.findSome? fun rule => rule.answer? call n,
    { k with tally := k.tally.set call.index n })

/-- The last call of a kind that a rule names. Beyond it answers no longer depend on the count. -/
def horizon (k : Kernel) (call : Call) : Nat :=
  ((k.rules.filter fun rule => rule.call = call).flatMap fun rule => rule.turns.getD []).foldl max 0

end Rewind.Kernel
