import Rewind.Machine
import Rewind.Tracking.Features

/-!
Opening a channel for write faults. A process without privileges may have only the faults of its
own code handled, so the first attempt is refused and a second asks for less. What the kernel
offers is probed on a channel of its own, since features are agreed on once for each channel.
-/
namespace Rewind.Tracking

/-- Whose writes are reported: those of the process, or those of the kernel as well. -/
inductive Scope where
  | everything
  | userOnly
  deriving DecidableEq, Repr

structure Channel where
  features : Features
  scope : Scope
  deriving DecidableEq, Repr

namespace Channel

def openScope (scope : Scope) : Act Machine Errno Unit := do
  match ← Machine.ask .userfaultfd with
  | some (.refuse errno) => Act.fail errno
  | _ => if scope = .everything then Act.fail .perm

/-- Open a channel of the widest scope that is granted. -/
def openWidest : Act Machine Failure Scope := do
  match ← (openScope .everything).attempt with
  | .ok _ => return .everything
  | .error .perm =>
    (openScope .userOnly).mapError (.negotiation "userfaultfd(UFFD_USER_MODE_ONLY)")
    return .userOnly
  | .error .nosys =>
    Act.fail (.unsupported "kernel was built without userfaultfd")
  | .error errno => Act.fail (.negotiation "userfaultfd" errno)

/-- The handshake on a channel, which reports the features that the kernel has. -/
def handshake : Act Machine Errno Features := do
  match ← Machine.ask .handshake with
  | some (.refuse errno) => Act.fail errno
  | some (.features bits) => return .truncate bits
  | _ => return .all

def probe : Act Machine Failure Features := do
  let _ ← openWidest
  handshake.mapError (.negotiation "UFFDIO_API (probe)")

/-- Open a channel on which write faults are reported. -/
def negotiate : Act Machine Failure Channel := do
  let offered ← probe
  Machine.log .debug .tracking s!"userfaultfd features offered: {offered.text}"
  if offered.reportsWrites = false then
    Act.fail (.unsupported "kernel does not offer UFFD_FEATURE_PAGEFAULT_FLAG_WP")
  let scope ← openWidest
  let features ← handshake.mapError (.negotiation "UFFDIO_API")
  if scope = .userOnly then
    Machine.log .warn .tracking ("userfaultfd limited to user-mode faults: " ++
      "kernel writes into monitored memory will fail with EFAULT")
  Machine.log .info .tracking s!"userfaultfd negotiated: {features.text}"
  return ⟨features, scope⟩

end Rewind.Tracking.Channel
