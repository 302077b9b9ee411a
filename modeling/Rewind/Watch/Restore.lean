import Rewind.Watch.Write

/-!
Going back to a baseline and moving it forward. Restoring writes all captures back, guards their
pages again and forgets them; rebaselining guards and forgets them without writing back. If a page
cannot be guarded again, the captures are all kept.
-/
namespace Rewind.Watch

/-- Wait until no fault is in flight. -/
def drain (timeout : Duration) : Op Unit := do
  let inFlight := (← get).monitor.inFlight
  if inFlight ≠ 0 then fail (.drainTimeout inFlight timeout)

/-- Guard a page again. -/
def rearmPage (page : Nat) : Op Unit := do
  let span ← Span.ofLength page Page.size
  match ← request (Machine.guard span) with
  | .ok .prompt => pure ()
  | .ok .late => halt .stalled
  | .error errno => fail (.rearm page errno)

/-- Guard pages again, in order, up to the first that cannot be. -/
def rearmAll : List Nat → Op Unit
  | [] => pure ()
  | page :: pages => do
    rearmPage page
    rearmAll pages

/-- Guard every captured page again. -/
def rearm : Op Unit := do rearmAll (← get).monitor.snapshot.addresses.items.toList

/-- Write the captures at positions below `i` back, the latest first. -/
def replayBelow : Nat → Op Unit
  | 0 => pure ()
  | i + 1 => do
    let s := (← get).monitor.snapshot
    let page ← s.addresses.get i
    let room := s.data.capacity
    write page (s.content i)
    if (← get).monitor.snapshot.data.capacity ≠ room then halt .crashed
    replayBelow i

/-- Write every capture back. A page that is guarded meanwhile is captured anew, and if the bytes
move to make room for it, the copy that is under way reads from where they were. -/
def replay : Op Nat := do
  replayBelow (← get).monitor.snapshot.size
  return (← get).monitor.snapshot.size

/-- Forget all captures. -/
def forget : Op Unit := modify fun w =>
  { w with monitor := { w.monitor with snapshot := w.monitor.snapshot.clear } }

/-- Bring all captured pages back to how they were; the number of captures. -/
def restore (again : Bool) : Op Nat := do
  let replayed ← replay
  if again then rearm
  forget
  return replayed

/-- Take what the captured pages hold now for the baseline; the number of captures. -/
def rebaseline (timeout : Duration) : Op Nat := do
  drain timeout
  let pages := (← get).monitor.snapshot.size
  rearm
  forget
  return pages

end Rewind.Watch
