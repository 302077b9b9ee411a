import Rewind.Watch.Thread

/-!
Starting and stopping a monitor. Arming hands regions over, starts the thread and waits for what it
says; teardown gives up every region ever handed over, then stops the thread.
-/
namespace Rewind.Watch

/-- Start the thread, unless its stack is too small or the kernel refuses. -/
def startThread : Op Unit := do
  if (← get).monitor.stack.usable < Monitor.smallestStack then fail (.monitorThread .inval)
  match ← onMachine (Machine.ask .startThread) with
  | some (.refuse errno) => fail (.monitorThread errno)
  | _ => modifyMonitor fun m => { m with thread := some .fresh }

/-- Give the word to stop and wait for the end of the thread, if there is one. -/
def join : Op Unit := do
  match (← get).monitor.thread with
  | none => pure ()
  | some _ =>
    modifyMonitor fun m => { m with stopSignalled := true }
    serve
    match (← get).monitor.thread with
    | some ⟨.ended, _⟩ => modifyMonitor fun m => { m with thread := none }
    | _ => halt .stalled

/-- What the thread is taken to have said: what was said in an earlier life still counts. -/
def heard (earlier : Monitor.Readiness) : Op Monitor.Readiness := do
  if earlier = .pending then return (← get).monitor.readiness else return earlier

/-- Guard the regions of a table and wait for the thread to say that it did. -/
def arm (table : List Slot) (timeout : Duration) : Op Unit := do
  if (← get).monitor.thread.isSome then fail (.lifecycle "unarmed" "armed")
  ((PrivateArray.extend Mapping.refusal table.toArray).mapError
    fun e => Stop.failure (.privateMemory e)).focus slots
  startThread
  let earlier := (← get).monitor.readiness
  serve
  match ← heard earlier with
  | .armed =>
    modifyMonitor fun m => { m with armed := true }
    onMachine (Machine.log .info .monitor (s!"armed write protection on {table.length} region(s), "
      ++ s!"{Machine.totalSize table} bytes"))
  | .refused index stage errno =>
    join
    match table[index]? with
    | some slot => fail (.registration slot.span stage errno)
    | none => throw (.fault (.outOfBounds table.length index))
  | .pending => fail (.armTimeout timeout)

/-- Put one of the last requests about a region, and note its refusal. -/
def release (stage : Stage) (span : Span) (act : Act Machine Errno Machine.Return) :
    Op (Option Failure) := do
  match ← request act with
  | .ok .prompt => return none
  | .ok .late => halt .stalled
  | .error errno => return some (.registration span stage errno)

/-- Enter a refused request of the teardown in the journal. -/
def logRefusal : Option Failure → Op Unit
  | some (.registration span stage errno) =>
    onMachine (Machine.log .debug .monitor
      s!"{stage.text} failed for {span.text} during teardown: {errno.message}")
  | _ => pure ()

/-- Give up the regions of a list; the refusals, in the order of the requests. -/
def releaseAll : List Slot → Op (List Failure)
  | [] => return []
  | slot :: slots => do
    let unguarded ← release .unprotect slot.span (Machine.unguard slot.span)
    let untracked ← release .unregister slot.span (Machine.unregister slot.span)
    logRefusal unguarded
    logRefusal untracked
    let others ← releaseAll slots
    return unguarded.toList ++ untracked.toList ++ others

/-- Give up all regions and stop the thread. Refusals matter only to a monitor that was armed, and
then the first of them is reported once all is done. -/
def teardown : Op Unit := do
  let refusals ← releaseAll (← get).monitor.slots.items.toList
  let wasArmed := (← get).monitor.armed
  join
  modifyMonitor fun m => { m with
    armed := false, state := if m.state = .failed then .failed else .stopped }
  match refusals with
  | first :: _ => if wasArmed then fail first
  | [] => pure ()

/-- Make room for captures. -/
def reservePages (pages : Nat) : Op Unit :=
  ((Snapshot.reserve Mapping.refusal pages).mapError
    fun e => Stop.failure (.privateMemory e)).focus snapshot

/-- Let go of the monitor: tear it down if its thread still runs, whatever comes of it. -/
def close : Op Unit := do
  if (← get).monitor.thread.isSome then
    let _ ← Stop.failureOf teardown

end Rewind.Watch
