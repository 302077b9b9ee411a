import Rewind.Demo.Catalog
import Rewind.Exit
import Rewind.Maps.Listing

/-!
The subcommands that only list something: the regions of the process with what a harness would do
to them, and the routines that are built in.
-/
namespace Rewind.CommandLine

/-- The policy of a process that runs on one stack and one piece of code of its own. -/
def ownPolicy (stack code : Nat) : Policy :=
  (Policy.empty.excludeHolding stack .ownStack).excludeHolding code .ownCode

def listRegions (json : Bool) (policy : Policy) (regions : Outcome Failure (List Region))
    (console : Console) : Except Fault (Exit × Console) :=
  match regions with
  | .ok regions => do
    let text ← Maps.listingAs json policy regions
    return Exit.afterPrinting text Exit.setupCode .success console
  | .error (.error cause) => .ok (.ofFailure Exit.setupCode cause, console)
  | .error (.fault cause) => .error cause

def listTargets (console : Console) : Exit × Console :=
  Exit.afterPrinting Demo.listing Exit.usageCode .success console

end Rewind.CommandLine
