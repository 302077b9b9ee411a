import Rewind.Span
import Rewind.Errno
import Rewind.Duration

/-!
What can go wrong while a harness is set up or driven. A `Failure` is a cause with the data that
tells it apart; `Failure.message` words it and `Failure.phase` names the part of the work it
belongs to. Failures of the thread that serves write faults are not among them: a writer waits on
that thread, so it ends the process instead.
-/
namespace Rewind

/-- The request on which tracking a span, or giving it up, failed. -/
inductive Stage where
  | register
  | protect
  | unprotect
  | unregister
  deriving DecidableEq, Repr

def Stage.text : Stage → String
  | .register => "UFFDIO_REGISTER"
  | .protect => "UFFDIO_WRITEPROTECT"
  | .unprotect => "UFFDIO_WRITEPROTECT (clear)"
  | .unregister => "UFFDIO_UNREGISTER"

/-- The step on which turning a region into private memory failed. -/
inductive Step where
  | makeReadable
  | mapScratch
  | mapFixed
  | unmapScratch
  | reprotect
  deriving DecidableEq, Repr

def Step.text : Step → String
  | .makeReadable => "add read permission"
  | .mapScratch => "map scratch copy"
  | .mapFixed => "map anonymous memory over the original"
  | .unmapScratch => "release scratch copy"
  | .reprotect => "reapply original protection"

inductive Failure where
  | catalog (text : String)
  | unsupported (text : String)
  | negotiation (stage : String) (errno : Errno)
  | registration (span : Span) (stage : Stage) (errno : Errno)
  | normalization (region : String) (step : Step) (errno : Errno)
  | privateMemory (errno : Errno)
  | monitorThread (errno : Errno)
  | armTimeout (timeout : Duration)
  | drainTimeout (inFlight : Nat) (timeout : Duration)
  | restoreMismatch (iteration : Nat) (span : Span)
  | rearm (page : Nat) (errno : Errno)
  | lifecycle (expected actual : String)
  | executionContext (text : String)
  | io (text : String)
  deriving DecidableEq, Repr

def Span.text (s : Span) : String := s!"{Text.hex s.start}-{Text.hex s.stop}"

def Span.record (s : Span) : String :=
  "\x7b" ++ s!"\"start_\":{s.start},\"end_\":{s.stop}" ++ "\x7d"

namespace Failure

def message : Failure → String
  | .catalog text => s!"could not enumerate memory regions: {text}"
  | .unsupported text => s!"userfaultfd write-protect monitoring is unavailable: {text}"
  | .negotiation stage errno =>
    s!"userfaultfd feature negotiation failed during {stage}: {errno.message}"
  | .registration span stage errno =>
    s!"region registration failed ({stage.text}) for {span.text}: {errno.message}"
  | .normalization region step errno =>
    s!"address space normalization failed for {region} at step `{step.text}`: {errno.message}"
  | .privateMemory errno => s!"could not map harness-private memory: {errno.message}"
  | .monitorThread errno => s!"could not start the protection monitor thread: {errno.message}"
  | .armTimeout timeout => s!"protection monitor did not arm within {timeout.text}"
  | .drainTimeout inFlight timeout =>
    s!"{inFlight} write fault(s) still unresolved {timeout.text} after the target returned"
  | .restoreMismatch iteration span =>
    s!"restored memory differs from its baseline after iteration {iteration} in {span.text}"
  | .rearm page errno =>
    s!"could not re-arm write protection for page {Text.hex page}: {errno.message}"
  | .lifecycle expected actual =>
    s!"harness is {actual}, but this operation needs it {expected}"
  | .executionContext text => s!"target execution context: {text}"
  | .io text => text

/-- The part of the work that failed, as exit messages name it. -/
def phase : Failure → String
  | .catalog _ => "region enumeration"
  | .unsupported _ | .negotiation .. => "facility negotiation"
  | .registration .. | .armTimeout _ => "region registration"
  | .normalization .. => "address-space normalization"
  | .privateMemory _ | .monitorThread _ => "harness setup"
  | .drainTimeout .. | .restoreMismatch .. | .rearm .. | .executionContext _ => "iteration"
  | .lifecycle .. => "lifecycle"
  | .io _ => "i/o"

/-- The message with which a program that stops on the failure exits. -/
def exitMessage (e : Failure) : String := s!"{e.phase} failed: {e.message}"

end Rewind.Failure
