import Rewind.Decimal.Fixed
import Rewind.Decimal.Shortest
import Rewind.Json
import Rewind.Report.Summary

/-!
The report of a run, as lines of text and as a JSON document. Text gives times with three places;
JSON gives them with the fewest digits that read back.
-/
namespace Rewind

structure Report where
  target : String
  summary : Report.Summary Float
  samples : List Sample

namespace Report

def new (target : String) (run : Series) : Except Fault Report := do
  let summary ← summarize Arithmetic.binary run.samples (run.aborted.map Failure.message)
  return ⟨target, summary, run.samples⟩

def micros (x : Float) : String := Decimal.fixed 3 x

def sampleLine (i : Nat) (s : Sample) : String :=
  let number := Text.padLeft 4 ' ' (toString (i + 1))
  let time := Text.padLeft 12 ' ' (micros (Arithmetic.binary.ofDuration s.duration))
  let pages := Text.padLeft 5 ' ' (toString s.pagesRestored)
  let ending := match s.ending with
    | .completed => ""
    | .failed code => s!", failed ({code})"
  s!"iteration {number}: {time} us, {pages} page(s){ending}\n"

def text (r : Report) : String :=
  let s := r.summary
  String.join (r.samples.mapIdx sampleLine) ++
    s!"{r.target}: {s.iterations} iteration(s), {s.failures} failed\n" ++
    s!"  min {micros s.min} us  median {micros s.median} us  mean {micros s.mean} us" ++
    s!"  max {micros s.max} us  stddev {micros s.deviation} us\n" ++
    s!"  pages restored: {s.pagesRestored}\n" ++
    (match s.aborted with
    | some cause => s!"  run aborted: {cause}\n"
    | none => "")

/-- Numbers from `1e-05` up to, and without, `1e+16` are written out. -/
def jsonLayout : Decimal.Layout := ⟨-5, 16, 2⟩

def jsonNumber (x : Float) : Json :=
  match jsonLayout.text? x with
  | some text => .number text
  | none => .null

def jsonEnding : Ending → Json
  | .completed => .string "Completed"
  | .failed code => .record [("Failed", .number (toString code))]

def jsonSample (i : Nat) (s : Sample) : Json :=
  .record [("iteration", .nat (i + 1)),
    ("duration_us", jsonNumber (Arithmetic.binary.ofDuration s.duration)),
    ("outcome", jsonEnding s.ending), ("pages_restored", .nat s.pagesRestored)]

def jsonSummary (s : Summary Float) : Json :=
  .record [("iterations", .nat s.iterations), ("failures", .nat s.failures),
    ("min_us", jsonNumber s.min), ("median_us", jsonNumber s.median),
    ("mean_us", jsonNumber s.mean), ("max_us", jsonNumber s.max),
    ("stddev_us", jsonNumber s.deviation), ("pages_restored", .nat s.pagesRestored),
    ("aborted", match s.aborted with
      | some cause => .string cause
      | none => .null)]

def json (r : Report) : String :=
  (Json.record [("target", .string r.target), ("summary", jsonSummary r.summary),
    ("samples", .list (r.samples.mapIdx jsonSample))]).render ++ "\n"

end Rewind.Report
