import Rewind.Demo.Scribble
import Rewind.Demo.Sorting
import Rewind.Random.Seed
import Rewind.Text.Layout

/-!
The catalog of built-in routines: how each is called, set up, and run, either on data of its own or
on bytes that lie in memory from some place on.
-/
namespace Rewind.Demo

structure Entry where
  name : String
  usage : String
  about : String
  deriving DecidableEq, Repr

def catalog : List Entry := [
  ⟨"sort", "sort [count] [seed]", "Sort `count` random u64s in place and print the median."⟩,
  ⟨"scribble", "scribble [pages]",
    "Dirty one byte in each of `pages` pages and churn the heap."⟩]

def listing : String :=
  String.join (catalog.map fun e => Text.padRight 24 ' ' e.usage ++ " " ++ e.about ++ "\n")

def BuildError.message : BuildError → String
  | .unknown name =>
    s!"unknown target `{name}`; built-in targets: " ++
      String.intercalate ", " (catalog.map (·.name))
  | .argument position text => s!"could not parse argument {position} (`{text}`)"
  | .tooFew => "sort needs a count of at least 2"
  | .allEqual => "sort needs at least two distinct values"
  | .noPages => "scribble needs at least one page"

end Demo

/-- A built-in routine with its data. -/
inductive Demo where
  | sort (state : Demo.Sorting)
  | scribble (state : Demo.Scribble)

namespace Demo

/-- Set up the routine of a name, with numbers from a generator. -/
def buildFrom (generate : UInt64 → Nat → List UInt64) (name : String) (args : List String) :
    Outcome BuildError Demo :=
  if name = "sort" then do return .sort (← Sorting.build generate args)
  else if name = "scribble" then do return .scribble (← Scribble.build args)
  else .error (.error (.unknown name))

theorem buildFrom_sort (generate : UInt64 → Nat → List UInt64) (args : List String) :
    buildFrom generate "sort" args = Sorting.build generate args >>= fun s => .ok (.sort s) :=
  if_pos rfl

theorem buildFrom_scribble (generate : UInt64 → Nat → List UInt64) (args : List String) :
    buildFrom generate "scribble" args = Scribble.build args >>= fun s => .ok (.scribble s) :=
  if_neg (by decide)

def build (name : String) (args : List String) : Outcome BuildError Demo :=
  buildFrom Random.ofSeed name args

def run (d : Demo) (console : Console) : Demo × Conclusion × Console :=
  match d with
  | .sort s =>
    let (s, conclusion, console) := s.run console
    (.sort s, conclusion, console)
  | .scribble s =>
    let (s, conclusion) := s.run
    (.scribble s, conclusion, console)

def wordBytes (x : UInt64) : List UInt8 :=
  (List.range 8).map fun i => (x >>> UInt64.ofNat (8 * i)).toUInt8

/-- The number that eight bytes are, the low ones first. -/
def wordAt (bytes : Array UInt8) (i : Nat) : UInt64 :=
  (List.range 8).foldr
    (fun k x => (x <<< 8) ||| (bytes.getD (8 * i + k) 0).toUInt64) 0

def image : Demo → Array UInt8
  | .sort s => (s.data.flatMap wordBytes).toArray
  | .scribble s => s.pages.foldl (fun bytes page => bytes ++ page.toArray) #[]

/-- The same routine with data read from bytes. -/
def withImage (d : Demo) (bytes : Array UInt8) : Demo :=
  match d with
  | .sort s => .sort { s with data := (List.range s.data.length).map (wordAt bytes) }
  | .scribble s => .scribble ⟨(List.range s.pages.length).map fun i =>
      Vector.ofFn fun k => bytes.getD (i * Page.size + k) 0⟩

/-- What a run of a routine writes to memory from `place` on, where it does. -/
def writesAt (place : Nat) : Demo → List (Nat × Array UInt8)
  | d@(.sort _) => [(place, d.image)]
  | .scribble s =>
    (List.range s.pages.length).flatMap fun i =>
      (Scribble.marks i).map fun w => (place + i * Page.size + w.1, #[w.2])

/-- The routine on data that lies in memory from `place` on. -/
def target (d : Demo) (place : Nat) : Target Console := fun console _ memory =>
  let present := d.withImage (memory.read place d.image.size)
  let (after, conclusion, console) := present.run console
  ⟨if conclusion = .failed dirtyStart then [] else after.writesAt place, conclusion, console⟩

end Rewind.Demo
