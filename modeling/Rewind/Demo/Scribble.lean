import Rewind.Demo.Basic
import Rewind.Page

/-!
Scribbling on pages. Every page gets a mark at its start, which a later run finds unless the pages
were put back in between, and one more byte at an offset that moves from page to page.
-/
namespace Rewind.Demo

/-- The pages to scribble on, one after another. -/
structure Scribble where
  pages : List (Vector UInt8 Page.size)
  deriving DecidableEq, Repr

namespace Scribble

def build (args : List String) : Outcome BuildError Scribble := do
  let pages ← argument args 0 64
  if pages = 0 then .error (.error .noPages)
  else do
    let bytes ← Word.mul pages Page.size
    let _ ← allocation bytes
    return ⟨List.replicate pages (Vector.replicate Page.size 0)⟩

/-- The offset of the mark. -/
def front : Fin Page.size := ⟨0, Page.size_pos⟩

/-- The writes to page number `i`: the byte that moves, then the mark. -/
def marks (i : Nat) : List (Fin Page.size × UInt8) := [(Page.offset i, 0xA5), (front, 1)]

def scribbleOn (page : Vector UInt8 Page.size) (writes : List (Fin Page.size × UInt8)) :
    Vector UInt8 Page.size :=
  writes.foldl (fun page w => page.set w.1 w.2) page

def isMarked (page : Vector UInt8 Page.size) : Bool := page.get front != 0

/-- The sum of the numbers below `n`, which is worked out to keep the heap busy. -/
def churn (n : Nat) : Except Fault Nat := (List.range n).foldlM Word.add 0

/-- Mark every page, unless one is marked already. -/
def run (s : Scribble) : Scribble × Conclusion :=
  if s.pages.any isMarked then (s, .failed dirtyStart)
  else
    let words := s.pages.length * Page.size / 8
    let pages := s.pages.mapIdx fun i page => scribbleOn page (marks i)
    (⟨pages⟩, match churn words with
      | .error _ => .panicked
      | .ok total => if total = 0 ∧ 1 < words then .failed badResult else .completed)

end Rewind.Demo.Scribble
