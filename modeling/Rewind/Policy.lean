import Rewind.Region

/-!
Which parts of an address space are monitored. A policy is a list of exclusions in the order they
were made; `Policy.classify` splits every region where an excluded span cuts through it and gives
each piece a verdict.
-/
namespace Rewind

/-- Why memory is left alone. -/
inductive Reason where
  /-- Stacks and tables that the harness mapped for itself. -/
  | ownMemory
  /-- The stack on which iterations are started. -/
  | ownStack
  /-- The code that runs while everything else is mapped anew. -/
  | ownCode
  deriving DecidableEq, Repr

inductive Verdict where
  | monitored
  | pseudo
  | noAccess
  | excluded (reason : Reason)
  deriving DecidableEq, Repr

def Verdict.text : Verdict → String
  | .monitored => "monitored"
  | .pseudo => "skipped: pseudo mapping"
  | .noAccess => "skipped: no access"
  | .excluded .ownMemory => "skipped: harness-private"
  | .excluded .ownStack => "skipped: scheduler stack"
  | .excluded .ownCode => "skipped: harness code"

inductive Exclusion where
  /-- Cut exactly this span out of the regions it meets. -/
  | span (cut : Span) (reason : Reason)
  /-- Drop every region that holds this address. -/
  | holding (address : Nat) (reason : Reason)
  deriving DecidableEq, Repr

structure Policy where
  exclusions : List Exclusion
  deriving DecidableEq, Repr, Inhabited

namespace Policy

def empty : Policy := ⟨[]⟩

/-- Exclude a span; an empty one changes nothing. -/
def excludeSpan (p : Policy) (cut : Span) (reason : Reason) : Policy :=
  if cut.isEmpty then p else ⟨p.exclusions ++ [.span cut reason]⟩

def excludeHolding (p : Policy) (address : Nat) (reason : Reason) : Policy :=
  ⟨p.exclusions ++ [.holding address reason]⟩

/-- The reason of the first exclusion by address that hits the span. -/
def wholeReason (p : Policy) (s : Span) : Option Reason :=
  p.exclusions.findSome? fun e =>
    match e with
    | .holding address reason => if address ∈ s then some reason else none
    | .span .. => none

/-- One cut through one piece. What is excluded already stays as it is. -/
def cutPiece (cut : Span) (reason : Reason) (piece : Span × Verdict) : List (Span × Verdict) :=
  if piece.2 = .monitored ∧ piece.1.intersects cut = true then
    (piece.1.subtract cut).map (·, .monitored) ++ [(piece.1.intersect cut, .excluded reason)]
  else [piece]

/-- One exclusion applied to all pieces so far. -/
def applyTo (pieces : List (Span × Verdict)) : Exclusion → List (Span × Verdict)
  | .span cut reason => pieces.flatMap (cutPiece cut reason)
  | .holding .. => pieces

/-- The pieces into which a span falls, in address order. -/
def pieces (p : Policy) (s : Span) : List (Span × Verdict) :=
  (p.exclusions.foldl applyTo [(s, .monitored)]).mergeSort fun a b => a.1.start ≤ b.1.start

/-- The pieces of one region with their verdicts. -/
def classifyRegion (p : Policy) (r : Region) : Except Fault (List (Region × Verdict)) :=
  if r.isPseudo then .ok [(r, .pseudo)]
  else if r.access.isNone then .ok [(r, .noAccess)]
  else match p.wholeReason r.span with
    | some reason => .ok [(r, .excluded reason)]
    | none => (p.pieces r.span).mapM fun piece => do
        let part ← r.subregion piece.1
        return (part, piece.2)

/-- Every piece of every region with its verdict. -/
def classify (p : Policy) : List Region → Except Fault (List (Region × Verdict))
  | [] => .ok []
  | r :: rs => do
    let first ← p.classifyRegion r
    let others ← p.classify rs
    return first ++ others

/-- The pieces that the verdicts leave to be monitored. -/
def monitoredOf (classified : List (Region × Verdict)) : List Region :=
  (classified.filter fun piece => piece.2 = .monitored).map (·.1)

def select (p : Policy) (regions : List Region) : Except Fault (List Region) :=
  (p.classify regions).map monitoredOf

end Rewind.Policy
