import Rewind.Page

/-!
Half-open spans of addresses, and the set operations on them: intersection, the pieces left of a
span when another is cut out, containment.
-/
namespace Rewind

/-- The addresses from `start` up to, and not including, `stop`. -/
structure Span where
  start : Nat
  stop : Nat
  ordered : start ≤ stop := by omega
  bounded : stop < Word.limit := by omega
  deriving DecidableEq, Repr

namespace Span

instance : Inhabited Span := ⟨⟨0, 0, Nat.le_refl 0, by decide⟩⟩

/-- The span between two words, which the caller promises to be in order. -/
def between (start stop : Nat) (bounded : stop < Word.limit) : Except Fault Span :=
  if h : start ≤ stop then .ok ⟨start, stop, h, bounded⟩ else .error (.broken .ordered)

/-- The span of `length` bytes from `start` on; faults where its end is no word. -/
def ofLength (start length : Nat) : Except Fault Span :=
  if h : start + length < Word.limit then .ok ⟨start, start + length, Nat.le_add_right _ _, h⟩
  else .error (.overflow .add)

def size (s : Span) : Nat := s.stop - s.start

def isEmpty (s : Span) : Bool := s.start == s.stop

def Holds (s : Span) (p : Nat) : Prop := s.start ≤ p ∧ p < s.stop

instance (s : Span) (p : Nat) : Decidable (s.Holds p) := inferInstanceAs (Decidable (_ ∧ _))

instance : Membership Nat Span := ⟨fun s p => s.Holds p⟩

instance (s : Span) (p : Nat) : Decidable (p ∈ s) := inferInstanceAs (Decidable (s.Holds p))

theorem mem_def {s : Span} {p : Nat} : p ∈ s ↔ s.start ≤ p ∧ p < s.stop := Iff.rfl

/-- The endpoints of one span enclose those of another. -/
def contains (s t : Span) : Bool := decide (s.start ≤ t.start ∧ t.stop ≤ s.stop)

/-- The common part; where there is none, an empty span at the later start. -/
def intersect (s t : Span) : Span where
  start := max s.start t.start
  stop := max (max s.start t.start) (min s.stop t.stop)
  ordered := by omega
  bounded := by have := s.ordered; have := s.bounded; have := t.ordered; have := t.bounded; omega

def intersects (s t : Span) : Bool := decide (max s.start t.start < min s.stop t.stop)

/-- What is left of `s` once `t` is cut out: at most two pieces, in address order. -/
def subtract (s t : Span) : List Span :=
  if s.intersects t then
    (if h : s.start < t.start then
      [⟨s.start, t.start, Nat.le_of_lt h, Nat.lt_of_le_of_lt t.ordered t.bounded⟩] else []) ++
    (if h : t.stop < s.stop then [⟨t.stop, s.stop, Nat.le_of_lt h, s.bounded⟩] else [])
  else [s]

def compare (s t : Span) : Ordering :=
  (Ord.compare s.start t.start).then (Ord.compare s.stop t.stop)

theorem intersects_iff {s t : Span} :
    s.intersects t = true ↔ max s.start t.start < min s.stop t.stop := by simp [intersects]

theorem contains_iff {s t : Span} :
    s.contains t = true ↔ s.start ≤ t.start ∧ t.stop ≤ s.stop := by simp [contains]

end Rewind.Span
