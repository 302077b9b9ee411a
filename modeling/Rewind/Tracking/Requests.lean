import Rewind.Span
import Rewind.Memory.Calls

/-!
The kernel's answers to requests about tracking. Tracking is switched on and off for the mapped
pages of a span; a tracked page can be guarded, which holds back the next write to it.
-/
namespace Rewind.Memory

/-- The mapped pages of a span, in ascending order. -/
def pagesIn (m : Memory) (s : Span) : List Nat :=
  m.frames.keys.filter fun n => s.start ≤ n * Page.size && n * Page.size < s.stop

/-- A span on which the kernel takes requests about tracking. -/
def IsTrackable (s : Span) : Prop :=
  Page.IsAligned s.start ∧ Page.IsAligned s.size ∧ s.size ≠ 0 ∧ s.stop ≤ Mapping.limit

instance (s : Span) : Decidable (IsTrackable s) := inferInstanceAs (Decidable (_ ∧ _))

/-- Mark the mapped pages of a span as tracked or not. Pages given up are no longer guarded. -/
def setTracked (m : Memory) (s : Span) (tracked : Bool) : Except Errno Unit × Memory :=
  if ¬ IsTrackable s then (.error .inval, m)
  else match m.pagesIn s with
  | [] => (.error .inval, m)
  | pages => (.ok (), pages.foldl (fun m n => m.adjust n fun f =>
      { f with tracked := tracked, guarded := tracked && f.guarded }) m)

def register (m : Memory) (s : Span) : Except Errno Unit × Memory := m.setTracked s true

def unregister (m : Memory) (s : Span) : Except Errno Unit × Memory := m.setTracked s false

/-- Guard pages or stop guarding them, in order, up to the first that is not tracked. -/
def setGuardedPages (guarded : Bool) : List Nat → Memory → Except Errno Unit × Memory
  | [], m => (.ok (), m)
  | n :: ns, m =>
    match m.frame? n with
    | some f =>
      if f.tracked then setGuardedPages guarded ns (m.put n { f with guarded := guarded })
      else (.error .noent, m)
    | none => (.error .noent, m)

/-- Guard the mapped pages of a span, or stop guarding them. -/
def setGuarded (m : Memory) (s : Span) (guarded : Bool) : Except Errno Unit × Memory :=
  if ¬ IsTrackable s then (.error .inval, m)
  else match m.pagesIn s with
  | [] => (.error .noent, m)
  | pages => setGuardedPages guarded pages m

def isGuarded (m : Memory) (n : Nat) : Bool :=
  match m.frame? n with
  | some f => f.guarded
  | none => false

end Rewind.Memory
