import Rewind.Proofs.Restores
import Rewind.Watch.Arming

/-! What the thread does before and after its fault loop: it tracks and guards the regions handed
over one by one, tells how that went, and ends where a request is refused or the word is given. -/
namespace Rewind

open Monitor (Point State Thread Readiness)

/-- The two passes of the setup: tracking all regions, then guarding them. -/
def Stage.ofPass : Bool → Stage
  | false => .register
  | true => .protect

/-- The request that a pass of the setup makes for a region. -/
def Machine.enlist : Bool → Span → Act Machine Errno Return
  | false => register
  | true => guard

namespace Monitor.Point

/-- The point at which a pass of the setup turns to a region. -/
def enlist : Bool → Nat → Point
  | false => .register
  | true => .guard

/-- The point after a pass of the setup. -/
def enlisted : Bool → Point
  | false => .registered
  | true => .armed

end Monitor.Point

namespace Watch

/-- One step outside of the fault loop. -/
inductive SetupStep (w : Watch) : Point → Next → Watch → Prop
  | through {g : Bool} {i : Nat} (hi : w.monitor.slots.items[i]? = none) :
      SetupStep w (.enlist g i) (.go (.enlisted g)) w
  | enlist {g : Bool} {i : Nat} {slot : Slot} {r : Machine.Return} {m : Machine}
      (hi : w.monitor.slots.items[i]? = some slot)
      (h : (Machine.enlist g slot.span).on w.toMachine = (.ok r, m)) :
      SetupStep w (.enlist g i) (.after r (.enlist g (i + 1))) { w with toMachine := m }
  | refuse {g : Bool} {i : Nat} {slot : Slot} {errno : Errno} {m : Machine}
      (hi : w.monitor.slots.items[i]? = some slot)
      (h : (Machine.enlist g slot.span).on w.toMachine = (.error (.error errno), m)) :
      SetupStep w (.enlist g i) (.go (.failed i (.ofPass g) errno)) { w with toMachine := m }
  | registered : SetupStep w .registered (.go (.guard 0))
      { w with monitor := { w.monitor with state := .registered } }
  | armed : SetupStep w .armed (.go .ready)
      { w with monitor := { w.monitor with state := .armed } }
  | ready : SetupStep w .ready (.go .listen)
      { w with monitor := { w.monitor with readiness := .armed } }
  | failed {i : Nat} {stage : Stage} {errno : Errno} :
      SetupStep w (.failed i stage errno) (.go (.refused i stage errno))
        { w with monitor := { w.monitor with state := .failed } }
  | refused {i : Nat} {stage : Stage} {errno : Errno} :
      SetupStep w (.refused i stage errno) (.go .ended)
        { w with monitor := { w.monitor with readiness := .refused i stage errno } }
  | stop : SetupStep w .stop (.go .ended)
      { w with monitor := { w.monitor with state := .stopped } }
  | ended : SetupStep w .ended .block w

end Watch

/-- The point is outside of the fault loop. -/
def Monitor.Point.InSetup : Point → Prop
  | .register _ | .registered | .guard _ | .armed | .ready | .stop | .failed .. | .refused ..
  | .ended => True
  | _ => False

/-- Requests of the setup are refused or granted and never fault. -/
theorem Machine.enlist_meets (g : Bool) (s : Span) (m : Machine) :
    (enlist g s).Meets m (fun r m' => (enlist g s).on m = (.ok r, m'))
      (fun e m' => ∃ errno, e = .error errno ∧
        (enlist g s).on m = (.error (.error errno), m')) := by
  have safe : (enlist g s).Meets m (fun _ _ => True) fun e _ => ∃ errno, e = .error errno := by
    cases g with
    | true =>
      simp only [enlist, guard]
      refine requestMemory_meets.mono (fun _ _ _ => trivial) ?_
      intro _ _ hpost
      obtain ⟨errno, he, -⟩ := hpost
      exact ⟨errno, he⟩
    | false =>
      simp only [enlist, register, Act.meets_bind, meets_ask]
      split
      · next errno _ => exact Act.meets_fail.mpr ⟨errno, rfl⟩
      · simp only [Act.meets_bind, Act.meets_request]
        refine ⟨fun _ _ => ?_, fun errno _ => ⟨errno, rfl⟩⟩
        split
        · simp only [Act.meets_ite, Act.meets_bind, Act.meets_fail, Act.meets_pure]
          exact ⟨fun _ => ⟨.opnotsupp, rfl⟩, fun _ => trivial⟩
        · simp only [Act.meets_pure]
  refine ((Act.meets_self _ m).and safe).mono (fun _ _ h => h.1) ?_
  intro _ m' hpost
  obtain ⟨h, errno, rfl⟩ := hpost
  exact ⟨errno, rfl, h⟩

namespace Watch

theorem SetupStep.thread {w w' : Watch} {p : Point} {next : Next} (h : SetupStep w p next w') :
    w'.monitor.thread = w.monitor.thread := by cases h <;> rfl

theorem perform_enlist (g : Bool) (i : Nat) : perform (.enlist g i) = (do
    match (← get).monitor.slots.items[i]? with
    | none => return .go (.enlisted g)
    | some slot =>
      match ← request (Machine.enlist g slot.span) with
      | .ok returned => return .after returned (.enlist g (i + 1))
      | .error errno => return .go (.failed i (.ofPass g) errno)) := by
  cases g <;> rfl

theorem perform_enlist_meets {w : Watch} (g : Bool) (i : Nat) :
    (perform (.enlist g i)).Meets w (SetupStep w (.enlist g i)) (fun _ _ => False) := by
  rw [perform_enlist]
  simp only [Act.meets_bind, Act.meets_get]
  split
  · next hi => exact Act.meets_pure.mpr (.through hi)
  · next slot hi =>
    rw [Act.meets_bind, meets_request]
    apply (Machine.enlist_meets g slot.span w.toMachine).mono
    · intro r m h
      exact Act.meets_pure.mpr (.enlist hi h)
    · intro _ m hpost
      obtain ⟨errno, rfl, h⟩ := hpost
      exact Act.meets_pure.mpr (.refuse hi h)

/-- Every step outside of the loop is one of `SetupStep`. -/
theorem perform_setup_meets {w : Watch} {p : Point} (hp : p.InSetup) :
    (perform p).Meets w (SetupStep w p) (fun _ _ => False) := by
  cases p with
  | register i => exact perform_enlist_meets false i
  | guard i => exact perform_enlist_meets true i
  | registered =>
    simp only [perform, Act.meets_bind, meets_setState, Act.meets_pure]
    exact .registered
  | armed =>
    simp only [perform, Act.meets_bind, meets_setState, Act.meets_pure]
    exact .armed
  | ready =>
    simp only [perform, Act.meets_bind, meets_modifyMonitor, Act.meets_pure]
    exact .ready
  | stop =>
    simp only [perform, Act.meets_bind, meets_setState, Act.meets_pure]
    exact .stop
  | failed i stage errno =>
    simp only [perform, Act.meets_bind, meets_setState, Act.meets_pure]
    exact .failed
  | refused i stage errno =>
    simp only [perform, Act.meets_bind, meets_modifyMonitor, Act.meets_pure]
    exact .refused
  | ended => exact Act.meets_pure.mpr .ended
  | _ => exact hp.elim

end Watch

end Rewind
