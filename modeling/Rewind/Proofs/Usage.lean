import Rewind.Proofs.Headroom
import Rewind.Proofs.Lives
import Rewind.Proofs.Unscripted

/-! What a monitor may go through: calls of its owner and writes of the process, in any order, on
whatever machine and with any result but the end of the process. Between two of them it is steady. -/
namespace Rewind

open Monitor (Point State Thread)

namespace Monitor

/-- A monitor whose thread has no page in hand, though it may be in the middle of its setup. -/
structure Unserved (m : Monitor) : Prop where
  whole : m.snapshot.Whole
  usable : ∀ page ∈ m.snapshot.addresses.items, Page.Usable page
  inbox : m.inbox = none
  served : ∀ t, m.thread = some t → t.next.served? = none

theorem Steady.unserved {m : Monitor} (h : m.Steady) : m.Unserved :=
  ⟨h.whole, h.usable, h.inbox, fun t ht => (h.thread t ht).served⟩

theorem Unserved.threaded {m : Monitor} (h : m.Unserved) {p : Point} (hp : p.served? = none)
    (held : Bool) : Monitor.Unserved { m with thread := some ⟨p, held⟩ } := by
  refine ⟨h.whole, h.usable, h.inbox, ?_⟩
  rintro _ ⟨⟩
  exact hp

end Monitor

namespace Watch

variable {w w' : Watch} {p : Point} {next : Next}

/-- A step of the setup's two passes leaves the captures alone, and comes closer to their end. -/
theorem SetupStep.nears (hs : SetupStep w p next w') (hp : p.Enlists) :
    next ≠ .block ∧ w'.monitor.snapshot = w.monitor.snapshot ∧
      w'.monitor.inbox = w.monitor.inbox ∧ w'.monitor.slots = w.monitor.slots ∧
      (next.point p).served? = none ∧ ((next.point p).Enlists →
        (next.point p).untilReady w.monitor.slots.size < p.untilReady w.monitor.slots.size) := by
  cases hs with
  | @through g i =>
    refine ⟨by simp, rfl, rfl, rfl, ?_, ?_⟩
    · cases g <;> rfl
    · cases g <;> simp only [Next.point, Point.enlisted, Point.enlist, Point.untilReady] <;> omega
  | @enlist g i slot r m hi =>
    obtain ⟨hlt, -⟩ := Array.getElem?_eq_some_iff.mp hi
    rw [← PrivateArray.size] at hlt
    refine ⟨?_, rfl, rfl, rfl, ?_, fun _ => ?_⟩
    · cases r <;> simp [Next.after]
    · rw [Next.point_after]
      cases g <;> rfl
    · rw [Next.point_after]
      cases g <;> simp only [Point.enlist, Point.untilReady] <;> omega
  | refuse => exact ⟨by simp, rfl, rfl, rfl, rfl, False.elim⟩
  | registered =>
    refine ⟨by simp, rfl, rfl, rfl, rfl, fun _ => ?_⟩
    simp only [Next.point, Point.untilReady]
    omega
  | _ => exact hp.elim

theorem inSetup_of_enlists (h : p.Enlists) : p.InSetup := by
  cases p <;> first | exact h.elim | trivial

/-- The thread has its setup behind it once it has taken so many steps, unless it is held before. -/
def SetUpIn (steps : Nat) (w : Watch) : Prop :=
  ∀ p, w.monitor.thread = some ⟨p, false⟩ → p.Enlists →
    p.untilReady w.monitor.slots.size ≤ steps

theorem steady_of_setUpIn_zero (h : w.monitor.Unserved) (hn : SetUpIn 0 w) : w.monitor.Steady := by
  refine ⟨h.whole, h.usable, h.inbox, fun t ht => ⟨h.served t ht, fun hp => ?_⟩⟩
  obtain ⟨p, held⟩ := t
  cases held with
  | true => rfl
  | false =>
    have hzero := hn p ht hp
    cases p <;> first | exact hp.elim | (simp only [Point.untilReady] at hzero; omega)

/-- A step of a thread that has no page in hand, and no message to take one from. -/
theorem perform_unserved_meets {steps : Nat} (h : w.monitor.Unserved)
    (ht : w.monitor.thread = some ⟨p, false⟩) (hn : SetUpIn (steps + 1) w) :
    (perform p).Meets w
      (fun next w' => (w'.went next).monitor.Unserved ∧
        SetUpIn (match next with | .go _ => steps | .hold _ | .block => 0) (w'.went next) ∧
        w'.monitor.snapshot = w.monitor.snapshot)
      (fun e _ => EndsProcess e) := by
  have hserved := h.served _ ht
  by_cases hp : p.Enlists
  · refine (perform_setup_meets (inSetup_of_enlists hp)).mono ?_ fun _ _ he => he.elim
    intro next w' hs
    obtain ⟨hblock, hsnap, hi, hslots, hserved', hnear⟩ := hs.nears hp
    have h' : w'.monitor.Unserved :=
      ⟨hsnap ▸ h.whole, hsnap ▸ h.usable, hi.trans h.inbox, hs.thread ▸ h.served⟩
    cases next with
    | go q =>
      refine ⟨h'.threaded hserved' false, ?_, hsnap⟩
      rintro _ ⟨⟩ hq
      have hle := hn p ht hp
      have hlt := hnear hq
      simp only [went, hslots]
      simp only [Next.point] at hlt
      omega
    | hold q => exact ⟨h'.threaded hserved' true, by rintro _ ⟨⟩, hsnap⟩
    | block => exact absurd rfl hblock
  · refine (perform_vacant_meets h.whole ⟨hserved, hp⟩).mono ?_ fun _ _ he => he
    intro next w' hs
    cases hs with
    | @goes q _ hq _ hsnap hi =>
      have h' : Monitor.Unserved { w'.monitor with thread := some ⟨q, false⟩ } :=
        ⟨hsnap ▸ h.whole, hsnap ▸ h.usable, hi.trans h.inbox, by rintro _ ⟨⟩; exact hq.served⟩
      refine ⟨h', ?_, hsnap⟩
      rintro _ ⟨⟩ hq'
      exact absurd hq' hq.enlists
    | takes _ _ hi =>
      rw [h.inbox] at hi
      cases hi
    | blocks =>
      refine ⟨h, ?_, rfl⟩
      intro q hq hq'
      rw [show w.monitor.thread = some ⟨q, false⟩ from hq] at ht
      cases ht
      exact absurd hq' hp

/-- Given the steps that the setup takes, the thread gets through with it, or is held. -/
theorem serveFor_unserved_meets {steps : Nat} (h : w.monitor.Unserved) (hn : SetUpIn steps w) :
    (serveFor steps).Meets w
      (fun _ w' => w'.monitor.Steady ∧ w'.monitor.snapshot = w.monitor.snapshot)
      (fun e _ => EndsProcess e) := by
  induction steps generalizing w with
  | zero => exact Act.meets_pure.mpr ⟨steady_of_setUpIn_zero h hn, rfl⟩
  | succ steps ih =>
    by_cases ht : ∃ p, w.monitor.thread = some ⟨p, false⟩
    · obtain ⟨p, ht⟩ := ht
      rw [serveFor_succ_meets ht]
      refine (perform_unserved_meets h ht hn).mono ?_ fun _ _ he => he
      rintro next w' ⟨h', hn', hsnap⟩
      rw [← snapshot_went w' next] at hsnap
      cases next with
      | go q => exact (ih h' hn').mono (fun _ _ hw => ⟨hw.1, hw.2.trans hsnap⟩) fun _ _ he => he
      | hold q => exact ⟨steady_of_setUpIn_zero h' hn', hsnap⟩
      | block => exact ⟨steady_of_setUpIn_zero h' hn', hsnap⟩
    · have hzero : SetUpIn 0 w := fun p hp => absurd ⟨p, hp⟩ ht
      simp only [serveFor, Act.meets_bind, Act.meets_get]
      split
      · next p hp => exact absurd ⟨p, hp⟩ ht
      · exact Act.meets_pure.mpr ⟨steady_of_setUpIn_zero h hzero, rfl⟩

theorem serve_unserved_meets (h : w.monitor.Unserved) : serve.Meets w
    (fun _ w' => w'.monitor.Steady ∧ w'.monitor.snapshot = w.monitor.snapshot)
    (fun e _ => EndsProcess e) := by
  simp only [serve, Act.meets_bind, Act.meets_get]
  refine serveFor_unserved_meets h fun p _ hp => ?_
  unfold patience
  cases p <;> first | exact hp.elim | (simp only [Point.untilReady]; omega)

/-- Nothing but the thread and what others see of the monitor changes while it is told to stop. -/
theorem join_steady_meets (h : w.monitor.Steady) : join.Meets w
    (fun _ w' => w'.monitor.Steady ∧ w'.monitor.snapshot = w.monitor.snapshot)
    (fun e _ => EndsProcess e) := by
  simp only [join, Act.meets_bind, Act.meets_get]
  cases ht : w.monitor.thread with
  | none => exact Act.meets_pure.mpr ⟨h, rfl⟩
  | some t =>
    have htold : Monitor.Unserved { w.monitor with stopSignalled := true } :=
      ⟨h.whole, h.usable, h.inbox, h.unserved.served⟩
    simp only [Act.meets_bind, meets_modifyMonitor]
    refine (serve_unserved_meets (w := ⟨w.toMachine, _⟩) htold).mono ?_ fun _ _ he => he
    rintro _ w' ⟨h', hsnap⟩
    simp only [Act.meets_get]
    split
    · exact meets_modifyMonitor.mpr ⟨⟨h'.whole, h'.usable, h'.inbox, by rintro _ ⟨⟩⟩, hsnap⟩
    · exact meets_halt.mpr (halts _).endsProcess

theorem arm_steady_meets (h : w.monitor.Steady) (table : List Slot) (timeout : Duration) :
    (arm table timeout).Meets w (fun _ w' => w'.monitor.Steady)
      (fun e w' => EndsProcess e ∨ w'.monitor.Steady) := by
  simp only [arm, Act.meets_bind, Act.meets_get, Act.meets_ite, Act.meets_focus, Act.meets_mapError,
    meets_fail]
  refine ⟨fun _ => .inr h, fun _ => ?_⟩
  have hextended (v : PrivateArray Slot 24) : Monitor.Steady { w.monitor with slots := v } :=
    ⟨h.whole, h.usable, h.inbox, h.thread⟩
  apply (Act.meets_true _ _).mono
  · intro _ v _
    apply startThread_meets.mono
    · rintro - _ rfl
      have hfresh := (hextended v).unserved.threaded (p := .register 0) rfl false
      refine (serve_unserved_meets (w := ⟨_, _⟩) hfresh).mono ?_ fun _ _ he => .inl he
      rintro _ w₂ ⟨h₂, -⟩
      refine (heard_meets _).mono ?_ fun _ _ he => he.elim
      rintro r _ ⟨rfl, -⟩
      split
      · simp only [Act.meets_bind, meets_modifyMonitor, meets_onMachine_log]
        exact ⟨h₂.whole, h₂.usable, h₂.inbox, h₂.thread⟩
      · rw [Act.meets_bind]
        refine (join_steady_meets h₂).mono ?_ fun _ _ he => .inl he
        rintro _ w₃ ⟨h₃, -⟩
        split
        · exact meets_fail.mpr (.inr h₃)
        · exact Act.meets_throw.mpr (.inr h₃)
      · exact meets_fail.mpr (.inr h₂)
    · rintro _ w₁ ⟨hm, errno, rfl⟩
      exact .inr (hm ▸ hextended v)
  · rintro (_ | _) v - <;> exact .inr (hextended v)

theorem teardown_steady_meets (h : w.monitor.Steady) : teardown.Meets w
    (fun _ w' => w'.monitor.Steady) (fun e w' => EndsProcess e ∨ w'.monitor.Steady) := by
  simp only [teardown, Act.meets_bind, Act.meets_get]
  refine (releaseAll_meets _).mono ?_ fun _ _ he => .inl he.endsProcess
  rintro refusals w₁ ⟨h₁, -⟩
  refine (join_steady_meets (h₁.monitor ▸ h)).mono ?_ fun _ _ he => .inl he
  rintro _ w₂ ⟨h₂, -⟩
  have hdone : Monitor.Steady { w₂.monitor with
      armed := false, state := if w₂.monitor.state = .failed then .failed else .stopped } :=
    ⟨h₂.whole, h₂.usable, h₂.inbox, h₂.thread⟩
  rw [meets_modifyMonitor]
  split
  · rw [Act.meets_ite]
    exact ⟨fun _ => meets_fail.mpr (.inr hdone), fun _ => Act.meets_pure.mpr hdone⟩
  · exact Act.meets_pure.mpr hdone

theorem resume_steady_meets (h : w.monitor.Steady) : resume.Meets w
    (fun _ w' => w'.monitor.Steady) (fun e _ => EndsProcess e) := by
  have hreturned : Monitor.Unserved { w.monitor with
      thread := w.monitor.thread.map fun t => { t with held := false } } := by
    refine ⟨h.whole, h.usable, h.inbox, fun t ht => ?_⟩
    obtain ⟨t', ht', rfl⟩ := Option.map_eq_some_iff.mp ht
    exact (h.thread t' ht').served
  simp only [resume, Act.meets_bind, meets_modifyMonitor]
  exact (serve_unserved_meets (w := ⟨w.toMachine, _⟩) hreturned).mono (fun _ _ hw => hw.1)
    fun _ _ he => he

theorem reservePages_steady_meets (h : w.monitor.Steady) (pages : Nat) :
    (reservePages pages).Meets w (fun _ w' => w'.monitor.Steady) (fun _ w' => w'.monitor.Steady) := by
  have hroom (s : Snapshot) (hs : s.Whole)
      (ha : s.addresses.items = w.monitor.snapshot.addresses.items) :
      Monitor.Steady { w.monitor with snapshot := s } :=
    ⟨hs, ha ▸ h.usable, h.inbox, h.thread⟩
  rw [reservePages, Act.meets_focus, Act.meets_mapError]
  apply (Snapshot.reserve_meets h.whole pages).mono
  · exact fun _ s hpost => hroom s hpost.1 hpost.2
  · rintro (_ | _) s ⟨hs, ha⟩ <;> exact hroom s hs ha

theorem restore_keeps_meets (h : w.monitor.Steady) (ho : w.memory.Orderly) (again : Bool) :
    (restore again).Meets w (fun _ w' => w'.monitor.Steady)
      (fun e w' => EndsProcess e ∨ w'.monitor.Steady) := by
  cases again with
  | true =>
    apply (restore_steady_meets h ho).mono
    · rintro _ w' ⟨w₁, hrewound, -, hrearmed⟩
      exact hrearmed.steady hrewound.overwrote.steady
    · rintro e w' (⟨w₁, i, page, errno, hrewound, hrefused, -⟩ | ⟨hends, -⟩)
      · exact .inr (hrefused.steady hrewound.overwrote.steady)
      · exact .inl hends
  | false =>
    simp only [restore, Act.meets_bind, Bool.false_eq_true, if_false, Act.meets_pure, forget,
      Act.meets_modify]
    refine (replay_steady_meets h ho).mono ?_ fun _ _ he => .inl he.1
    rintro _ w₁ ⟨-, hrewound⟩
    have h₁ := hrewound.overwrote.steady
    exact ⟨h₁.whole.clear, by simp, h₁.inbox, h₁.thread⟩

theorem rebaseline_keeps_meets (h : w.monitor.Steady) (timeout : Duration) :
    (rebaseline timeout).Meets w (fun _ w' => w'.monitor.Steady)
      (fun e w' => EndsProcess e ∨ w'.monitor.Steady) := by
  apply (rebaseline_steady_meets h timeout).mono
  · exact fun _ w' hpost => hpost.2.steady h
  · rintro e w' (⟨i, page, errno, hrefused, -⟩ | ⟨-, rfl, -⟩ | ⟨-, rfl⟩)
    · exact .inr (hrefused.steady h)
    · exact .inr h
    · exact .inl (halts _).endsProcess

/-- What can be asked of a monitor, and writes of the process that it watches. -/
inductive Deed where
  | reserve (pages : Nat)
  | arm (table : List Slot) (timeout : Duration)
  | resume
  | write (writes : List (Nat × Array UInt8))
  | restore (again : Bool)
  | rebaseline (timeout : Duration)
  | teardown

def Deed.act : Deed → Op Unit
  | .reserve pages => reservePages pages
  | .arm table timeout => Watch.arm table timeout
  | .resume => Watch.resume
  | .write writes => writeAll writes
  | .restore again => do let _ ← Watch.restore again
  | .rebaseline timeout => do let _ ← Watch.rebaseline timeout
  | .teardown => Watch.teardown

theorem Deed.steady_meets (h : w.monitor.Steady) (ho : w.memory.Orderly) (deed : Deed) :
    deed.act.Meets w (fun _ w' => w'.monitor.Steady)
      (fun e w' => EndsProcess e ∨ w'.monitor.Steady) := by
  cases deed with
  | reserve pages => exact (reservePages_steady_meets h pages).mono (fun _ _ hw => hw) fun _ _ => .inr
  | arm table timeout => exact arm_steady_meets h table timeout
  | resume => exact (resume_steady_meets h).mono (fun _ _ hw => hw) fun _ _ => .inl
  | write writes =>
    exact (writeAll_steady_meets h ho writes).mono (fun _ _ hw => hw.steady) fun _ _ => .inl
  | restore again =>
    simp only [act, Act.meets_bind, Act.meets_pure]
    exact restore_keeps_meets h ho again
  | rebaseline timeout =>
    simp only [act, Act.meets_bind, Act.meets_pure]
    exact rebaseline_keeps_meets h timeout
  | teardown => exact teardown_steady_meets h

/-- Monitors as they can come about: set up, and then used in any way, on whatever machine and with
any result but the end of the process. -/
inductive Used : Monitor → Prop
  | new {channel : Tracking.Channel} {stackSize : Nat} {m m' : Machine} {monitor : Monitor}
      (h : (Monitor.new channel stackSize).on m = (.ok monitor, m')) : Used monitor
  | deed {w w' : Watch} (deed : Deed) {r : Outcome Stop Unit} (hu : Used w.monitor)
      (ho : w.memory.Orderly) (h : deed.act.on w = (r, w'))
      (hr : ∀ e, r = .error e → ¬EndsProcess e) : Used w'.monitor

theorem Used.steady {monitor : Monitor} (h : Used monitor) : monitor.Steady := by
  induction h with
  | new h =>
    obtain ⟨hu, -⟩ := (Monitor.new_meets _ _ _).ok h
    have hempty := Array.eq_empty_of_size_eq_zero hu.empty
    exact ⟨hu.whole, by simp [hempty], hu.inbox, by simp [hu.thread]⟩
  | @deed w w' deed r _ ho h hr ih =>
    have hdone := deed.steady_meets ih ho
    cases r with
    | ok _ => exact hdone.ok h
    | error e => exact (hdone.error h).resolve_left (hr e rfl)

end Watch

end Rewind
