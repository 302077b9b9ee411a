import Rewind.Proofs.Arms
import Rewind.Proofs.Releases

/-! Lives of a monitor. Arming starts a thread and tearing down ends it; what a thread has said, and
the word to stop that it was given, outlast it. -/
namespace Rewind

open Monitor (Point State Thread Readiness smallestStack)

namespace Monitor

/-- What the thread has said by a point, in this life or in an earlier one. -/
def Point.Said (readiness : Readiness) (count : Nat) : Point → Prop
  | .listen | .poll | .wait | .read | .stop | .ended => readiness ≠ .pending
  | .failed i _ _ | .refused i _ _ => i < count
  | .register _ | .registered | .guard _ | .armed | .ready => True
  | _ => False

/-- No fault was ever raised, and the word to stop goes with what the last thread has said. -/
structure Untroubled (m : Monitor) : Prop where
  slotsFit : m.slots.Fits
  whole : m.snapshot.Whole
  empty : m.snapshot.size = 0
  inbox : m.inbox = none
  inFlight : m.inFlight = 0
  handled : m.handled = 0
  index : ∀ i stage errno, m.readiness = .refused i stage errno → i < m.slots.size
  said : ∀ t, m.thread = some t → t.next.Said m.readiness m.slots.size
  idle : m.thread = none → (m.stopSignalled = true ↔ m.readiness ≠ .pending)

theorem Untroubled.unspent {m : Monitor} (h : m.Untroubled) (ht : m.thread = none)
    (hr : m.readiness = .pending) : m.Unspent := by
  have hrunning : m.stopSignalled = false := by
    have hstop := (h.idle ht).not
    simpa [hr] using hstop
  exact ⟨h.slotsFit, h.whole, h.empty, hr, hrunning, h.inbox, h.inFlight, h.handled, ht⟩

theorem Unspent.untroubled {m : Monitor} (h : m.Unspent) : m.Untroubled := by
  refine ⟨h.slotsFit, h.whole, h.empty, h.inbox, h.inFlight, h.handled, ?_, ?_, ?_⟩
  · simp [h.readiness]
  · simp [h.thread]
  · simp [h.readiness, h.running]

theorem Point.Said.inSetup_or_isWaiting {p : Point} {readiness : Readiness} {count : Nat}
    (h : p.Said readiness count) : p.InSetup ∨ p.IsWaiting := by
  cases p with
  | listen | poll | wait | read => exact .inr trivial
  | begin | capturing | capture | unprotecting | release | count | finish => exact h.elim
  | _ => exact .inl trivial

theorem Untroubled.goes {m : Monitor} (h : m.Untroubled) {p : Point} (held : Bool)
    (hp : p.Said m.readiness m.slots.size) :
    Monitor.Untroubled { m with thread := some ⟨p, held⟩ } := by
  refine ⟨h.slotsFit, h.whole, h.empty, h.inbox, h.inFlight, h.handled, h.index, ?_, nofun⟩
  rintro _ ⟨⟩
  exact hp

theorem Untroubled.says {m : Monitor} (h : m.Untroubled) {p : Point} {r : Readiness} (held : Bool)
    (hr : ∀ i stage errno, r = .refused i stage errno → i < m.slots.size)
    (hp : p.Said r m.slots.size) :
    Monitor.Untroubled { m with readiness := r, thread := some ⟨p, held⟩ } := by
  refine ⟨h.slotsFit, h.whole, h.empty, h.inbox, h.inFlight, h.handled, hr, ?_, nofun⟩
  rintro _ ⟨⟩
  exact hp

theorem Untroubled.shows {m : Monitor} (h : m.Untroubled) (s : State) :
    Monitor.Untroubled { m with state := s } :=
  ⟨h.slotsFit, h.whole, h.empty, h.inbox, h.inFlight, h.handled, h.index, h.said, h.idle⟩

theorem Untroubled.extend {m : Monitor} {slots : PrivateArray Slot 24} (h : m.Untroubled)
    (hf : slots.Fits) (hs : m.slots.size ≤ slots.size) (ht : m.thread = none) :
    Monitor.Untroubled { m with slots := slots } := by
  refine ⟨hf, h.whole, h.empty, h.inbox, h.inFlight, h.handled, ?_, ?_, h.idle⟩
  · intro i stage errno hr
    exact (h.index i stage errno hr).trans_le hs
  · simp [ht]

end Monitor

namespace Watch

variable {w w' : Watch} {p : Point} {next : Next}

theorem SetupStep.untroubled {held : Bool} (hs : SetupStep w p next w') (h : w.monitor.Untroubled)
    (ht : w.monitor.thread = some ⟨p, held⟩) : (w'.went next).monitor.Untroubled := by
  have hp := h.said _ ht
  cases hs with
  | @through g => cases g <;> exact h.goes false trivial
  | @enlist g i slot r =>
    have hsaid : (Point.enlist g (i + 1)).Said w.monitor.readiness w.monitor.slots.size := by
      cases g <;> trivial
    cases r <;> exact h.goes _ hsaid
  | refuse hi =>
    obtain ⟨hlt, -⟩ := Array.getElem?_eq_some_iff.mp hi
    exact h.goes false hlt
  | registered => exact (h.shows _).goes false trivial
  | armed => exact (h.shows _).goes false trivial
  | ready => exact h.says false nofun nofun
  | failed => exact (h.shows _).goes false hp
  | refused =>
    refine h.says false ?_ nofun
    rintro _ _ _ ⟨⟩
    exact hp
  | stop => exact (h.shows _).goes false hp
  | ended => exact h

theorem LoopStep.untroubled {held : Bool} (hs : LoopStep w p next w') (h : w.monitor.Untroubled)
    (ht : w.monitor.thread = some ⟨p, held⟩) : (w'.went next).monitor.Untroubled := by
  have hp := h.said _ ht
  cases hs with
  | @look p q k s hw hq hk =>
    have hpending : w.monitor.readiness ≠ .pending := by
      cases p <;> first | exact hw.elim | exact hp
    refine (h.shows s).goes false ?_
    cases q <;> first | exact hq.elim | exact hpending
  | block => exact h
  | stop => exact h.goes false hp
  | take hi =>
    rw [h.inbox] at hi
    cases hi
  | _ => exact hp.elim

theorem stopSignalled_went (w : Watch) (next : Next) :
    (w.went next).monitor.stopSignalled = w.monitor.stopSignalled := by cases next <;> rfl

theorem SetupStep.stopSignalled (hs : SetupStep w p next w') :
    w'.monitor.stopSignalled = w.monitor.stopSignalled := by cases hs <;> rfl

theorem LoopStep.stopSignalled (hs : LoopStep w p next w') :
    w'.monitor.stopSignalled = w.monitor.stopSignalled := by cases hs <;> rfl

/-- Whatever the kernel answers, a thread without faults to serve keeps the monitor untroubled. -/
theorem serve_untroubled_meets (h : w.monitor.Untroubled) : serve.Meets w
    (fun _ w' => w'.monitor.Untroubled ∧ w'.monitor.stopSignalled = w.monitor.stopSignalled)
    (fun e _ => Halts e) := by
  refine serve_meets ?_ ⟨h, rfl⟩
  intro w₁ p hw₁ ht
  obtain ⟨h₁, hstop⟩ := hw₁
  rcases (h₁.said _ ht).inSetup_or_isWaiting with hp | hp
  · refine (perform_setup_meets hp).mono ?_ fun _ _ he => he.elim
    intro next w₂ hs
    exact ⟨hs.untroubled h₁ ht, (stopSignalled_went _ _).trans (hs.stopSignalled.trans hstop)⟩
  · refine (perform_waiting_meets hp).mono ?_ fun _ _ he => he
    intro next w₂ hs
    exact ⟨hs.untroubled h₁ ht, (stopSignalled_went _ _).trans (hs.stopSignalled.trans hstop)⟩

theorem join_untroubled_meets (h : w.monitor.Untroubled) : join.Meets w
    (fun _ w' => w'.monitor.Untroubled ∧ w'.monitor.thread = none) (fun e _ => Halts e) := by
  simp only [join, Act.meets_bind, Act.meets_get]
  cases ht : w.monitor.thread with
  | none => exact Act.meets_pure.mpr ⟨h, ht⟩
  | some t =>
    have htold : Monitor.Untroubled { w.monitor with stopSignalled := true, thread := some t } := by
      refine ⟨h.slotsFit, h.whole, h.empty, h.inbox, h.inFlight, h.handled, h.index, ?_, by simp⟩
      rintro _ ⟨⟩
      exact h.said t ht
    simp only [Act.meets_bind, meets_modifyMonitor, ht]
    refine (serve_untroubled_meets htold).mono ?_ fun _ _ he => he
    intro _ w' hpost
    obtain ⟨h', hstop⟩ := hpost
    simp only [Act.meets_get]
    split
    · next held hended =>
      have hsaid := h'.said _ hended
      refine meets_modifyMonitor.mpr ⟨⟨h'.slotsFit, h'.whole, h'.empty, h'.inbox, h'.inFlight,
        h'.handled, h'.index, by simp, fun _ => ?_⟩, rfl⟩
      exact iff_of_true hstop hsaid
    · exact meets_halt.mpr (halts _)

theorem heard_meets (earlier : Readiness) : (heard earlier).Meets w
    (fun r w' => w' = w ∧ r = if earlier = .pending then w.monitor.readiness else earlier)
    (fun _ _ => False) := by
  simp only [heard, Act.meets_ite, Act.meets_bind, Act.meets_get, Act.meets_pure]
  exact ⟨fun h => ⟨trivial, by rw [if_pos h]⟩, fun h => ⟨trivial, by rw [if_neg h]⟩⟩

theorem arm_untroubled_meets (h : w.monitor.Untroubled) (table : List Slot) (timeout : Duration) :
    (arm table timeout).Meets w (fun _ w' => w'.monitor.Untroubled)
      (fun e w' => Halts e ∨ w'.monitor.Untroubled) := by
  have hextend := PrivateArray.extend_meets (by decide) h.slotsFit table.toArray
  simp only [arm, Act.meets_bind, Act.meets_get, Act.meets_ite, Act.meets_focus, Act.meets_mapError,
    meets_fail]
  refine ⟨fun _ => .inr h, fun ht => ?_⟩
  have hnone : w.monitor.thread = none := by simpa using ht
  apply hextend.mono
  · intro _ v hpost
    obtain ⟨hitems, -, hfit, -⟩ := hpost
    have hle : w.monitor.slots.size ≤ v.size := by
      simp [PrivateArray.size, hitems]
    have hextended := h.extend hfit hle hnone
    apply startThread_meets.mono
    · rintro - w₁ rfl
      have hfresh := hextended.goes (p := .register 0) false trivial
      refine (serve_untroubled_meets (w := ⟨_, _⟩) hfresh).mono ?_ fun _ _ he => .inl he
      intro _ w₂ hpost
      obtain ⟨h₂, -⟩ := hpost
      refine (heard_meets _).mono ?_ fun _ _ he => he.elim
      intro r _ hpost
      obtain ⟨rfl, -⟩ := hpost
      split
      · simp only [Act.meets_bind, meets_modifyMonitor, meets_onMachine_log]
        exact ⟨h₂.slotsFit, h₂.whole, h₂.empty, h₂.inbox, h₂.inFlight, h₂.handled, h₂.index,
          h₂.said, h₂.idle⟩
      · rw [Act.meets_bind]
        refine (join_untroubled_meets h₂).mono ?_ fun _ _ he => .inl he
        intro _ w₃ hpost
        obtain ⟨h₃, -⟩ := hpost
        split
        · exact meets_fail.mpr (.inr h₃)
        · exact Act.meets_throw.mpr (.inr h₃)
      · exact meets_fail.mpr (.inr h₂)
    · intro _ w₁ hpost
      obtain ⟨hm, errno, rfl⟩ := hpost
      exact .inr (hm ▸ hextended)
  · rintro (_ | _) v rfl <;> exact .inr h

theorem teardown_untroubled_meets (h : w.monitor.Untroubled) : teardown.Meets w
    (fun _ w' => w'.monitor.Untroubled) (fun e w' => Halts e ∨ w'.monitor.Untroubled) := by
  simp only [teardown, Act.meets_bind, Act.meets_get]
  refine (releaseAll_meets _).mono ?_ fun _ _ he => .inl he
  intro refusals w₁ hpost
  obtain ⟨h₁, -⟩ := hpost
  refine (join_untroubled_meets (h₁.monitor ▸ h)).mono ?_ fun _ _ he => .inl he
  intro _ w₂ hpost
  obtain ⟨h₂, -⟩ := hpost
  have hdone : Monitor.Untroubled { w₂.monitor with
      armed := false, state := if w₂.monitor.state = .failed then .failed else .stopped } :=
    ⟨h₂.slotsFit, h₂.whole, h₂.empty, h₂.inbox, h₂.inFlight, h₂.handled, h₂.index, h₂.said, h₂.idle⟩
  rw [meets_modifyMonitor]
  split
  · rw [Act.meets_ite]
    exact ⟨fun _ => meets_fail.mpr (.inr hdone), fun _ => Act.meets_pure.mpr hdone⟩
  · exact Act.meets_pure.mpr hdone

theorem resume_untroubled_meets (h : w.monitor.Untroubled) : resume.Meets w
    (fun _ w' => w'.monitor.Untroubled) (fun e w' => Halts e ∨ w'.monitor.Untroubled) := by
  have hfree : Monitor.Untroubled { w.monitor with
      thread := w.monitor.thread.map fun t => { t with held := false } } := by
    refine ⟨h.slotsFit, h.whole, h.empty, h.inbox, h.inFlight, h.handled, h.index, ?_, ?_⟩
    · intro t ht
      obtain ⟨t', ht', rfl⟩ := Option.map_eq_some_iff.mp ht
      exact h.said t' ht'
    · intro ht
      exact h.idle (Option.map_eq_none_iff.mp ht)
  simp only [resume, Act.meets_bind, meets_modifyMonitor]
  exact (serve_untroubled_meets (w := ⟨w.toMachine, _⟩) hfree).mono (fun _ _ hw => hw.1)
    fun _ _ he => .inl he

/-- What a monitor went through: it was set up, and then armed, torn down and so on, on whatever
machine, in any order and with any result but the end of the process. -/
inductive Lived : Monitor → Prop
  | new {channel : Tracking.Channel} {stackSize : Nat} {m m' : Machine} {monitor : Monitor}
      (h : (Monitor.new channel stackSize).on m = (.ok monitor, m')) : Lived monitor
  | reserve {w w' : Watch} {pages : Nat} {r : Outcome Stop Unit} (hl : Lived w.monitor)
      (h : (reservePages pages).on w = (r, w')) : Lived w'.monitor
  | arm {w w' : Watch} {table : List Slot} {timeout : Duration} {r : Outcome Stop Unit}
      (hl : Lived w.monitor) (h : (arm table timeout).on w = (r, w'))
      (hr : ∀ cause, r ≠ .error (.error (.halt cause))) : Lived w'.monitor
  | teardown {w w' : Watch} {r : Outcome Stop Unit} (hl : Lived w.monitor)
      (h : teardown.on w = (r, w')) (hr : ∀ cause, r ≠ .error (.error (.halt cause))) :
      Lived w'.monitor
  | resume {w w' : Watch} {r : Outcome Stop Unit} (hl : Lived w.monitor)
      (h : resume.on w = (r, w')) (hr : ∀ cause, r ≠ .error (.error (.halt cause))) :
      Lived w'.monitor

theorem untroubled_of_on {act : Op Unit} {r : Outcome Stop Unit}
    (hm : act.Meets w (fun _ w' => w'.monitor.Untroubled)
      fun e w' => Halts e ∨ w'.monitor.Untroubled)
    (h : act.on w = (r, w')) (hr : ∀ cause, r ≠ .error (.error (.halt cause))) :
    w'.monitor.Untroubled := by
  cases r with
  | ok _ => exact hm.ok h
  | error e =>
    refine (hm.error h).resolve_left ?_
    rintro ⟨cause, rfl⟩
    exact hr cause rfl

theorem Lived.untroubled {m : Monitor} (h : Lived m) : m.Untroubled := by
  induction h with
  | new h => exact ((Monitor.new_meets _ _ _).ok h).1.untroubled
  | @reserve w w' pages r _ h ih =>
    have hroom := reservePages_meets ih.whole ih.empty pages
    obtain ⟨s, hs, he, hw'⟩ : ∃ s : Snapshot, s.Whole ∧ s.size = 0 ∧
        w'.monitor = { w.monitor with snapshot := s } := by
      cases r with
      | ok _ => exact hroom.ok h
      | error _ => exact hroom.error h
    rw [hw']
    exact ⟨ih.slotsFit, hs, he, ih.inbox, ih.inFlight, ih.handled, ih.index, ih.said, ih.idle⟩
  | arm _ h hr ih => exact untroubled_of_on (arm_untroubled_meets ih _ _) h hr
  | teardown _ h hr ih => exact untroubled_of_on (teardown_untroubled_meets ih) h hr
  | resume _ h hr ih => exact untroubled_of_on (resume_untroubled_meets ih) h hr

end Watch

end Rewind
