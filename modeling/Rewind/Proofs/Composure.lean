import Rewind.Proofs.Custody
import Rewind.Proofs.Turns
import Rewind.Proofs.Usage

/-! Where the thread of a monitor may stand between two calls. It is not left in the middle of its
setup, unless a request there has yet to return, and while all regions are tracked the monitor has
not failed. Every call keeps this, whatever the kernel answers. -/
namespace Rewind

open Monitor (Point State Thread)

namespace Monitor

namespace Point

/-- The thread has yet to tell how its setup went. -/
def Prepares : Point → Prop
  | .register _ | .registered | .guard _ | .armed | .ready | .failed .. | .refused .. => True
  | _ => False

/-- All regions are tracked, and the thread has not given up. -/
def Tracks : Point → Prop
  | .register _ | .registered | .failed .. | .refused .. | .ended => False
  | _ => True

/-- Steps that are still to be taken for so many regions before the thread has told. -/
def untilTold (count : Nat) : Point → Nat
  | .failed .. => 2
  | .refused .. => 1
  | p => p.untilReady count

theorem Prepares.untilTold_pos {p : Point} (h : p.Prepares) (count : Nat) :
    0 < p.untilTold count := by
  cases p <;> first | exact h.elim | simp [untilTold, untilReady]

end Point

/-- What holds of a monitor at any time, also between two steps of its thread. -/
structure Running (m : Monitor) : Prop where
  whole : m.snapshot.Whole
  placed : ∀ t, m.thread = some t → t.next.InSetup ∨ t.next.InLoop
  unfailed : ∀ t, m.thread = some t → t.next.Tracks → m.state ≠ .failed

/-- What holds of a monitor between two calls. -/
structure Composed (m : Monitor) : Prop extends Running m where
  told : ∀ t, m.thread = some t → t.next.Prepares → t.held = true

/-- The thread has told once it has taken so many steps, unless it is held before. -/
def ToldIn (steps : Nat) (m : Monitor) : Prop :=
  ∀ p, m.thread = some ⟨p, false⟩ → p.untilTold m.slots.size ≤ steps

theorem Running.composed {m : Monitor} (h : m.Running) (hn : m.ToldIn 0) : m.Composed := by
  refine ⟨h, ?_⟩
  rintro ⟨p, held⟩ ht hp
  cases held with
  | true => rfl
  | false => exact absurd (hn p ht) (Nat.not_le.mpr (hp.untilTold_pos _))

theorem composed_of_thread {m : Monitor} (hw : m.snapshot.Whole) (ht : m.thread = none) :
    m.Composed := by
  refine ⟨⟨hw, ?_, ?_⟩, ?_⟩ <;> simp [ht]

/-- Only the captures, the state and the thread matter. -/
theorem Composed.of_eq {m m' : Monitor} (h : m.Composed) (hw : m'.snapshot.Whole)
    (hs : m'.state = m.state) (ht : m'.thread = m.thread) : m'.Composed := by
  refine ⟨⟨hw, ?_, ?_⟩, ?_⟩
  · exact ht ▸ h.placed
  · rw [ht, hs]
    exact h.unfailed
  · exact ht ▸ h.told

end Monitor

namespace Watch

variable {w w' : Watch} {p : Point} {next : Next} {α β : Type}

/-- Where a step leaves the thread. It comes closer to telling how the setup went, and it has all
regions tracked only if it had so before, or has just noted it. -/
structure Moved (w : Watch) (p : Point) (next : Next) (w' : Watch) : Prop where
  whole : w'.monitor.snapshot.Whole
  placed : (next.point p).InSetup ∨ (next.point p).InLoop
  nears : (next.point p).untilTold w.monitor.slots.size ≤ p.untilTold w.monitor.slots.size - 1
  tracks : (next.point p).Tracks → p.Tracks ∨ p = .registered
  thread : w'.monitor.thread = w.monitor.thread

theorem SetupStep.moved (hs : SetupStep w p next w') (hw : w.monitor.snapshot.Whole) :
    Moved w p next w' := by
  cases hs with
  | @through g i =>
    refine ⟨hw, ?_, ?_, ?_, rfl⟩
    · cases g <;> exact .inl trivial
    · cases g <;> simp only [Next.point, Point.enlisted, Point.enlist, Point.untilTold,
        Point.untilReady] <;> omega
    · cases g
      · exact False.elim
      · exact fun _ => .inl trivial
  | @enlist g i slot r m hi =>
    obtain ⟨hlt, -⟩ := Array.getElem?_eq_some_iff.mp hi
    rw [← PrivateArray.size] at hlt
    refine ⟨hw, ?_, ?_, ?_, rfl⟩ <;> rw [Next.point_after]
    · cases g <;> exact .inl trivial
    · cases g <;> simp only [Point.enlist, Point.untilTold, Point.untilReady] <;> omega
    · cases g
      · exact False.elim
      · exact fun _ => .inl trivial
  | @refuse g i slot errno m hi =>
    refine ⟨hw, .inl trivial, ?_, False.elim, rfl⟩
    cases g <;> simp only [Next.point, Point.enlist, Point.untilTold, Point.untilReady] <;> omega
  | registered =>
    refine ⟨hw, .inl trivial, ?_, fun _ => .inr rfl, rfl⟩
    simp only [Next.point, Point.untilTold, Point.untilReady]
    omega
  | armed => exact ⟨hw, .inl trivial, Nat.le_refl 1, fun _ => .inl trivial, rfl⟩
  | ready => exact ⟨hw, .inr trivial, Nat.le_refl 0, fun _ => .inl trivial, rfl⟩
  | failed => exact ⟨hw, .inl trivial, Nat.le_refl 1, False.elim, rfl⟩
  | refused | stop | ended => exact ⟨hw, .inl trivial, Nat.le_refl 0, False.elim, rfl⟩

theorem LoopStep.moved (hs : LoopStep w p next w') (hp : p.InLoop)
    (hw : w.monitor.snapshot.Whole) : Moved w p next w' := by
  have htracks : p.Tracks := by
    cases p <;> first | exact hp.elim | trivial
  have hplaced : (next.point p).InSetup ∨ (next.point p).InLoop := by
    cases hs with
    | @look _ q _ _ _ hq => cases q <;> first | exact hq.elim | exact .inr trivial
    | @take m =>
      unfold onMessage
      cases m.writeFault? with
      | none => exact .inr trivial
      | some address => exact .inr (Page.isAligned_floor address)
    | release =>
      rw [Next.point_after]
      exact .inr trivial
    | stop => exact .inl trivial
    | block | count | finish => exact .inr trivial
    | begin | capturing | capture | unprotecting => exact .inr hp
  refine ⟨hs.whole hw, hplaced, ?_, fun _ => .inl htracks, hs.thread⟩
  have hzero : (next.point p).untilTold w.monitor.slots.size = 0 := by
    cases hs with
    | @look _ q _ _ _ hq => cases q <;> first | exact hq.elim | rfl
    | @take m =>
      unfold onMessage
      cases m.writeFault? <;> rfl
    | release => rw [Next.point_after]; rfl
    | _ => rfl
  omega

/-- Every step keeps what holds of a monitor at any time. -/
theorem perform_running_meets (h : w.monitor.Running)
    (ht : w.monitor.thread = some ⟨p, false⟩) :
    (perform p).Meets w
      (fun next w' => (w'.went next).monitor.Running ∧ Moved w p next w' ∧
        w'.monitor.slots = w.monitor.slots)
      (fun e _ => EndsProcess e) := by
  have hmoved : (perform p).Meets w (Moved w p) (fun e _ => EndsProcess e) := by
    rcases h.placed _ ht with hsetup | hloop
    · exact (perform_setup_meets hsetup).mono (fun _ _ hs => hs.moved h.whole) fun _ _ he => he.elim
    · exact (perform_meets h.whole hloop).mono (fun _ _ hs => hs.moved hloop h.whole)
        fun _ _ he => he
  refine (((Act.meets_self _ w).and (perform_state_meets w p)).and hmoved).mono ?_
    fun _ _ he => he.2
  rintro next w' ⟨⟨hon, hstate⟩, hm⟩
  have hcustody : w'.custody = w.custody := (keeps_perform p).of_on hon
  refine ⟨?_, hm, congrArg (·.1) hcustody⟩
  have hunfailed (hq : (next.point p).Tracks) : w'.monitor.state ≠ .failed := by
    rw [hstate]
    rcases hm.tracks hq with hp | rfl
    · have hbefore := h.unfailed _ ht hp
      cases p <;> first | exact hp.elim | exact hbefore | exact State.noConfusion
    · exact State.noConfusion
  cases next with
  | block =>
    refine ⟨hm.whole, hm.thread ▸ h.placed, fun t ht' hq => ?_⟩
    obtain rfl : (⟨p, false⟩ : Thread) = t := by simpa [went, hm.thread, ht] using ht'
    exact hunfailed hq
  | go q | hold q =>
    refine ⟨hm.whole, ?_, ?_⟩
    · rintro _ ⟨⟩
      exact hm.placed
    · rintro _ ⟨⟩
      exact hunfailed

/-- Given the steps that the setup takes, the thread gets through with it, or is held. -/
theorem serveFor_composed_meets {steps : Nat} (h : w.monitor.Running)
    (hn : w.monitor.ToldIn steps) :
    (serveFor steps).Meets w (fun _ w' => w'.monitor.Composed) (fun e _ => EndsProcess e) := by
  induction steps generalizing w with
  | zero => exact Act.meets_pure.mpr (h.composed hn)
  | succ steps ih =>
    by_cases ht : ∃ p, w.monitor.thread = some ⟨p, false⟩
    · obtain ⟨p, ht⟩ := ht
      rw [serveFor_succ_meets ht]
      refine (perform_running_meets h ht).mono ?_ fun _ _ he => he
      rintro next w' ⟨h', hm, hslots⟩
      have hnears := hm.nears
      have hle := hn p ht
      cases next with
      | go q =>
        refine ih h' ?_
        rintro _ ⟨⟩
        simp only [went, hslots]
        simp only [Next.point] at hnears
        omega
      | hold q => exact h'.composed (by rintro _ ⟨⟩)
      | block =>
        refine h'.composed fun q hq => ?_
        obtain rfl : p = q := by simpa [went, hm.thread, ht] using hq
        simp only [went, hslots]
        simp only [Next.point] at hnears
        omega
    · have hzero : w.monitor.ToldIn 0 := fun p hp => absurd ⟨p, hp⟩ ht
      simp only [serveFor, Act.meets_bind, Act.meets_get]
      split
      · next p hp => exact absurd ⟨p, hp⟩ ht
      · exact Act.meets_pure.mpr (h.composed hzero)

theorem serve_composed_meets (h : w.monitor.Running) :
    serve.Meets w (fun _ w' => w'.monitor.Composed) (fun e _ => EndsProcess e) := by
  simp only [serve, Act.meets_bind, Act.meets_get]
  refine serveFor_composed_meets h fun p _ => ?_
  unfold patience
  cases p <;> simp only [Point.untilTold, Point.untilReady] <;> omega

/-- A call after which the monitor is as one is between two calls, unless the process ends in it. -/
def Composes (act : Op α) : Prop := ∀ w, w.monitor.Composed →
  act.Meets w (fun _ w' => w'.monitor.Composed) fun e w' => EndsProcess e ∨ w'.monitor.Composed

theorem Composes.bind {act : Op α} {next : α → Op β} (h : Composes act)
    (hn : ∀ a, Composes (next a)) : Composes (act >>= next) := by
  intro w hw
  rw [Act.meets_bind]
  exact (h w hw).mono (fun a w' hw' => hn a w' hw') fun _ _ he => he

theorem composes_pure (a : α) : Composes (pure a) := fun _ hw => Act.meets_pure.mpr hw

theorem composes_get : Composes get := fun _ hw => Act.meets_get.mpr hw

theorem composes_fail (cause : Stop) : Composes (Act.fail cause : Op α) :=
  fun _ hw => Act.meets_fail.mpr (.inr hw)

theorem composes_faulty (x : Except Fault α) : Composes (liftM x : Op α) :=
  fun _ hw => Act.meets_faulty.mpr ⟨fun _ _ => hw, fun f _ => .inl (endsProcess_fault f)⟩

theorem Composes.ite {c : Prop} [Decidable c] {act act' : Op α} (h : Composes act)
    (h' : Composes act') : Composes (if c then act else act') := by
  split
  · exact h
  · exact h'

theorem composes_request (act : Act Machine Errno Machine.Return) : Composes (request act) := by
  intro w hw
  rw [meets_request]
  refine (Act.meets_true act _).mono (fun _ _ _ => hw) ?_
  rintro (f | errno) _ -
  · exact .inl (endsProcess_fault f)
  · exact hw

theorem composes_serve : Composes serve :=
  fun _ hw => (serve_composed_meets hw.toRunning).mono (fun _ _ h => h) fun _ _ => .inl

theorem composes_claim (n address : Nat) : Composes (claim n address) := by
  refine composes_get.bind fun w => .ite ?_ (composes_pure _)
  refine Composes.bind ?_ fun _ => composes_serve.bind fun _ => composes_get.bind fun _ =>
    .ite (composes_fail _) (composes_pure _)
  exact fun w hw => meets_modifyMonitor.mpr (hw.of_eq hw.whole rfl rfl)

theorem composes_writePages (start : Nat) (bytes : Array UInt8) (ns : List Nat) :
    Composes (writePages start bytes ns) := by
  induction ns with
  | nil => exact composes_pure _
  | cons n ns ih =>
    refine (composes_claim _ _).bind fun _ => Composes.bind ?_ fun _ => ih
    exact fun w hw => Act.meets_modify.mpr hw

theorem composes_writeAll (writes : List (Nat × Array UInt8)) : Composes (writeAll writes) := by
  induction writes with
  | nil => exact composes_pure _
  | cons run writes ih => exact (composes_writePages _ _ _).bind fun _ => ih

theorem composes_replayBelow (i : Nat) : Composes (replayBelow i) := by
  induction i with
  | zero => exact composes_pure _
  | succ i ih =>
    refine composes_get.bind fun w => (composes_faulty _).bind fun page => ?_
    refine (composes_writePages _ _ _).bind fun _ => composes_get.bind fun _ => ?_
    exact .ite ((composes_fail _).bind fun _ => ih) ih

theorem composes_rearmAll (pages : List Nat) : Composes (rearmAll pages) := by
  induction pages with
  | nil => exact composes_pure _
  | cons page pages ih =>
    refine Composes.bind ?_ fun _ => ih
    refine (composes_faulty _).bind fun span => (composes_request _).bind fun r => ?_
    split
    · exact composes_pure _
    · exact composes_fail _
    · exact composes_fail _

theorem composes_rearm : Composes rearm := composes_get.bind fun _ => composes_rearmAll _

theorem composes_forget : Composes forget :=
  fun _ hw => Act.meets_modify.mpr (hw.of_eq hw.whole.clear rfl rfl)

theorem composes_restore (again : Bool) : Composes (restore again) := by
  have hreplay : Composes replay := composes_get.bind fun _ =>
    (composes_replayBelow _).bind fun _ => composes_get.bind fun _ => composes_pure _
  have hforget (count : Nat) : Composes (do forget; return count) :=
    composes_forget.bind fun _ => composes_pure _
  refine hreplay.bind fun count => ?_
  exact .ite (composes_rearm.bind fun _ => hforget count) (hforget count)

theorem composes_rebaseline (timeout : Duration) : Composes (rebaseline timeout) := by
  have hdrain : Composes (drain timeout) :=
    composes_get.bind fun _ => .ite (composes_fail _) (composes_pure _)
  refine hdrain.bind fun _ => composes_get.bind fun _ => composes_rearm.bind fun _ => ?_
  exact composes_forget.bind fun _ => composes_pure _

theorem composes_reservePages (pages : Nat) : Composes (reservePages pages) := by
  intro w hw
  rw [reservePages, Act.meets_focus, Act.meets_mapError]
  refine (Snapshot.reserve_meets hw.whole pages).mono (fun _ _ h => hw.of_eq h.1 rfl rfl) ?_
  rintro (_ | _) s ⟨hs, -⟩ <;> exact .inr (hw.of_eq hs rfl rfl)

/-- Whoever waits for the end of the thread finds none afterwards. -/
theorem join_composed_meets (h : w.monitor.Composed) : join.Meets w
    (fun _ w' => w'.monitor.snapshot.Whole ∧ w'.monitor.thread = none)
    (fun e _ => EndsProcess e) := by
  simp only [join, Act.meets_bind, Act.meets_get]
  cases ht : w.monitor.thread with
  | none => exact Act.meets_pure.mpr ⟨h.whole, ht⟩
  | some t =>
    have htold : Monitor.Running { w.monitor with stopSignalled := true } :=
      ⟨h.whole, h.placed, h.unfailed⟩
    simp only [Act.meets_bind, meets_modifyMonitor]
    refine (serve_composed_meets (w := ⟨w.toMachine, _⟩) htold).mono ?_ fun _ _ he => he
    intro _ w' h'
    simp only [Act.meets_get]
    split
    · exact meets_modifyMonitor.mpr ⟨h'.whole, rfl⟩
    · exact meets_halt.mpr (halts _).endsProcess

/-- Resuming lets the thread go on from within its setup, so that it has to get through with it. -/
theorem composes_resume : Composes resume := by
  intro w hw
  simp only [resume, Act.meets_bind, meets_modifyMonitor]
  have hrunning : Monitor.Running { w.monitor with
      thread := w.monitor.thread.map fun t => { t with held := false } } := by
    refine ⟨hw.whole, fun t ht => ?_, fun t ht => ?_⟩
    · obtain ⟨t', ht', rfl⟩ := Option.map_eq_some_iff.mp ht
      exact hw.placed t' ht'
    · obtain ⟨t', ht', rfl⟩ := Option.map_eq_some_iff.mp ht
      exact hw.unfailed t' ht'
  exact (serve_composed_meets (w := ⟨w.toMachine, _⟩) hrunning).mono (fun _ _ h => h)
    fun _ _ => .inl

/-- Arming starts a thread and waits until it has told, or is held. -/
theorem composes_arm (table : List Slot) (timeout : Duration) : Composes (arm table timeout) := by
  intro w hw
  simp only [arm, Act.meets_bind, Act.meets_get, Act.meets_ite, Act.meets_focus, Act.meets_mapError,
    meets_fail]
  refine ⟨fun _ => .inr hw, fun _ => ?_⟩
  have hextended (v : PrivateArray Slot 24) : Monitor.Composed { w.monitor with slots := v } :=
    hw.of_eq hw.whole rfl rfl
  apply (Act.meets_true _ _).mono
  · intro _ v _
    apply startThread_meets.mono
    · rintro - _ rfl
      have hrunning : Monitor.Running { w.monitor with slots := v, thread := some .fresh } := by
        refine ⟨hw.whole, ?_, ?_⟩
        · rintro _ ⟨⟩
          exact .inl trivial
        · rintro _ ⟨⟩
          exact False.elim
      refine (serve_composed_meets (w := ⟨_, _⟩) hrunning).mono ?_ fun _ _ he => .inl he
      intro _ w₂ h₂
      refine (heard_meets _).mono ?_ fun _ _ he => he.elim
      rintro r _ ⟨rfl, -⟩
      split
      · simp only [Act.meets_bind, meets_modifyMonitor, meets_onMachine_log]
        exact h₂.of_eq h₂.whole rfl rfl
      · rw [Act.meets_bind]
        refine (join_composed_meets h₂).mono ?_ fun _ _ he => .inl he
        rintro _ w₃ ⟨hw₃, ht₃⟩
        split
        · exact meets_fail.mpr (.inr (Monitor.composed_of_thread hw₃ ht₃))
        · exact Act.meets_throw.mpr (.inr (Monitor.composed_of_thread hw₃ ht₃))
      · exact meets_fail.mpr (.inr h₂)
    · rintro _ w₁ ⟨hm, errno, rfl⟩
      exact .inr (hm ▸ hextended v)
  · rintro (_ | _) v - <;> exact .inr (hextended v)

theorem composes_teardown : Composes teardown := by
  intro w hw
  simp only [teardown, Act.meets_bind, Act.meets_get]
  refine (releaseAll_meets _).mono ?_ fun _ _ he => .inl he.endsProcess
  rintro refusals w₁ ⟨h₁, -⟩
  refine (join_composed_meets (h₁.monitor ▸ hw)).mono ?_ fun _ _ he => .inl he
  rintro _ w₂ ⟨hw₂, ht₂⟩
  have hdone : Monitor.Composed { w₂.monitor with
      armed := false, state := if w₂.monitor.state = .failed then .failed else .stopped } :=
    Monitor.composed_of_thread hw₂ ht₂
  rw [meets_modifyMonitor]
  split
  · rw [Act.meets_ite]
    exact ⟨fun _ => meets_fail.mpr (.inr hdone), fun _ => Act.meets_pure.mpr hdone⟩
  · exact Act.meets_pure.mpr hdone

theorem Deed.composes (deed : Deed) : Composes deed.act := by
  cases deed with
  | reserve pages => exact composes_reservePages pages
  | arm table timeout => exact composes_arm table timeout
  | resume => exact composes_resume
  | write writes => exact composes_writeAll writes
  | restore again => exact (composes_restore again).bind fun _ => composes_pure _
  | rebaseline timeout => exact (composes_rebaseline timeout).bind fun _ => composes_pure _
  | teardown => exact composes_teardown

/-- However a monitor was used, it is composed. -/
theorem Used.composed {monitor : Monitor} (h : Used monitor) : monitor.Composed := by
  induction h with
  | new h =>
    obtain ⟨hu, -⟩ := (Monitor.new_meets _ _ _).ok h
    exact Monitor.composed_of_thread hu.whole hu.thread
  | @deed w w' deed r _ _ h hr ih =>
    have hdone := deed.composes w ih
    cases r with
    | ok _ => exact hdone.ok h
    | error e => exact (hdone.error h).resolve_left (hr e rfl)

end Watch

end Rewind
