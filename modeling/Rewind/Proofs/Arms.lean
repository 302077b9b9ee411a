import Rewind.Proofs.Enlisted

/-! Arming a monitor for the first time: it succeeds only with the thread in its fault loop and all
regions tracked and guarded, and a refused region is reported as the kernel refused it. -/
namespace Rewind

open Monitor (Point State Thread Readiness)

/-- A monitor to which no thread ever belonged, or none that took a step. -/
structure Monitor.Unspent (m : Monitor) : Prop where
  slotsFit : m.slots.Fits
  whole : m.snapshot.Whole
  empty : m.snapshot.size = 0
  readiness : m.readiness = .pending
  running : m.stopSignalled = false
  inbox : m.inbox = none
  inFlight : m.inFlight = 0
  handled : m.handled = 0
  thread : m.thread = none

theorem Monitor.new_meets (channel : Tracking.Channel) (stackSize : Nat) (m : Machine) :
    (Monitor.new channel stackSize).Meets m
      (fun monitor _ => monitor.Unspent ∧ monitor.slots.items = #[] ∧ monitor.armed = false)
      (fun _ _ => True) := by
  have unspent (stack block : Mapping) : Monitor.Unspent {
      channel, inbox := none, stack, block, slots := .empty, snapshot := .new Page.size
      state := .init, readiness := .pending, inFlight := 0, handled := 0, stopSignalled := false
      thread := none, armed := false } :=
    ⟨PrivateArray.fits_empty, Snapshot.whole_new, rfl, rfl, rfl, rfl, rfl, rfl, rfl⟩
  simp only [Monitor.new, Act.meets_bind, Machine.meets_ask]
  split
  · exact Act.meets_fail.mpr trivial
  · simp only [Act.meets_bind, Act.meets_outcome, Act.meets_pure]
    exact ⟨fun stack _ => ⟨fun block _ => ⟨unspent stack block, rfl, trivial⟩, fun _ _ => trivial⟩,
      fun _ _ => trivial⟩

namespace Watch

variable {w : Watch}

theorem startThread_meets : startThread.Meets w
    (fun _ w' => w' = { w with
      toMachine := w.toMachine.called .startThread
      monitor := { w.monitor with thread := some .fresh } })
    (fun e w' => w'.monitor = w.monitor ∧
      ∃ errno, e = .error (.failure (.monitorThread errno))) := by
  simp only [startThread, Act.meets_bind, Act.meets_get, Act.meets_ite, meets_fail,
    meets_onMachine_ask]
  refine ⟨fun _ => ⟨trivial, _, rfl⟩, fun _ => ?_⟩
  split
  · next errno _ => exact meets_fail.mpr ⟨rfl, errno, rfl⟩
  · exact meets_modifyMonitor.mpr rfl

theorem serveFor_of_ended {held : Bool} (h : w.monitor.thread = some ⟨.ended, held⟩) (n : Nat) :
    (serveFor n).on w = (.ok (), w) := by
  rw [Act.on_eq_ok_iff]
  cases n with
  | zero => exact Act.meets_pure.mpr ⟨rfl, rfl⟩
  | succ n =>
    simp only [serveFor, Act.meets_bind, Act.meets_get, h]
    cases held <;> simp [perform]

theorem serve_of_ended {held : Bool} (h : w.monitor.thread = some ⟨.ended, held⟩) :
    serve.on w = (.ok (), w) := by
  rw [serve, Act.on_bind, Act.on_get]
  exact serveFor_of_ended h _

theorem join_of_ended {held : Bool} (h : w.monitor.thread = some ⟨.ended, held⟩) :
    join.Meets w
      (fun _ w' => w' = { w with
        monitor := { w.monitor with stopSignalled := true, thread := none } })
      (fun _ _ => False) := by
  have hserve := serve_of_ended (w := { w with
    monitor := { w.monitor with stopSignalled := true, thread := some ⟨.ended, held⟩ } }) rfl
  simp only [join, Act.meets_bind, Act.meets_get, h, meets_modifyMonitor]
  exact (Act.meets_of_ok hserve).mpr (meets_modifyMonitor.mpr rfl)

/-- The thread was just started over these regions. -/
structure Launched (m₀ : Memory) (regions : List Slot) (w : Watch) : Prop where
  thread : w.monitor.thread = some ⟨.register 0, false⟩
  pending : w.monitor.readiness = .pending
  firstLife : FirstLife regions w
  progress : Progress m₀ regions w (.register 0) .pending

theorem launched_of_unspent (hu : w.monitor.Unspent) {regions : List Slot}
    {v : PrivateArray Slot 24} (hv : v.items.toList = regions) (hfit : v.Fits) :
    Launched w.memory regions { w with
      toMachine := w.toMachine.called .startThread
      monitor := { w.monitor with slots := v, thread := some .fresh } } := by
  constructor
  · rfl
  · exact hu.readiness
  · exact ⟨hv, hfit, hu.whole, hu.empty, hu.running, hu.inbox, hu.inFlight, hu.handled⟩
  · exact .track (enlisted_nil _)

theorem Launched.living {m₀ : Memory} {regions : List Slot} (h : Launched m₀ regions w) :
    Living m₀ regions w :=
  ⟨_, false, h.thread, fun _ => rfl, h.pending ▸ h.progress, h.firstLife⟩

/-- The thread is in its fault loop, and all regions are tracked and guarded. -/
structure Armed (m₀ : Memory) (slots : List Slot) (w : Watch) : Prop where
  enlisted : Enlisted m₀ slots slots w.memory
  firstLife : FirstLife slots w
  waiting : ∃ p, w.monitor.thread = some ⟨p, false⟩ ∧ p.IsWaiting

/-- Why arming failed. Where no thread was started, the monitor is as unspent as before. -/
def ArmTrouble (slots : PrivateArray Slot 24) (table : List Slot) (w' : Watch) : Trouble Stop → Prop
  | .fault cause =>
    (∃ v, (PrivateArray.extend Mapping.refusal table.toArray).on slots =
      (.error (.fault cause), v)) ∨
      slots.size ≠ 0
  | .error (.failure (.registration span stage errno)) =>
    ∃ i slot, table[i]? = some slot ∧ slot.span = span ∧
      w'.Refused (slots.items.toList ++ table) i stage errno
  | .error (.failure (.privateMemory _)) | .error (.failure (.monitorThread _)) =>
    w'.monitor.Unspent
  | _ => True

/-- What the thread of a new life leaves when it waits or has ended. -/
theorem Living.outcome {m₀ : Memory} {slots : List Slot} (h : Living m₀ slots w) :
    match w.monitor.readiness with
    | .armed => Armed m₀ slots w
    | .refused i stage errno => w.Refused slots i stage errno ∧
        ∃ held, w.monitor.thread = some ⟨.ended, held⟩
    | .pending => True := by
  obtain ⟨p, held, ht, hh, hg, hl⟩ := h
  generalize hr : w.monitor.readiness = r at hg
  cases hg with
  | waits hp hm =>
    obtain rfl := hh hr
    exact ⟨hm, hl, p, ht, hp⟩
  | ended href => exact ⟨href, held, ht⟩
  | _ => trivial

theorem arm_meets (hu : w.monitor.Unspent) (table : List Slot) (timeout : Duration) :
    (arm table timeout).Meets w
      (fun _ w' => Armed w.memory (w.monitor.slots.items.toList ++ table) w')
      (fun e w' => ArmTrouble w.monitor.slots table w' e) := by
  have hextend := (PrivateArray.extend_meets (by decide) hu.slotsFit table.toArray).and
    (Act.meets_self _ _)
  simp only [arm, Act.meets_bind, Act.meets_get, Act.meets_ite, hu.thread, Act.meets_focus,
    Act.meets_mapError]
  refine ⟨by simp, fun _ => ?_⟩
  apply hextend.mono
  · intro _ v hpost
    obtain ⟨⟨hitems, -, hfit, -⟩, -⟩ := hpost
    apply startThread_meets.mono
    · rintro - w₁ hw₁
      have hlaunched : Launched w.memory (w.monitor.slots.items.toList ++ table) w₁ := by
        subst hw₁
        apply launched_of_unspent hu _ hfit
        rw [hitems, Array.toList_append]
      apply hlaunched.living.serve.mono
      · rintro - w₂ hw₂
        have hout := hw₂.outcome
        simp only [heard, hlaunched.pending, if_true, Act.meets_bind, Act.meets_get, Act.meets_pure]
        split
        · next hr =>
          rw [hr] at hout
          simp only [Act.meets_bind, meets_modifyMonitor, meets_onMachine_log]
          obtain ⟨hm, ⟨h1, h2, h3, h4, h5, h6, h7, h8⟩, hp⟩ := hout
          exact ⟨hm, ⟨h1, h2, h3, h4, h5, h6, h7, h8⟩, hp⟩
        · next i stage errno hr =>
          rw [hr] at hout
          obtain ⟨href, held, ht⟩ := hout
          rw [Act.meets_bind]
          refine (join_of_ended ht).mono ?_ fun _ _ he => he.elim
          rintro - w₃ rfl
          split
          · next slot hslot => exact meets_fail.mpr ⟨i, slot, hslot, rfl, href⟩
          · next hslot =>
            refine Act.meets_throw.mpr (.inr fun hempty => ?_)
            obtain ⟨g, slot, before, -, hi, -⟩ := href
            rw [Array.eq_empty_of_size_eq_zero hempty, List.nil_append, hslot] at hi
            cases hi
        · exact meets_fail.mpr trivial
      · intro _ w₂ hpost
        obtain ⟨cause, rfl⟩ := hpost
        trivial
    · intro _ w₁ hpost
      obtain ⟨hw₁, errno, rfl⟩ := hpost
      show w₁.monitor.Unspent
      rw [hw₁]
      exact ⟨hfit, hu.whole, hu.empty, hu.readiness, hu.running, hu.inbox, hu.inFlight, hu.handled,
        hu.thread⟩
  · rintro (cause | errno) v ⟨rfl, hv⟩
    · exact .inl ⟨_, hv⟩
    · exact hu

/-- A monitor before its first thread: it was set up, room may have been made for captures, and
arming it may have come to nothing for want of memory or of a thread. -/
inductive Built : Monitor → Prop
  | new {channel : Tracking.Channel} {stackSize : Nat} {m m' : Machine} {monitor : Monitor}
      (h : (Monitor.new channel stackSize).on m = (.ok monitor, m')) : Built monitor
  | reserve {w w' : Watch} {pages : Nat} {r : Outcome Stop Unit} (hb : Built w.monitor)
      (h : (reservePages pages).on w = (r, w')) : Built w'.monitor
  | unstarted {w w' : Watch} {table : List Slot} {timeout : Duration} {cause : Failure}
      (hb : Built w.monitor) (h : (arm table timeout).on w = (.error (.error (.failure cause)), w'))
      (hc : ∃ errno, cause = .privateMemory errno ∨ cause = .monitorThread errno) :
      Built w'.monitor

theorem reservePages_meets (hw : w.monitor.snapshot.Whole) (he : w.monitor.snapshot.size = 0)
    (pages : Nat) :
    (reservePages pages).Meets w
      (fun _ w' => ∃ s : Snapshot, s.Whole ∧ s.size = 0 ∧
        w'.monitor = { w.monitor with snapshot := s })
      (fun _ w' => ∃ s : Snapshot, s.Whole ∧ s.size = 0 ∧
        w'.monitor = { w.monitor with snapshot := s }) := by
  have kept {s : Snapshot} (ha : s.addresses.items = w.monitor.snapshot.addresses.items) :
      s.size = 0 := by rwa [Snapshot.size, PrivateArray.size, ha]
  rw [reservePages, Act.meets_focus, Act.meets_mapError]
  apply (Snapshot.reserve_meets hw pages).mono
  · intro _ s hpost
    obtain ⟨hs, ha⟩ := hpost
    exact ⟨s, hs, kept ha, rfl⟩
  · rintro (_ | _) s ⟨hs, ha⟩ <;> exact ⟨s, hs, kept ha, rfl⟩

theorem Built.unspent {monitor : Monitor} (h : Built monitor) : monitor.Unspent := by
  induction h with
  | new h => exact ((Monitor.new_meets _ _ _).ok h).1
  | @reserve w w' pages r _ h ih =>
    have hroom := reservePages_meets ih.whole ih.empty pages
    obtain ⟨s, hs, he, hw'⟩ : ∃ s : Snapshot, s.Whole ∧ s.size = 0 ∧
        w'.monitor = { w.monitor with snapshot := s } := by
      cases r with
      | ok _ => exact hroom.ok h
      | error _ => exact hroom.error h
    rw [hw']
    exact ⟨ih.slotsFit, hs, he, ih.readiness, ih.running, ih.inbox, ih.inFlight, ih.handled,
      ih.thread⟩
  | unstarted _ h hc ih =>
    rcases hc with ⟨errno, rfl | rfl⟩
    · exact (arm_meets ih _ _).error h
    · exact (arm_meets ih _ _).error h

end Watch

end Rewind
