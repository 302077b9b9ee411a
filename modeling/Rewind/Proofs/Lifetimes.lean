import Rewind.Proofs.Conversion
import Rewind.Proofs.Histories
import Rewind.Proofs.Lifecycle
import Rewind.Proofs.Releases

/-! Lives of a harness. While only its runs write memory and captured pages are guarded again, the
monitored regions keep the bytes that they had when it was set up, and once it is torn down none of
their pages is guarded. -/
namespace Rewind

open Harness (Request)
open Watch (Parted Resting)

namespace PrivateArray

theorem pushAll_meets {α : Type} {width : Nat} (hw : 0 < width) {v : PrivateArray α width}
    (hv : v.Fits) (xs : List α) :
    (pushAll Mapping.refusal xs).Meets v
      (fun _ v' => v'.items.toList = v.items.toList ++ xs ∧ v'.Fits) (fun _ _ => True) := by
  induction xs generalizing v with
  | nil => exact Act.meets_pure.mpr ⟨(List.append_nil _).symm, hv⟩
  | cons x xs ih =>
    simp only [pushAll, Act.meets_bind]
    apply (push_meets hw hv x).mono _ fun _ _ _ => trivial
    rintro _ v₁ ⟨hitems, -, hfits, -⟩
    apply (ih hfits).mono _ fun _ _ he => he
    rintro _ v₂ ⟨hitems₂, hfits₂⟩
    refine ⟨?_, hfits₂⟩
    rw [hitems₂, hitems, Array.toList_push, List.append_assoc, List.singleton_append]

end PrivateArray

theorem Watch.Armed.parted {m₀ : Memory} {slots : List Slot} {w : Watch} (h : Armed m₀ slots w)
    (hfree : ∀ n, m₀.isGuarded n = false) : Parted (Monitored m₀ slots) m₀ w := by
  refine ⟨h.pristine, fun n hn => ?_⟩
  rw [h.enlisted.isGuarded, hfree n, Bool.false_or, Bool.and_eq_false_iff, decide_eq_false_iff_not]
  by_cases hmap : m₀.isMapped n = true
  · exact .inr fun hin => hn ⟨hmap, hin⟩
  · exact .inl (by simpa using hmap)

theorem Converted.monitored {slots : List Slot} {m m' : Memory} (h : Converted slots m m') :
    Monitored m' slots = Within slots := by
  funext n
  exact propext ⟨fun hn => hn.2, fun hn => ⟨h.mapped n hn, hn⟩⟩

theorem Converted.free {slots : List Slot} {m m' : Memory} (h : Converted slots m m') {k : Nat}
    (hk : m.isGuarded k = false) : m'.isGuarded k = false := by
  rw [← Bool.not_eq_true] at hk ⊢
  exact mt (h.guarded k) hk

theorem within_number {slots : List Slot} {slot : Slot} (hslot : slot ∈ slots)
    (ha : Page.IsAligned slot.span.start) {x : Nat} (hx : x ∈ slot.span) :
    Within slots (Page.number x) := by
  obtain ⟨k, hk⟩ := ha.exists_mul
  refine ⟨slot, hslot, ?_⟩
  rw [Span.mem_def] at hx ⊢
  simp only [Page.number, Page.size] at *
  omega

theorem Scheduler.new_eq_ok {stackSize : Nat} {s : Scheduler} (h : Scheduler.new stackSize = .ok s) :
    s.samples = .empty ∧ s.checksums = .empty := by
  unfold Scheduler.new at h
  cases hcontext : Context.new stackSize with
  | error _ =>
    rw [hcontext] at h
    cases h
  | ok _ =>
    rw [hcontext] at h
    obtain rfl := Except.ok.inj h
    exact ⟨rfl, rfl⟩

namespace Harness

theorem fillTable_eq_ok {slots : List Slot} {table : PrivateArray Slot 24}
    (h : fillTable slots = .ok table) : table.items.toList = slots := by
  have hroom : (PrivateArray.reserve Mapping.refusal 256).Meets
      (.empty : PrivateArray Slot 24) _ _ :=
    PrivateArray.reserve_meets (by decide) PrivateArray.fits_empty 256
  rcases hreserve : (PrivateArray.reserve Mapping.refusal 256).on
    (.empty : PrivateArray Slot 24) with ⟨result, v⟩
  rcases hpush : (PrivateArray.pushAll Mapping.refusal slots).on v with ⟨result', v'⟩
  unfold fillTable PrivateArray.withCapacity at h
  rw [hreserve] at h
  cases result with
  | error e => cases e <;> cases h
  | ok _ =>
    obtain ⟨hempty, -, -, hfits, -⟩ := hroom.ok hreserve
    simp only [Outcome.mapError, bind, Except.bind, hpush] at h
    cases result' with
    | error e => cases e <;> cases h
    | ok _ =>
      obtain rfl := Except.ok.inj h
      obtain ⟨hitems, -⟩ := (PrivateArray.pushAll_meets (by decide) hfits slots).ok hpush
      rw [hitems, hempty]
      rfl

/-- A harness that was just set up. -/
structure Unused (config : Config) (h : Harness) : Prop where
  config : h.config = config
  lifecycle : h.lifecycle = .constructed
  unspent : h.monitor.Unspent
  slots : h.monitor.slots.items = #[]
  table : h.table.items.toList = h.monitored.map Region.slot
  samples : h.scheduler.samples.Fits
  checksums : h.scheduler.checksums.Fits

theorem new_meets (config : Config) (policy : Policy) (catalog : Outcome Failure (List Region))
    (m : Machine) :
    (Harness.new config policy catalog).Meets m (fun h _ => Unused config h) (fun _ _ => True) := by
  rw [Harness.new, Act.meets_bind]
  apply (Act.meets_true _ m).mono _ fun _ _ he => he
  intro channel m₁ _
  rw [Act.meets_bind]
  apply (Monitor.new_meets channel config.monitorStack m₁).mono _ fun _ _ he => he
  rintro monitor m₂ ⟨hunspent, hslots, -⟩
  have hreserve := Snapshot.reserve_meets hunspent.whole config.reservePages
  obtain ⟨reserved, snapshot, hon⟩ : ∃ reserved snapshot,
      (Snapshot.reserve Mapping.refusal config.reservePages).on monitor.snapshot =
        (reserved, snapshot) := ⟨_, _, rfl⟩
  have hempty : snapshot.Whole ∧ snapshot.addresses.items = monitor.snapshot.addresses.items := by
    cases reserved with
    | ok _ => exact hreserve.ok hon
    | error _ => exact hreserve.error hon
  simp only [hon, Act.meets_bind, Act.meets_outcome, Act.meets_faulty, Act.meets_get,
    Act.meets_pure, implies_true, and_true]
  intro _ _ scheduler hscheduler regions _ classified _ table htable
  apply (Act.meets_true _ m₂).mono _ fun _ _ he => he
  intro _ m₃ _
  apply (Act.meets_true _ m₃).mono _ fun _ _ he => he
  intro _ m₄ _
  have htables := Scheduler.new_eq_ok hscheduler
  constructor
  · rfl
  · rfl
  · refine ⟨hunspent.slotsFit, hempty.1, ?_, hunspent.readiness, hunspent.running, hunspent.inbox,
      hunspent.inFlight, hunspent.handled, hunspent.thread⟩
    have hsize := hunspent.empty
    rwa [Snapshot.size, PrivateArray.size, ← hempty.2] at hsize
  · exact hslots
  · exact fillTable_eq_ok htable
  · rw [htables.1]
    exact PrivateArray.fits_empty
  · rw [htables.2]
    exact PrivateArray.fits_empty

variable {h₀ h : Harness}

/-- The slots of the monitored regions. -/
def slots (h : Harness) : List Slot := h.table.items.toList

/-- The monitored regions are as they were, and no page of them is guarded. -/
def Restored (h₀ h : Harness) : Prop :=
  ∀ r ∈ h₀.monitored, ∀ x ∈ r.span,
    h.memory.byte x = h₀.memory.byte x ∧ h.memory.isGuarded (Page.number x) = false

/-- The harness is armed: the monitored regions were converted to this memory, and all pages of them
are guarded and still hold its bytes. -/
structure Guards (h₀ h : Harness) (m : Memory) : Prop where
  converted : Converted h₀.slots h₀.memory m
  parted : Parted (Within h₀.slots) m h.toWatch
  slots : h.monitor.slots.items.toList = h₀.slots
  armed : h.monitor.armed = true
  samples : h.scheduler.samples.Fits
  checksums : h.scheduler.checksums.Fits

/-- How the memory and the monitor stand in a state. -/
def Stands (h₀ h : Harness) : Lifecycle → Prop
  | .constructed => h.toWatch = h₀.toWatch ∧ h.scheduler = h₀.scheduler
  | .normalized => Converted h₀.slots h₀.memory h.memory ∧ h.monitor = h₀.monitor ∧
      h.scheduler = h₀.scheduler
  | .armed => ∃ m, Guards h₀ h m
  | .tornDown => Restored h₀ h

/-- A harness after calls that succeeded. -/
structure Lives (h₀ h : Harness) : Prop where
  config : h.config = h₀.config
  monitored : h.monitored = h₀.monitored
  table : h.table = h₀.table
  stands : Stands h₀ h h.lifecycle

theorem lives_refl (hl : h₀.lifecycle = .constructed) : Lives h₀ h₀ := by
  refine ⟨rfl, rfl, rfl, ?_⟩
  rw [hl]
  exact ⟨rfl, rfl⟩

section
variable {config : Config} (hu : Unused config h₀)
include hu

theorem aligned_slots : ∀ slot ∈ h₀.slots, Page.IsAligned slot.span.size := by
  rw [slots, hu.table]
  intro slot hslot
  obtain ⟨region, -, rfl⟩ := List.mem_map.mp hslot
  exact region.wholePages

theorem normalize_lives_meets (hh : Lives h₀ h) (plan : Normalization.Plan) :
    (normalize plan).Meets h (fun _ h' => Lives h₀ h') (fun _ _ => True) := by
  have hstands := hh.stands
  refine meets_normalize.mpr ⟨fun hl => ?_, fun _ => trivial⟩
  rw [hl] at hstands
  obtain ⟨hwatch, hscheduler⟩ := hstands
  rw [Watch.onMachine, Act.meets_focus, Act.meets_mapError, hh.table]
  apply (Machine.normalize_meets plan h.monitored (aligned_slots hu)).mono
  · rintro _ m ⟨hm, -⟩
    refine ⟨hh.config, hh.monitored, rfl, ?_, ?_, hscheduler⟩
    · rwa [← hwatch]
    · show h.monitor = h₀.monitor
      rw [hwatch]
  · rintro (_ | _) _ _ <;> trivial

theorem arm_lives_meets (hfree : ∀ n, h₀.memory.isGuarded n = false) (hh : Lives h₀ h) :
    arm.Meets h (fun _ h' => Lives h₀ h') (fun _ _ => True) := by
  have hstands := hh.stands
  refine meets_arm.mpr ⟨fun hl => ?_, fun _ => trivial⟩
  rw [hl] at hstands
  obtain ⟨hconverted, hmonitor, hscheduler⟩ := hstands
  have hunspent : h.monitor.Unspent := hmonitor ▸ hu.unspent
  have hnone : h.monitor.slots.items.toList = [] := by rw [hmonitor, hu.slots]
  rw [hh.table]
  apply ((Watch.arm_meets hunspent h₀.slots h.config.armTimeout).and
    (Watch.arm_armed_meets h₀.slots h.config.armTimeout)).mono _ fun _ _ _ => trivial
  rintro _ w ⟨hw, harmed⟩
  rw [hnone, List.nil_append] at hw
  refine ⟨hh.config, hh.monitored, rfl, h.memory, hconverted, ?_, hw.firstLife.slots, harmed,
    ?_, ?_⟩
  · rw [← hconverted.monitored]
    exact hw.parted fun n => hconverted.free (hfree n)
  · show h.scheduler.samples.Fits
    rw [hscheduler]
    exact hu.samples
  · show h.scheduler.checksums.Fits
    rw [hscheduler]
    exact hu.checksums

omit hu in
theorem run_lives_meets (hrearm : h₀.config.rearm = true) (hh : Lives h₀ h) {σ : Type}
    (target : Target σ) (args : List String) (clock : Nat → Duration) (n : Nat) (subject : σ) :
    (run target args clock n subject).Meets h
      (fun series h' => series.1.aborted = none → Lives h₀ h') (fun _ _ => True) := by
  have hstands := hh.stands
  apply (run_meets target args clock n subject).mono _ fun _ _ _ => trivial
  rintro series h' ⟨⟨hl, -⟩, b, hrun, hran⟩ haborted
  obtain rfl := hran haborted
  rw [hl] at hstands
  obtain ⟨m, hg⟩ := hstands
  have hrests := hg.parted.pristine.rests
  obtain ⟨hreached, hend, -⟩ := Bench.Job.upTo_of_run hrun haborted
  obtain ⟨-, hcourse⟩ := (Bench.Job.upTo_meets hrests hg.parted.opened hg.samples hg.checksums
    le_rfl).ok (hreached n le_rfl)
  have hattends (p : Nat) : (h.job target args clock n subject).Attends (Within h₀.slots) n p ↔
      Within h₀.slots p := by
    have hon : (h.job target args clock n subject).options.rearm = true := by
      show h.config.rearm = true
      rw [hh.config, hrearm]
    simp [Bench.Job.Attends, hon]
  have hcustody : b.custody = (⟨h.toWatch, h.scheduler, subject⟩ : Bench σ).custody :=
    Bench.keeps_run.of_on hrun
  obtain ⟨hslots, hrest⟩ := Prod.mk.inj hcustody
  obtain ⟨harmed, -⟩ := Prod.mk.inj hrest
  refine ⟨hh.config, hh.monitored, hh.table, ?_⟩
  show Stands h₀ (h.ran b) h.lifecycle
  rw [hl, hend]
  refine ⟨m, hg.converted, ?_, ?_, ?_, hcourse.samples, hcourse.checksums⟩
  · exact hcourse.parted.congr (fun p => (hattends p).symm) fun p hp =>
      (hg.parted.pristine.bytes ((hattends p).mp hp)).symm
  · rw [← hg.slots, ← hend]
    exact congrArg (·.items.toList) hslots
  · rw [← hend]
    exact harmed.trans hg.armed

/-- Before it is torn down, the thread serves no page, the monitored regions have their bytes, and
those pages of them that are guarded are in the hands of an armed monitor. -/
theorem Lives.resting (hfree : ∀ n, h₀.memory.isGuarded n = false) (hh : Lives h₀ h)
    (hl : h.lifecycle ≠ .tornDown) : Resting h.memory h.toWatch ∧
      ∀ r ∈ h₀.monitored, ∀ x ∈ r.span, h.memory.byte x = h₀.memory.byte x ∧
        (h.memory.isGuarded (Page.number x) = false ∨
          h.monitor.armed = true ∧ Within h.monitor.slots.items.toList (Page.number x)) := by
  have hstands := hh.stands
  cases hlife : h.lifecycle with
  | constructed =>
    rw [hlife] at hstands
    obtain ⟨hwatch, -⟩ := hstands
    rw [hwatch]
    exact ⟨Watch.resting_of_thread hu.unspent.whole hu.unspent.inbox hu.unspent.thread,
      fun r _ x _ => ⟨rfl, .inl (hfree _)⟩⟩
  | normalized =>
    rw [hlife] at hstands
    obtain ⟨hconverted, hmonitor, -⟩ := hstands
    have hunspent : h.monitor.Unspent := hmonitor ▸ hu.unspent
    exact ⟨Watch.resting_of_thread hunspent.whole hunspent.inbox hunspent.thread,
      fun r _ x _ => ⟨hconverted.bytes x, .inl (hconverted.free (hfree _))⟩⟩
  | armed =>
    rw [hlife] at hstands
    obtain ⟨m, hg⟩ := hstands
    refine ⟨hg.parted.pristine.rests.resting, fun r hr x hx => ?_⟩
    have hslot : r.slot ∈ h₀.slots := by
      rw [slots, hu.table]
      exact List.mem_map_of_mem hr
    have hwithin : Within h₀.slots (Page.number x) :=
      within_number hslot (hg.converted.aligned _ hslot) hx
    refine ⟨?_, .inr ⟨hg.armed, hg.slots ▸ hwithin⟩⟩
    rw [Memory.byte_eq, hg.parted.pristine.bytes hwithin,
      ← Memory.byte_eq, hg.converted.bytes]
  | tornDown => exact absurd hlife hl

theorem teardown_lives_meets (hfree : ∀ n, h₀.memory.isGuarded n = false) (hh : Lives h₀ h) :
    teardown.Meets h (fun _ h' => Lives h₀ h') (fun _ _ => True) := by
  refine meets_teardown.mpr ⟨fun hl => ?_, fun _ => hh⟩
  obtain ⟨hresting, hregions⟩ := hh.resting hu hfree hl
  apply (Watch.teardown_meets hresting).mono _ fun _ _ _ => trivial
  rintro _ w ⟨hloosened, hreleased⟩
  refine ⟨hh.config, hh.monitored, hh.table, fun r hr x hx => ?_⟩
  obtain ⟨hbyte, hguard⟩ := hregions r hr x hx
  refine ⟨(hloosened.byte x).trans hbyte, ?_⟩
  rcases hguard with hfree | ⟨harmed, hwithin⟩
  · exact hloosened.free hfree
  · exact hreleased harmed _ hwithin

/-- A call that succeeds leads from one life to the next. -/
theorem act_lives_meets (hrearm : config.rearm = true)
    (hfree : ∀ n, h₀.memory.isGuarded n = false) (hh : Lives h₀ h) (request : Request) :
    request.act.Meets h (fun aborted h' => aborted = none → Lives h₀ h') (fun _ _ => True) := by
  cases request with
  | normalize plan =>
    rw [Request.act, Act.meets_bind]
    exact (normalize_lives_meets hu hh plan).mono (fun _ _ hh' => Act.meets_pure.mpr fun _ => hh')
      fun _ _ he => he
  | arm =>
    rw [Request.act, Act.meets_bind]
    exact (arm_lives_meets hu hfree hh).mono (fun _ _ hh' => Act.meets_pure.mpr fun _ => hh')
      fun _ _ he => he
  | run target args clock n subject =>
    rw [Request.act, Act.meets_bind]
    exact (run_lives_meets (hu.config ▸ hrearm) hh target args clock n subject).mono
      (fun _ _ hh' => Act.meets_pure.mpr hh') fun _ _ he => he
  | teardown =>
    rw [Request.act, Act.meets_bind]
    exact (teardown_lives_meets hu hfree hh).mono (fun _ _ hh' => Act.meets_pure.mpr fun _ => hh')
      fun _ _ he => he

theorem lives_after (hrearm : config.rearm = true) (hfree : ∀ n, h₀.memory.isGuarded n = false)
    {requests : List Request} (hh : Lives h₀ h) (hs : h.Succeed requests) :
    Lives h₀ (h.after requests) := by
  induction requests generalizing h with
  | nil => exact hh
  | cons request requests ih =>
    obtain ⟨hok, hrest⟩ := hs
    have hlives := (act_lives_meets hu hrearm hfree hh request).ok (Prod.ext hok rfl)
    exact ih (hlives rfl) hrest

end

end Harness

end Rewind
