import Rewind.Proofs.Lifetimes
import Rewind.Proofs.Unscripted

/-! Lives that nothing disturbs. With a kernel that is not scripted and regions that can be
converted and tracked, each call of the harness succeeds when it is its turn. -/
namespace Rewind

theorem Memory.isGuarded_of_toList {m : Memory}
    (h : ∀ page ∈ m.toList, page.2.guarded = false) (n : Nat) : m.isGuarded n = false := by
  rw [isGuarded_eq]
  cases hf : m.frame? n with
  | none => rfl
  | some f => exact h (n, f) (Std.TreeMap.mem_toList_iff_getElem?_eq_some.mpr hf)

namespace Harness

open Monitor (smallestStack)
open Watch (Parted Resting Roomy Quiet Open)

/-- Nothing stands in the way of a life that starts here. -/
structure Undisturbed (h₀ : Harness) : Prop where
  free : ∀ n, h₀.memory.isGuarded n = false
  convertible : ∀ slot ∈ h₀.slots, Normalization.Convertible slot
  apart : h₀.slots.Pairwise fun a b => ∀ n, n * Page.size ∈ a.span → n * Page.size ∉ b.span
  table : 2 * h₀.slots.length * 24 + 3 * Page.size ≤ Mapping.limit
  stack : smallestStack ≤ h₀.monitor.stack.usable
  roomy : Roomy (Within h₀.slots)
  verify : h₀.config.verify = false

/-- While the kernel is calm, a run of an armed harness that does not verify is not given up. -/
theorem run_isOk_of_quiet {h : Harness} {pages : Nat → Prop} {base : Memory}
    (hrests : h.toWatch.Rests pages base) (hquiet : Quiet pages h.toWatch)
    (hopen : Open pages h.toWatch) (hs : h.scheduler.samples.Fits)
    (hc : h.scheduler.checksums.Fits) (hl : h.lifecycle = .armed) (hv : h.config.verify = false)
    {σ : Type} (target : Target σ) (args : List String) (clock : Nat → Duration) {n : Nat}
    (hn : Bench.Reservable h.scheduler n) (subject : σ) :
    (run target args clock n subject).Meets h
      (fun series h' => series.1.aborted = none ∧ h'.lifecycle = .armed ∧
        h'.kernel.rules = h.kernel.rules)
      (fun _ _ => False) := by
  obtain ⟨series, b, hrun, haborted⟩ := Bench.Job.run_isOk
    (r := h.job target args clock n subject) hrests hquiet hopen hs hc hn hv
  apply (run_meets target args clock n subject).mono
  · rintro made h' ⟨⟨-, hl'⟩, b', hrun', hran⟩
    obtain ⟨hseries, rfl⟩ := Prod.mk.inj (hrun.symm.trans hrun')
    obtain rfl := Except.ok.inj hseries
    obtain rfl := hran haborted
    refine ⟨haborted, hl', ?_⟩
    obtain ⟨-, hrest⟩ := Prod.mk.inj (Bench.keeps_run.of_on hrun)
    exact (Prod.mk.inj hrest).2
  · rintro e h' ⟨-, herror⟩
    obtain ⟨e', b', hrun'⟩ := herror hl
    cases hrun.symm.trans hrun'

section
variable {config : Config} {h₀ h : Harness} (hu : Unused config h₀) (hd : Undisturbed h₀)
include hu hd

theorem Undisturbed.enlistable {m : Memory} (hm : ∀ k, Within h₀.slots k → m.isMapped k = true)
    {slot : Slot} (hslot : slot ∈ h₀.slots) : m.Enlistable slot.span := by
  have hc := hd.convertible slot hslot
  have hordered := slot.span.ordered
  have hlow := hc.low
  have hpositive := hc.positive
  simp only [Span.size] at hlow hpositive
  refine ⟨⟨hc.aligned, aligned_slots hu slot hslot, hc.positive.ne', by omega⟩, ?_⟩
  have hstart : slot.span.start ∈ slot.span := by
    rw [Span.mem_def]
    omega
  refine ⟨_, hm _ (within_number hslot hc.aligned hstart), ?_⟩
  rw [hc.aligned.mul_number]
  exact hstart

theorem normalize_isOk (hh : Lives h₀ h) (hl : h.lifecycle = .constructed)
    (hk : h.kernel.Unscripted) :
    (normalize Normalization.unhindered).Meets h
      (fun _ h' => Lives h₀ h' ∧ h'.lifecycle = .normalized ∧ h'.kernel.Unscripted)
      (fun _ _ => False) := by
  have hsafe : (normalize Normalization.unhindered).Meets h
      (fun _ h' => h'.lifecycle = .normalized ∧ h'.kernel.Unscripted) (fun _ _ => False) := by
    refine meets_normalize.mpr ⟨fun _ => ?_, fun hne => absurd hl hne⟩
    rw [Watch.onMachine, Act.meets_focus, Act.meets_mapError, hh.table]
    apply (Machine.normalize_meets _ h.monitored (aligned_slots hu)).mono
    · rintro _ m ⟨-, hkernel⟩
      refine ⟨rfl, ?_⟩
      show m.kernel.Unscripted
      rw [hkernel]
      exact hk
    · intro e m he
      obtain ⟨index, step, hstep⟩ := he hd.convertible
      exact absurd rfl hstep
  exact ((normalize_lives_meets hu hh _).and hsafe).mono (fun _ _ hpost => hpost) fun _ _ he => he.2

theorem arm_isOk (hh : Lives h₀ h) (hl : h.lifecycle = .normalized) (hk : h.kernel.Unscripted) :
    arm.Meets h (fun _ h' => Lives h₀ h' ∧ h'.lifecycle = .armed ∧ h'.kernel.Unscripted ∧
      h'.scheduler = h.scheduler ∧ h'.monitor.inFlight = 0) (fun _ _ => False) := by
  have hstands := hh.stands
  rw [hl] at hstands
  obtain ⟨hconverted, hmonitor, -⟩ := hstands
  have hunspent : h.monitor.Unspent := hmonitor ▸ hu.unspent
  have hnone : h.monitor.slots.items = #[] := by rw [hmonitor, hu.slots]
  have hstack : smallestStack ≤ h.monitor.stack.usable := hmonitor ▸ hd.stack
  have hwatch := Watch.arm_isOk hunspent hnone hd.table hstack hk
    (fun _ => hd.enlistable hu hconverted.mapped) h.config.armTimeout
  have hsafe : arm.Meets h (fun _ h' => h'.lifecycle = .armed ∧ h'.kernel.Unscripted ∧
      h'.scheduler = h.scheduler ∧ h'.monitor.inFlight = 0) (fun _ _ => False) := by
    refine meets_arm.mpr ⟨fun _ => ?_, fun hne => absurd hl hne⟩
    rw [hh.table]
    apply ((Watch.arm_meets hunspent h₀.slots h.config.armTimeout).and hwatch).mono _
      fun _ _ he => he.2
    rintro _ w ⟨hw, hk'⟩
    exact ⟨rfl, hk', rfl, hw.firstLife.inFlight⟩
  exact ((arm_lives_meets hu hd.free hh).and hsafe).mono (fun _ _ hpost => hpost) fun _ _ he => he.2

omit hu in
theorem run_isOk (hh : Lives h₀ h) (hl : h.lifecycle = .armed) (hk : h.kernel.Unscripted)
    (hi : h.monitor.inFlight = 0) {σ : Type} (target : Target σ) (args : List String)
    (clock : Nat → Duration) {n : Nat} (hn : Bench.Reservable h.scheduler n) (subject : σ) :
    (run target args clock n subject).Meets h
      (fun series h' => series.1.aborted = none ∧ h'.lifecycle = .armed ∧ h'.kernel.Unscripted)
      (fun _ _ => False) := by
  have hstands := hh.stands
  rw [hl] at hstands
  obtain ⟨m, hg⟩ := hstands
  have hquiet : Quiet (Within h₀.slots) h.toWatch := ⟨hk.calm, hd.roomy, hi⟩
  have hverify : h.config.verify = false := by rw [hh.config, hd.verify]
  apply (run_isOk_of_quiet hg.parted.pristine.rests hquiet hg.parted.opened hg.samples
    hg.checksums hl hverify target args clock hn subject).mono _ fun _ _ he => he
  rintro series h' ⟨haborted, hl', hrules⟩
  exact ⟨haborted, hl', hrules.trans hk⟩

theorem teardown_isOk (hh : Lives h₀ h) (hl : h.lifecycle = .armed) (hk : h.kernel.Unscripted) :
    teardown.Meets h (fun _ h' => h'.lifecycle = .tornDown) (fun _ _ => False) := by
  have hdown : h.lifecycle ≠ .tornDown := by
    rw [hl]
    decide
  obtain ⟨hresting, -⟩ := hh.resting hu hd.free hdown
  have hstands := hh.stands
  rw [hl] at hstands
  obtain ⟨m, hg⟩ := hstands
  have hrests := hg.parted.pristine.rests
  have henrolled : Watch.Enrolled h.monitor.slots.items.toList h.memory := by
    have htracked := hrests.baselined.tracked
    rw [hg.slots]
    refine ⟨fun _ => hd.enlistable hu fun k hk => ?_, fun slot hslot n hn => ?_, hd.apart⟩
    · exact Memory.isMapped_of_isTracked (htracked k hk)
    · exact htracked n ⟨slot, hslot, (Memory.mem_pagesIn.mp hn).2⟩
  refine meets_teardown.mpr ⟨fun _ => ?_, fun hend => absurd hend hdown⟩
  apply (Watch.teardown_isOk hresting (hrests.unheld hk) henrolled hk).mono _ fun _ _ he => he
  exact fun _ _ _ => rfl

end

/-- A region of one page. -/
def oneRegion : Region where
  span := ⟨4096, 8192, Watch.firstPage_ordered, Watch.firstPage_bounded⟩
  access := .readWrite
  shared := false
  offset := 0
  device := default
  inode := 0
  backing := .anonymous
  alignedOffset := Nat.zero_mod _

/-- A machine with that page. Its kernel is not scripted. -/
def onePage : Machine := .start (Memory.empty.put 1 (.zero .readWrite .anonymous)) []

/-- A harness over it, which guards captured pages again or not. -/
def overOnePage (rearm : Bool) : Act Machine Failure Harness :=
  Harness.new { Config.standard with rearm := rearm } .empty (.ok [oneRegion])

/-- The harness over one page can be set up, and nothing disturbs its life. -/
theorem overOnePage_isOk (rearm : Bool) : ∃ h₀ m', (overOnePage rearm).on onePage = (.ok h₀, m') ∧
    Undisturbed h₀ ∧ h₀.kernel.Unscripted ∧ h₀.monitored = [oneRegion] := by
  let sound (h : Harness) : Bool :=
    h.monitored = [oneRegion] && h.kernel.rules = [] && !h.config.verify &&
      h.memory.toList.all (fun page => !page.2.guarded) &&
      decide (smallestStack ≤ h.monitor.stack.usable)
  have hsound : ((overOnePage rearm).on onePage).1.toOption.map sound = some true := by
    cases rearm <;> decide +kernel
  rcases hon : (overOnePage rearm).on onePage with ⟨_ | h₀, m'⟩
  · rw [hon] at hsound
    cases hsound
  rw [hon] at hsound
  have hh : sound h₀ = true := Option.some.inj hsound
  simp only [sound, Bool.and_eq_true, decide_eq_true_eq, Bool.not_eq_true', List.all_eq_true] at hh
  obtain ⟨⟨⟨⟨hmonitored, hrules⟩, hverify⟩, hfree⟩, hstack⟩ := hh
  have hu := (new_meets _ _ _ _).ok hon
  have hslots : h₀.slots = [oneRegion.slot] := by rw [slots, hu.table, hmonitored]; rfl
  refine ⟨h₀, m', rfl, ⟨?_, ?_, ?_, ?_, hstack, ?_, hverify⟩, hrules, hmonitored⟩
  · exact Memory.isGuarded_of_toList hfree
  · rw [hslots]
    intro slot hslot
    obtain rfl := List.mem_singleton.mp hslot
    exact ⟨by decide, by decide, by decide, ⟨true, true, false, rfl⟩, by decide⟩
  · rw [hslots]
    exact List.pairwise_singleton _ _
  · rw [hslots]
    decide
  · rw [hslots]
    refine ⟨[1], fun n hn => ?_, by decide⟩
    obtain ⟨hlow, hhigh⟩ : 4096 ≤ n * 4096 ∧ n * 4096 < 8192 := within_singleton.mp hn
    rw [List.mem_singleton]
    omega

end Harness

end Rewind
