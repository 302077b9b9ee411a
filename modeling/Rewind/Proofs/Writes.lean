import Rewind.Proofs.Baseline
import Rewind.Watch.Write

/-! Writes of the watched process: after a write that came back, every page that it reached is
captured with its baseline, and no other page has changed. -/
namespace Rewind

open Monitor (Point State Thread)

theorem Baselined.writePage {pages : Nat → Prop} {base m : Memory} {s : Snapshot}
    (h : Baselined pages base none m s) {n : Nat} (hg : m.isGuarded n = false) (start : Nat)
    (bytes : Array UInt8) : Baselined pages base none (m.writePage start bytes n) s := by
  refine ⟨?_, h.low, h.known, h.nodup, ?_, h.dirty, ?_, h.caught⟩
  · simpa using h.tracked
  · intro k hk hout
    obtain ⟨hguard, hbytes⟩ := h.clean k hk hout
    have hne : k ≠ n := by
      rintro rfl
      rw [hg] at hguard
      exact absurd hguard (by decide)
    rw [Memory.isGuarded_writePage, Memory.bytes?_writePage_of_ne hne]
    exact ⟨hguard, hbytes⟩
  · simpa using h.unreleased

theorem Baselined.mem_of_not_guarded {pages : Nat → Prop} {base m : Memory} {caught : Option Nat}
    {s : Snapshot} (h : Baselined pages base caught m s) {n : Nat} (hn : pages n)
    (hg : m.isGuarded n = false) : n * Page.size ∈ s.addresses.items := by
  by_contra hout
  have hguard := (h.clean n hn hout).1
  rw [hg] at hguard
  exact absurd hguard (by decide)

namespace Watch

/-- No fault is open, and memory and captures agree with a baseline. -/
def Rests (pages : Nat → Prop) (base : Memory) (w : Watch) : Prop :=
  ∃ raised, Attended pages base raised none w

variable {pages : Nat → Prop} {base : Memory} {w : Watch}

theorem Rests.baselined (h : Rests pages base w) :
    Baselined pages base none w.memory w.monitor.snapshot := by
  obtain ⟨raised, p, held, -, -, hv, hb⟩ := h
  have stage := hv.stage
  generalize w.monitor.inbox = inbox at stage
  cases stage with
  | quiet hp => rwa [hp.caught?] at hb

/-- Whatever memory and captures become, the thread does not mind while no fault is open. -/
theorem Rests.update {pages' : Nat → Prop} {base' : Memory} (h : Rests pages base w) {k : Kernel}
    {m : Memory} {s : Snapshot} (hk : k.rules = w.kernel.rules) (hs : s.Whole)
    (hb : Baselined pages' base' none m s) :
    Rests pages' base'
      { w with kernel := k, memory := m, monitor := { w.monitor with snapshot := s } } := by
  obtain ⟨raised, p, held, ht, hh, hv, -⟩ := h
  obtain ⟨-, running, inFlight, count, -, stage⟩ := hv
  have hserves : Watch.Serves raised none p
      { w with kernel := k, memory := m, monitor := { w.monitor with snapshot := s } } :=
    ⟨hs, running, inFlight, count, by simp, stage⟩
  refine ⟨raised, p, held, ht, fun hg => hh fun r hr => hg r (hk ▸ hr), hserves, ?_⟩
  generalize w.monitor.inbox = inbox at stage
  cases stage with
  | quiet hp => rwa [hp.caught?]

theorem Rests.whole (h : Rests pages base w) : w.monitor.snapshot.Whole := by
  obtain ⟨raised, p, held, -, -, hv, -⟩ := h
  exact hv.whole

/-- The machine once a writer has sent its message. -/
def raising (w : Watch) (address : Nat) : Watch :=
  { w with monitor := { w.monitor with inbox := some (.heldWrite address) } }

theorem Rests.raise (h : Rests pages base w) {n address : Nat} (ha : Page.number address = n)
    (hg : w.memory.isGuarded n = true) :
    ∃ raised, Attended pages base raised (some n) (w.raising address) := by
  obtain ⟨raised, p, held, ht, hh, hv, hb⟩ := h
  obtain ⟨whole, running, inFlight, count, -, stage⟩ := hv
  refine ⟨raised + 1, p, held, ht, hh, ⟨whole, running, inFlight, ?_, ?_, ?_⟩, hb⟩
  · simpa [raising] using count
  · rintro _ ⟨⟩
    exact hg
  · generalize w.monitor.inbox = inbox at stage
    cases stage with
    | quiet hp => exact ha ▸ .raised hp

/-- A writer that finds its page guarded waits until it is captured and released. -/
theorem claim_meets (h : Rests pages base w) {n address : Nat} (hn : pages n)
    (ha : Page.number address = n) :
    (claim n address).Meets w
      (fun _ w' => Rests pages base w' ∧ Confined [n] w w' ∧ w'.memory.isGuarded n = false ∧
        ∀ x, w'.memory.byte x = w.memory.byte x)
      (fun e _ => EndsProcess e) := by
  simp only [claim, Act.meets_bind, Act.meets_get, Act.meets_ite, meets_modifyMonitor,
    meets_halt, Act.meets_pure]
  refine ⟨fun hg => ?_, fun hg => ⟨h, confined_of_eq rfl rfl rfl, by simpa using hg, by simp⟩⟩
  obtain ⟨raised, hopen⟩ := h.raise ha hg
  refine (hopen.serve (by simpa using hn)).mono ?_ fun _ _ he => he
  intro _ w' hpost
  obtain ⟨fault', hw', rfl | ⟨rfl, hfree⟩, hc, hbytes⟩ := hpost
  · refine ⟨fun _ => (halts _).endsProcess, fun hfree => ?_⟩
    obtain ⟨_, _, -, -, hv', -⟩ := hw'
    exact absurd (hv'.guarded n rfl) hfree
  · have hfree := hfree n rfl
    exact ⟨fun _ => (halts _).endsProcess, fun _ =>
      ⟨⟨_, hw'⟩, ⟨hc.rules, hc.frames, hc.captures, hc.captured⟩, hfree, hbytes⟩⟩

/-- What a write came to that reached these pages. -/
structure Wrote (pages : Nat → Prop) (base : Memory) (ns : List Nat) (w w' : Watch) : Prop where
  rests : Rests pages base w'
  confined : Confined ns w w'
  captured : ∀ n ∈ ns, n * Page.size ∈ w'.monitor.snapshot.addresses.items

theorem wrote_nil (h : Rests pages base w) : Wrote pages base [] w w :=
  ⟨h, confined_of_eq rfl rfl rfl, by simp⟩

theorem Wrote.trans {ns ks : List Nat} {w' w'' : Watch} (h : Wrote pages base ns w w')
    (h' : Wrote pages base ks w' w'') : Wrote pages base (ns ++ ks) w w'' := by
  refine ⟨h'.rests, h.confined.trans h'.confined, fun n hn => ?_⟩
  rcases List.mem_append.mp hn with hn | hn
  · exact h'.confined.captures _ (h.captured n hn)
  · exact h'.captured n hn

theorem writePage_meets (h : Rests pages base w) {n address : Nat} (hn : pages n)
    (ha : Page.number address = n) (start : Nat) (bytes : Array UInt8) :
    (claim n address).Meets w
      (fun _ w' => Wrote pages base [n] w { w' with memory := w'.memory.writePage start bytes n } ∧
        w.memory.Lands start bytes [n] (w'.memory.writePage start bytes n))
      (fun e _ => EndsProcess e) := by
  refine (claim_meets h hn ha).mono ?_ fun _ _ he => he
  intro _ w' hpost
  obtain ⟨hw', hkept, hfree, hbytes⟩ := hpost
  have hb := hw'.baselined
  have hland := hw'.update rfl hw'.whole (hb.writePage hfree start bytes)
  refine ⟨⟨hland, ⟨hkept.rules, ?_, hkept.captures, hkept.captured⟩, ?_⟩, ?_⟩
  · intro k hk
    rw [Memory.frame?_writePage, if_neg (by simpa using hk)]
    exact hkept.frames k hk
  · intro k hk
    obtain rfl := List.mem_singleton.mp hk
    exact hb.mem_of_not_guarded hn hfree
  · intro x
    have hmap := Memory.isMapped_of_isTracked (hb.tracked n hn)
    simp only [Memory.byte_writePage hmap, Memory.landed, hbytes, List.mem_singleton]

theorem writePages_meets (h : Rests pages base w) (start : Nat) (bytes : Array UInt8)
    {ns : List Nat} (hn : ∀ n ∈ ns, pages n ∧ Page.number (max start (n * Page.size)) = n) :
    (writePages start bytes ns).Meets w
      (fun _ w' => Wrote pages base ns w w' ∧ w.memory.Lands start bytes ns w'.memory)
      (fun e _ => EndsProcess e) := by
  induction ns generalizing w with
  | nil => exact Act.meets_pure.mpr ⟨wrote_nil h, fun x => by simp⟩
  | cons n ns ih =>
    obtain ⟨⟨hp, ha⟩, hns⟩ := List.forall_mem_cons.mp hn
    simp only [writePages, Act.meets_bind, Act.meets_modify]
    refine (writePage_meets h hp ha start bytes).mono ?_ fun _ _ he => he
    intro _ w' hpost
    obtain ⟨hw', hlands⟩ := hpost
    refine (ih hw'.rests hns).mono ?_ fun _ _ he => he
    intro _ w'' hpost
    obtain ⟨hw'', hlands'⟩ := hpost
    exact ⟨hw'.trans hw'', hlands.append hlands'⟩

/-- A write lands, is confined to the pages that its bytes touch, and has all of them captured. -/
theorem write_meets (h : Rests pages base w) {start : Nat} {bytes : Array UInt8}
    (hn : ∀ n ∈ Page.numbers start bytes.size, pages n) :
    (write start bytes).Meets w
      (fun _ w' => Wrote pages base (Page.numbers start bytes.size) w w' ∧
        ∀ x, w'.memory.byte x = w.memory.landed start bytes x)
      (fun e _ => EndsProcess e) := by
  have hpages := writePages_meets h start bytes fun n hmem =>
    ⟨hn n hmem, Page.number_max_of_mem_numbers hmem⟩
  exact hpages.mono (fun _ _ hpost => ⟨hpost.1, hpost.2.byte⟩) fun _ _ he => he

/-- The pages that several writes touch. -/
def touched (writes : List (Nat × Array UInt8)) : List Nat :=
  writes.flatMap fun run => Page.numbers run.1 run.2.size

theorem writeAll_meets (h : Rests pages base w) {writes : List (Nat × Array UInt8)}
    (hn : ∀ n ∈ touched writes, pages n) :
    (writeAll writes).Meets w (fun _ => Wrote pages base (touched writes) w)
      (fun e _ => EndsProcess e) := by
  induction writes generalizing w with
  | nil => exact Act.meets_pure.mpr (wrote_nil h)
  | cons run writes ih =>
    rw [touched, List.flatMap_cons, List.forall_mem_append] at hn
    simp only [writeAll, Act.meets_bind]
    refine (write_meets h hn.1).mono ?_ fun _ _ he => he
    intro _ w' hpost
    obtain ⟨hw', -⟩ := hpost
    exact (ih hw'.rests hn.2).mono (fun _ _ h' => hw'.trans h') fun _ _ he => he

end Watch

end Rewind
