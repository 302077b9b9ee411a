import Rewind.Proofs.Arms
import Rewind.Proofs.Calm

/-! Histories of an armed monitor. Whatever is written, restored and rebaselined, and in whichever
order, each monitored page is either guarded and as its baseline or captured once with it. -/
namespace Rewind

open Monitor (Point State Thread Readiness)

/-- The pages that a list of regions puts under watch: the mapped pages in them. -/
def Monitored (m₀ : Memory) (slots : List Slot) (n : Nat) : Prop :=
  m₀.isMapped n = true ∧ Within slots n

instance (m₀ : Memory) (slots : List Slot) (n : Nat) : Decidable (Monitored m₀ slots n) :=
  inferInstanceAs (Decidable (_ ∧ _))

namespace Watch

theorem Armed.serves {m₀ : Memory} {slots : List Slot} {w : Watch} (h : Armed m₀ slots w) :
    ∃ p, w.monitor.thread = some ⟨p, false⟩ ∧ w.Serves 0 none p ∧ p.IsIdle := by
  obtain ⟨-, ⟨-, -, whole, -, running, inbox, inFlight, handled⟩, p, ht, hp⟩ := h
  refine ⟨p, ht, ⟨whole, running, ?_, ?_, by simp, ?_⟩, hp.isIdle⟩
  · rw [inFlight, hp.inFlight]
  · rw [handled, hp.uncounted]
    rfl
  · rw [inbox]
    exact .quiet hp.isIdle

theorem Armed.pristine {m₀ : Memory} {slots : List Slot} {w : Watch} (h : Armed m₀ slots w) :
    Pristine (Monitored m₀ slots) m₀ w := by
  obtain ⟨p, ht, hserves, hidle⟩ := h.serves
  have hm := h.enlisted
  have hnone : w.monitor.snapshot.addresses.items = #[] :=
    Array.eq_empty_of_size_eq_zero h.firstLife.empty
  refine ⟨⟨0, p, false, ht, fun _ => rfl, hserves, ?_⟩, h.firstLife.empty⟩
  rw [hidle.caught?]
  refine ⟨?_, ?_, ?_, ?_, ?_, ?_, ?_, by simp⟩
  · rintro n ⟨hmap, hin⟩
    simp [hm.isTracked, hmap, hin]
  · rintro n ⟨-, slot, hslot, hin⟩
    exact (hm.trackable slot hslot).low hin
  · simp [hnone]
  · simp [hnone]
  · rintro n ⟨hmap, hin⟩ -
    exact ⟨by simp [hm.isGuarded, hmap, hin], hm.bytes n⟩
  · simp [hnone]
  · simp [hnone]

/-- One use of an armed monitor: the memory that is the baseline and the machine, before and
after. Draining may fail, and a request that was held back may return at any time. -/
inductive Use (pages : Nat → Prop) : Memory × Watch → Memory × Watch → Prop
  | write {base : Memory} {w w' : Watch} {start : Nat} {bytes : Array UInt8}
      (hn : ∀ n ∈ Page.numbers start bytes.size, pages n)
      (h : (write start bytes).on w = (.ok (), w')) : Use pages (base, w) (base, w')
  | drain {base : Memory} {w w' : Watch} {timeout : Duration} {r : Outcome Stop Unit}
      (h : (drain timeout).on w = (r, w')) : Use pages (base, w) (base, w')
  | restore {base : Memory} {w w' : Watch} {count : Nat}
      (h : (restore true).on w = (.ok count, w')) : Use pages (base, w) (base, w')
  | rebaseline {base : Memory} {w w' : Watch} {timeout : Duration} {count : Nat}
      (h : (rebaseline timeout).on w = (.ok count, w')) : Use pages (base, w) (w.memory, w')
  | overdue {base : Memory} {w w' : Watch} {timeout : Duration} {inFlight : Nat}
      (h : (rebaseline timeout).on w =
        (.error (.error (.failure (.drainTimeout inFlight timeout))), w')) :
      Use pages (base, w) (base, w')
  | resume {base : Memory} {w w' : Watch} (h : resume.on w = (.ok (), w')) :
      Use pages (base, w) (base, w')

variable {pages : Nat → Prop} {base base' : Memory} {w w' : Watch}

theorem Rests.serve (h : Rests pages base w) :
    serve.Meets w (fun _ w' => Rests pages base w' ∧ Confined [] w w')
      (fun e _ => EndsProcess e) := by
  obtain ⟨raised, h⟩ := h
  refine (h.serve (by simp)).mono ?_ fun _ _ he => he
  intro _ w' hpost
  obtain ⟨fault', hw', rfl | ⟨rfl, -⟩, hc, -⟩ := hpost
  · exact ⟨⟨raised, hw'⟩, hc⟩
  · exact ⟨⟨raised, hw'⟩, hc⟩

theorem Rests.free (h : Rests pages base w) :
    Rests pages base { w with monitor := { w.monitor with
      thread := w.monitor.thread.map fun t => { t with held := false } } } := by
  obtain ⟨raised, p, held, ht, -, hv, hb⟩ := h
  refine ⟨raised, p, false, by rw [ht]; rfl, fun _ => rfl, ?_, hb⟩
  exact ⟨hv.whole, hv.running, hv.inFlight, hv.count, hv.guarded, hv.stage⟩

theorem Rests.resume (h : Rests pages base w) :
    resume.Meets w (fun _ w' => Rests pages base w' ∧ Confined [] w w')
      (fun e _ => EndsProcess e) := by
  simp only [Watch.resume, Act.meets_bind, meets_modifyMonitor]
  refine h.free.serve.mono ?_ fun _ _ he => he
  intro _ w' hpost
  obtain ⟨hw', hc⟩ := hpost
  exact ⟨hw', hc.rules, hc.frames, hc.captures, hc.captured⟩

theorem Use.rests (hu : Use pages (base, w) (base', w')) (h : Rests pages base w) :
    Rests pages base' w' := by
  cases hu with
  | write hn hw => exact ((write_meets h hn).ok hw).1.rests
  | @drain _ _ _ timeout r hw =>
    have hd := drain_meets (w := w) timeout
    cases r with
    | ok _ => exact (hd.ok hw).2 ▸ h
    | error _ => exact (hd.error hw).2.1 ▸ h
  | restore hw =>
    obtain ⟨-, hp, -⟩ := (restore_meets h).ok hw
    exact hp.rests
  | rebaseline hw =>
    obtain ⟨-, hp, -⟩ := (rebaseline_meets h _).ok hw
    exact hp.rests
  | overdue hw =>
    rcases (rebaseline_meets h _).error hw with ⟨-, he | ⟨_, _, he⟩⟩ | ⟨-, hw', -⟩
    · simp at he
    · simp at he
    · exact hw' ▸ h
  | resume hw => exact (h.resume.ok hw).1

/-- The page was not written to since its baseline: it is guarded, not captured, and the same. -/
def Untouched (base : Memory) (w : Watch) (n : Nat) : Prop :=
  w.memory.isGuarded n = true ∧ n * Page.size ∉ w.monitor.snapshot.addresses.items ∧
    ∀ x, Page.number x = n → w.memory.byte x = base.byte x

theorem Rests.write_ok (h : Rests pages base w) (hc : w.kernel.Calm) (hroom : Roomy pages)
    {start : Nat} {bytes : Array UInt8} (hn : ∀ n ∈ Page.numbers start bytes.size, pages n) :
    ∃ w', (write start bytes).on w = (.ok (), w') := by
  have hcalm := writePages_calm_meets h start bytes
    (fun n hmem => ⟨hn n hmem, Page.number_max_of_mem_numbers hmem⟩) hc hroom
  obtain ⟨_, w', hw, -⟩ := hcalm.exists_ok
  exact ⟨w', hw⟩

/-- Two pages of zeros. -/
def twoPages : Memory :=
  (Memory.empty.put 1 (.zero .readWrite .anonymous)).put 2 (.zero .readWrite .anonymous)

theorem firstPage_ordered : 4096 ≤ 8192 := by decide

theorem firstPage_bounded : 8192 < Word.limit := by decide

/-- Two regions over these pages, one inside the other. -/
def twoRegions : List Slot :=
  [⟨⟨4096, 12288, by decide, by decide⟩, .readWrite⟩,
    ⟨⟨4096, 8192, firstPage_ordered, firstPage_bounded⟩, .readWrite⟩]

/-- A machine with two pages and a monitor that was just set up. -/
def justBuilt : Watch where
  memory := twoPages
  kernel := .scripted []
  journal := .empty
  monitor := {
    channel := ⟨.all, .userOnly⟩, inbox := none, stack := ⟨69632, 4096⟩, block := ⟨4096, 0⟩
    slots := .empty, snapshot := .new Page.size, state := .init, readiness := .pending
    inFlight := 0, handled := 0, stopSignalled := false, thread := none, armed := false }

theorem new_justBuilt : ∃ m, (Monitor.new ⟨.all, .userOnly⟩ 65536).on (.start twoPages []) =
    (.ok justBuilt.monitor, m) := ⟨_, rfl⟩

theorem built_justBuilt : Built justBuilt.monitor := new_justBuilt.elim fun _ h => .new h

theorem isMapped_twoPages {n : Nat} (h : twoPages.isMapped n = true) : n ∈ [1, 2] := by
  by_contra hn
  simp only [List.mem_cons, List.not_mem_nil, or_false, not_or] at hn
  rw [Memory.isMapped, twoPages, Memory.frame?_put_of_ne _ _ hn.2,
    Memory.frame?_put_of_ne _ _ hn.1] at h
  simp [Memory.empty, Memory.frame?] at h

theorem arm_justBuilt : ∃ w, (arm twoRegions .zero).on justBuilt = (.ok (), w) ∧ w.kernel.Calm := by
  have hok : ((arm twoRegions .zero).on justBuilt).1.isOk = true := by decide +kernel
  have hrules : ((arm twoRegions .zero).on justBuilt).2.kernel.rules = [] := by decide +kernel
  generalize (arm twoRegions .zero).on justBuilt = result at *
  obtain ⟨_ | _, w⟩ := result
  · cases hok
  · have hnil : w.kernel.rules = [] := hrules
    have hgrants (call : Kernel.Call) : w.kernel.Grants call := by simp [Kernel.Grants, hnil]
    exact ⟨w, rfl, hgrants _, hgrants _, hgrants _, hgrants _⟩

theorem roomy_twoPages : Roomy (Monitored twoPages twoRegions) :=
  ⟨[1, 2], fun _ hn => isMapped_twoPages hn.1, by decide⟩

theorem write_justBuilt : ∃ w₁ w₂, (arm twoRegions .zero).on justBuilt = (.ok (), w₁) ∧
    w₁.kernel.Calm ∧ (∀ n ∈ Page.numbers 8191 2, Monitored twoPages twoRegions n) ∧
    (write 8191 #[1, 2]).on w₁ = (.ok (), w₂) := by
  obtain ⟨w₁, harm, hcalm⟩ := arm_justBuilt
  have hrest := ((arm_meets built_justBuilt.unspent _ _).ok harm).pristine.rests
  have hpages : ∀ n ∈ Page.numbers 8191 2, Monitored twoPages twoRegions n := by decide +kernel
  have hwrite : ∃ w₂, (write 8191 #[1, 2]).on w₁ = (.ok (), w₂) :=
    hrest.write_ok hcalm roomy_twoPages hpages
  obtain ⟨w₂, hw⟩ := hwrite
  exact ⟨w₁, w₂, harm, hcalm, hpages, hw⟩

end Watch

end Rewind
