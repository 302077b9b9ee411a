import Rewind.Proofs.Replay

/-! Restoring and rebaselining: both end with all pages guarded and no captures, and one of them
with the memory of the baseline, the other with the baseline of the memory. -/
namespace Rewind

open Monitor (Point State Thread)

namespace Watch

variable {w : Watch}

/-- The script refused to guard a page, or held the request back for good. -/
def RearmTrouble (w : Watch) (e : Trouble Stop) : Prop :=
  ¬w.kernel.Grants .protect ∧
    (e = .error (.halt .stalled) ∨ ∃ page errno, e = .error (.failure (.rearm page errno)))

/-- Guarding a tracked page again does just that, unless the script has something to say. -/
theorem rearmPage_meets {n : Nat} (ht : w.memory.isTracked n = true)
    (hl : n * Page.size + Page.size ≤ Mapping.limit) :
    (rearmPage (n * Page.size)).Meets w
      (fun _ w' => ∃ k : Kernel, k.rules = w.kernel.rules ∧
        w' = { w with kernel := k, memory := w.memory.mark n true })
      (fun e _ => w.RearmTrouble e) := by
  have hlimit : Mapping.limit < Word.limit := by decide
  obtain ⟨span, hspan⟩ := Span.ofLength_isOk (hl.trans_lt hlimit)
  have hset := Memory.setGuarded_page_of_tracked true hspan ht hl
  simp only [rearmPage, Act.meets_bind, Act.meets_faulty, hspan]
  refine ⟨?_, by simp⟩
  rintro _ ⟨⟩
  rw [meets_request]
  apply Machine.requestMemory_meets.mono
  · intro r m hpost
    obtain ⟨-, rfl, rfl⟩ := hpost
    dsimp only
    rw [hset]
    split
    · exact Act.meets_pure.mpr ⟨(w.called .protect).kernel, rfl, rfl⟩
    · next hr =>
      refine meets_halt.mpr ⟨fun hg => ?_, .inl rfl⟩
      rw [hg.ask, Machine.returnOf_none] at hr
      cases hr
    · next hr => cases hr
  · intro _ m hpost
    obtain ⟨errno, rfl, ⟨hask, -⟩ | ⟨herr, -⟩⟩ := hpost
    · exact meets_fail.mpr ⟨fun hg => by simp [hg.ask] at hask, .inr ⟨_, _, rfl⟩⟩
    · rw [hset] at herr
      cases herr

theorem rearmAll_meets {ns : List Nat}
    (h : ∀ n ∈ ns, w.memory.isTracked n = true ∧ n * Page.size + Page.size ≤ Mapping.limit) :
    (rearmAll (ns.map (· * Page.size))).Meets w
      (fun _ w' => ∃ k : Kernel, k.rules = w.kernel.rules ∧
        w' = { w with kernel := k, memory := w.memory.guardAll ns })
      (fun e _ => w.RearmTrouble e) := by
  induction ns generalizing w with
  | nil => exact Act.meets_pure.mpr ⟨w.kernel, rfl, rfl⟩
  | cons n ns ih =>
    obtain ⟨⟨ht, hl⟩, hns⟩ := List.forall_mem_cons.mp h
    simp only [List.map_cons, rearmAll, Act.meets_bind]
    refine (rearmPage_meets ht hl).mono ?_ fun _ _ he => he
    intro _ _ hpost
    obtain ⟨k, hk, rfl⟩ := hpost
    have hnext := ih (w := { w with kernel := k, memory := w.memory.mark n true })
      (by simpa using hns)
    apply hnext.mono
    · intro _ _ hpost
      obtain ⟨k', hk', rfl⟩ := hpost
      exact ⟨k', hk'.trans hk, rfl⟩
    · intro _ _ hpost
      obtain ⟨hno, he⟩ := hpost
      exact ⟨fun hg => hno fun r hr => hg r (hk ▸ hr), he⟩

/-- Every page is guarded and as its baseline, and nothing is captured. -/
structure Pristine (pages : Nat → Prop) (base : Memory) (w : Watch) : Prop where
  rests : Rests pages base w
  empty : w.monitor.snapshot.size = 0

variable {pages : Nat → Prop} {base : Memory}

theorem Pristine.not_mem (h : Pristine pages base w) (a : Nat) :
    a ∉ w.monitor.snapshot.addresses.items := by
  rw [Array.eq_empty_of_size_eq_zero h.empty]
  simp

theorem Pristine.guarded (h : Pristine pages base w) {n : Nat} (hn : pages n) :
    w.memory.isGuarded n = true := (h.rests.baselined.clean n hn (h.not_mem _)).1

theorem Pristine.bytes (h : Pristine pages base w) {n : Nat} (hn : pages n) :
    w.memory.bytes? n = base.bytes? n := (h.rests.baselined.clean n hn (h.not_mem _)).2

/-- The numbers of the captured pages, in the order of capture. -/
def captured (w : Watch) : List Nat :=
  w.monitor.snapshot.addresses.items.toList.map Page.number

theorem mem_captured (hb : Baselined pages base none w.memory w.monitor.snapshot) {n : Nat} :
    n ∈ w.captured ↔ n * Page.size ∈ w.monitor.snapshot.addresses.items := by
  simp only [captured, List.mem_map, Array.mem_toList_iff]
  constructor
  · rintro ⟨a, ha, rfl⟩
    obtain ⟨k, -, rfl⟩ := hb.known a ha
    rwa [Page.number_mul]
  · exact fun h => ⟨_, h, Page.number_mul n⟩

theorem map_captured (hb : Baselined pages base none w.memory w.monitor.snapshot) :
    w.captured.map (· * Page.size) = w.monitor.snapshot.addresses.items.toList := by
  rw [captured, List.map_map]
  refine List.map_congr_left (fun a ha => ?_) |>.trans (List.map_id _)
  obtain ⟨k, -, rfl⟩ := hb.known a (Array.mem_toList_iff.mp ha)
  simp [Page.number_mul]

/-- Guarding what was captured and forgetting it makes any memory that is guarded elsewhere the
memory of a baseline. -/
theorem Rests.forget {base' m : Memory} {k : Kernel} (h : Rests pages base w)
    (hk : k.rules = w.kernel.rules) (ht : ∀ n, m.isTracked n = w.memory.isTracked n)
    (hg : ∀ n, m.isGuarded n = w.memory.isGuarded n)
    (hbytes : ∀ n, pages n → m.bytes? n = base'.bytes? n) :
    Pristine pages base' { w with
      kernel := k, memory := m.guardAll w.captured,
      monitor := { w.monitor with snapshot := w.monitor.snapshot.clear } } := by
  have hb := h.baselined
  refine ⟨h.update hk h.whole.clear ⟨?_, hb.low, ?_, ?_, ?_, ?_, ?_, ?_⟩, Snapshot.size_clear _⟩
  · intro n hn
    rw [Memory.isTracked_guardAll, ht]
    exact hb.tracked n hn
  · simp
  · simp
  · intro n hn _
    rw [Memory.isGuarded_guardAll, Memory.bytes?_guardAll]
    refine ⟨?_, hbytes n hn⟩
    split
    · exact Memory.isMapped_of_isTracked (by rw [ht]; exact hb.tracked n hn)
    · next hout =>
      rw [hg]
      exact (hb.clean n hn fun hin => hout ((mem_captured hb).mpr hin)).1
  · simp
  · simp
  · simp

theorem rearm_forget_meets (hb : Baselined pages base none w.memory w.monitor.snapshot)
    {m : Memory} (ht : ∀ n, m.isTracked n = w.memory.isTracked n) :
    rearm.Meets { w with memory := m }
      (fun _ w' => ∃ k : Kernel, k.rules = w.kernel.rules ∧
        w' = { w with kernel := k, memory := m.guardAll w.captured })
      (fun e _ => w.RearmTrouble e) := by
  simp only [rearm, Act.meets_bind, Act.meets_get, ← map_captured hb]
  refine rearmAll_meets fun n hn => ?_
  obtain ⟨k, hk, e⟩ := hb.known _ ((mem_captured hb).mp hn)
  obtain rfl := Page.mul_inj.mp e
  exact ⟨(ht n).trans (hb.tracked n hk), hb.low n hk⟩

theorem drain_meets (timeout : Duration) : (drain timeout).Meets w
    (fun _ w' => w.monitor.inFlight = 0 ∧ w' = w)
    (fun e w' => w.monitor.inFlight ≠ 0 ∧ w' = w ∧
      e = .error (.failure (.drainTimeout w.monitor.inFlight timeout))) := by
  simp only [drain, Act.meets_bind, Act.meets_get, Act.meets_ite, meets_fail, Act.meets_pure]
  exact ⟨fun h => ⟨h, trivial, trivial⟩, fun h => ⟨not_not.mp h, trivial⟩⟩

/-- Restoring brings every page back to its baseline and guards it, and forgets all captures;
other memory stays as it is. It cannot fail while the script grants every guard. -/
theorem restore_meets (h : Rests pages base w) : (restore true).Meets w
    (fun count w' => count = w.monitor.snapshot.size ∧ Pristine pages base w' ∧
      w'.kernel.rules = w.kernel.rules ∧ w'.monitor.inFlight = w.monitor.inFlight ∧
      ∀ k, ¬pages k → w'.memory.frame? k = w.memory.frame? k)
    (fun e _ => w.RearmTrouble e) := by
  have hb := h.baselined
  have hframe := hb.frame?_replay w.memory
  have hreplay := replay_of_free hb.free
  simp only [restore, Act.meets_bind, if_true, Act.meets_pure]
  refine (Act.meets_of_ok hreplay).mpr ?_
  refine (rearm_forget_meets hb ?_).mono ?_ fun _ _ he => he
  · simp
  · intro _ _ hpost
    obtain ⟨k, hk, rfl⟩ := hpost
    simp only [Watch.forget, Act.meets_modify]
    have hforget := h.forget hk (by simp) (by simp) fun n hn => hb.bytes?_replay hn
    refine ⟨trivial, hforget, hk, trivial, ?_⟩
    intro k hk
    have hout := hb.not_mem_of_not_pages hk
    rw [Memory.frame?_guardAll, if_neg (by rwa [mem_captured hb]), hframe, if_neg hout]

/-- Rebaselining takes the present memory for the baseline, if no fault is in flight. -/
theorem rebaseline_meets (h : Rests pages base w) (timeout : Duration) :
    (rebaseline timeout).Meets w
    (fun count w' => count = w.monitor.snapshot.size ∧ Pristine pages w.memory w' ∧
      w'.kernel.rules = w.kernel.rules ∧ w'.monitor.inFlight = w.monitor.inFlight ∧
      (∀ k, w'.memory.bytes? k = w.memory.bytes? k) ∧
      ∀ k, ¬pages k → w'.memory.frame? k = w.memory.frame? k)
    (fun e w' => w.RearmTrouble e ∨ w.monitor.inFlight ≠ 0 ∧ w' = w ∧
      e = .error (.failure (.drainTimeout w.monitor.inFlight timeout))) := by
  have hb := h.baselined
  simp only [rebaseline, Act.meets_bind, Act.meets_get, Act.meets_pure]
  refine (drain_meets timeout).mono ?_ fun e w' he => .inr he
  intro _ w' hpost
  obtain ⟨-, hw⟩ := hpost
  rw [hw]
  refine (rearm_forget_meets hb (m := w.memory) fun _ => rfl).mono ?_ fun _ _ he => .inl he
  intro _ _ hpost
  obtain ⟨k, hk, rfl⟩ := hpost
  simp only [Watch.forget, Act.meets_modify]
  have hforget := h.forget hk (fun _ => rfl) (fun _ => rfl) fun _ _ => rfl
  refine ⟨trivial, hforget, hk, trivial, by simp, ?_⟩
  intro k hk
  have hout := hb.not_mem_of_not_pages hk
  rw [Memory.frame?_guardAll, if_neg (by rwa [mem_captured hb])]

end Watch

end Rewind
