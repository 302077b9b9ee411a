import Rewind.Proofs.Usage

/-! Recovery from a kernel that refuses to guard captured pages again. Nothing is lost of the memory
or of the captures, however often that happens. But the pages before the refused one are guarded
again while their captures are kept, and writing these back is a write to a guarded page: it adds a
capture, and where that moves the bytes of the captures, the process ends. -/
namespace Rewind

theorem Enlisted.orderly {m₀ m : Memory} {slots : List Slot} (h : Enlisted m₀ slots slots m)
    (ho : m₀.Orderly) : m.Orderly := by
  constructor
  · intro n hg
    rw [h.isGuarded, Bool.or_eq_true] at hg
    rw [h.isTracked, Bool.or_eq_true]
    exact hg.imp_left (ho.tracked n)
  · intro n hg
    rw [h.isGuarded, Bool.or_eq_true, Bool.and_eq_true, decide_eq_true_eq] at hg
    rcases hg with hold | ⟨-, slot, hslot, hn⟩
    · exact ho.usable n hold
    · exact ⟨Page.isAligned_mul n, (h.trackable slot hslot).low hn⟩

namespace Watch

variable {w w' w₁ : Watch}

/-- Restoring was refused. All captured pages that are still mapped are as they were at their first
capture, those before the refused one are guarded, and the captures there were are in place. -/
structure Reverted (w : Watch) (i : Nat) (w' : Watch) : Prop where
  captures : w.monitor.snapshot.toList <+: w'.monitor.snapshot.toList
  read : ∀ page bytes, w.monitor.snapshot.get? page = some bytes →
    w.memory.isMapped (Page.number page) = true → w'.memory.read page Page.size = bytes
  guarded : ∀ n ∈ w.captured, w'.memory.isGuarded n = true ↔ n ∈ w'.captured.take i
  elsewhere : ∀ k, k ∉ w.captured → w'.memory.frame? k = w.memory.frame? k

theorem Rewound.reverted {i page : Nat} {errno : Errno} (h : Rewound w w₁) (hs : w.monitor.Steady)
    (hr : Refused w₁ i page errno w') : Reverted w i w' := by
  have hcaptured : w'.captured = w₁.captured := by rw [captured, captured, hr.monitor]
  constructor
  · rw [hr.monitor]
    exact h.overwrote.gains.isPrefix
  · intro page bytes hget hm
    rw [← h.read hs hget hm]
    simp only [Memory.read_eq, Memory.byte_eq, hr.guarded.bytes]
  · intro n hn
    rw [hr.guarded.guarded, h.overwrote.guarded, hcaptured]
    exact ⟨fun hg => hg.resolve_left fun hold => hold.2 hn, .inr⟩
  · intro k hk
    rw [hr.guarded.frames, h.overwrote.frames k hk]
    intro hmem
    rcases h.overwrote.mem_captured.mp (List.mem_of_mem_take hmem) with hold | ⟨-, hnew⟩
    · exact hk hold
    · exact hk hnew

/-- How a monitor recovers on a machine. -/
structure Recovers (w : Watch) : Prop where
  /-- Where no captured page is guarded, replaying just writes the captures back. -/
  replays : (∀ n ∈ w.captured, w.memory.isGuarded n = false) → replay.on w =
    (.ok w.monitor.snapshot.size, { w with memory := w.monitor.snapshot.replay w.memory })
  /-- Where some are, a thread that can serve the faults does so if and only if there is room. -/
  room : w.Ready → replay.Meets w (fun _ w₁ => w.HasRoom ∧ w₁.Ready)
    (fun e _ => EndsProcess e ∧ ¬w.HasRoom)
  restores : w.kernel.Prompt → ∀ count w₁, replay.on w = (.ok count, w₁) →
    (restore true).Meets w
      (fun restored w' => restored = count ∧ w.GuardsAll w₁.addresses ∧ Recovered w w')
      (fun e w' => ∃ i page errno, e = .error (.failure (.rearm page errno)) ∧
        w.FirstRefused w₁.addresses i page errno ∧ w'.addresses = w₁.addresses ∧ Reverted w i w')
  rebaselines : w.kernel.Prompt → w.monitor.inFlight = 0 → ∀ timeout,
    (rebaseline timeout).Meets w
      (fun count w' => count = w.monitor.snapshot.size ∧ w.GuardsAll w.addresses ∧
        Guarded w.captured w w' ∧ w'.monitor.snapshot.size = 0)
      (fun e w' => ∃ i page errno, e = .error (.failure (.rearm page errno)) ∧
        w.FirstRefused w.addresses i page errno ∧ Guarded (w.captured.take i) w w' ∧
        w'.monitor = w.monitor)
  recovers : ∀ w', Meanwhile w w' →
    (restore true).Meets w' (fun _ w₂ => Recovered w w₂) fun _ _ => True

theorem free_of_captured (hs : w.monitor.Steady)
    (hfree : ∀ n ∈ w.captured, w.memory.isGuarded n = false) :
    w.monitor.snapshot.Free w.memory := by
  intro c hc n hn
  obtain ⟨k, b, rfl⟩ := hs.paged hc
  rw [b.size_toArray, Page.numbers_page, List.mem_singleton] at hn
  subst hn
  apply hfree
  rw [captured_eq, List.mem_map]
  exact ⟨_, hc, Page.number_mul n⟩

theorem restore_of_replay_meets (hs : w.monitor.Steady) (ho : w.memory.Orderly)
    (hp : w.kernel.Prompt) {count : Nat} (hreplay : replay.on w = (.ok count, w₁)) :
    (restore true).Meets w
      (fun restored w' => restored = count ∧ w.GuardsAll w₁.addresses ∧ Recovered w w')
      (fun e w' => ∃ i page errno, e = .error (.failure (.rearm page errno)) ∧
        w.FirstRefused w₁.addresses i page errno ∧ w'.addresses = w₁.addresses ∧
        Reverted w i w') := by
  obtain ⟨rfl, hrewound⟩ := (replay_steady_meets hs ho).ok hreplay
  have hover := hrewound.overwrote
  have hkeeps : Keeps w w := ⟨hs, ho, List.prefix_rfl⟩
  have hrearm := rearm_forget_steady_meets hover.steady
  have hprompt : w₁.kernel.Prompt := hp.of_rules hover.spares.rules
  rw [Act.meets_bind] at hrearm
  simp only [restore, Act.meets_bind, if_true, Act.meets_pure]
  refine (Act.meets_of_ok hreplay).mpr (hrearm.mono ?_ ?_)
  · intro _ w₂ hforget
    simp only [forget, Act.meets_modify] at hforget ⊢
    exact ⟨trivial, (Machine.guardsAll_congr hover.spares hover.tracked).mp hforget.all,
      hkeeps.recovered hrewound hforget⟩
  · rintro e w' (⟨i, page, errno, hrefused, rfl⟩ | ⟨hlate, -⟩)
    · exact ⟨i, page, errno, rfl, hrefused.first.congr hover.spares hover.tracked,
        by rw [addresses, addresses, hrefused.monitor], hrewound.reverted hs hrefused⟩
    · exact absurd hprompt hlate

theorem recovers_of_used (hu : Used w.monitor) (ho : w.memory.Orderly) : Recovers w := by
  have hs := hu.steady
  constructor
  · exact fun hfree => replay_of_free (free_of_captured hs hfree)
  · intro hready
    by_cases hroom : w.HasRoom
    · exact (replay_ready_meets hs ho hready hroom).mono (fun _ _ hw => ⟨hroom, hw⟩)
        fun _ _ he => he.elim
    · exact (replay_steady_meets hs ho).mono (fun _ _ hw => absurd hw.2.hasRoom hroom)
        fun _ _ he => ⟨he.1, hroom⟩
  · exact fun hp count w₁ => restore_of_replay_meets hs ho hp
  · intro hp hzero timeout
    apply (rebaseline_steady_meets hs timeout).mono
    · rintro _ w' ⟨rfl, hrearmed⟩
      exact ⟨rfl, hrearmed.all, hrearmed.guarded, by rw [hrearmed.monitor, Snapshot.size_clear]⟩
    · rintro e w' (⟨i, page, errno, hrefused, rfl⟩ | ⟨hbusy, -⟩ | ⟨hlate, -⟩)
      · exact ⟨i, page, errno, rfl, hrefused.first, hrefused.guarded, hrefused.monitor⟩
      · exact absurd hzero hbusy
      · exact absurd hp hlate
  · exact fun w' hmeanwhile => recovered_meets hs ho hmeanwhile

theorem orderly_twoPages : twoPages.Orderly := by
  have hnone (n : Nat) : twoPages.isGuarded n = false := by
    by_cases hn : twoPages.isMapped n = true
    · have hmem := isMapped_twoPages hn
      simp only [List.mem_cons, List.not_mem_nil, or_false] at hmem
      rcases hmem with rfl | rfl <;> decide +kernel
    · cases hf : twoPages.frame? n <;> simp_all [Memory.isMapped, Memory.isGuarded_eq]
  constructor <;> simp [hnone]

/-- After a write across their boundary two pages are captured, and not guarded. -/
theorem captured_justBuilt : ∃ w₁ w₂ a b, (arm twoRegions .zero).on justBuilt = (.ok (), w₁) ∧
    (write 8191 #[1, 2]).on w₁ = (.ok (), w₂) ∧ Used w₂.monitor ∧ w₂.memory.Orderly ∧
    w₂.addresses = [a, b] ∧ ∀ n ∈ w₂.captured,
      w₂.memory.isGuarded n = false ∧ w₂.memory.isTracked n = true := by
  obtain ⟨w₁, w₂, harm, -, hpages, hw⟩ := write_justBuilt
  obtain ⟨m, hnew⟩ := new_justBuilt
  have harmed := (arm_meets built_justBuilt.unspent _ _).ok harm
  have hempty := harmed.pristine.empty
  have hu₁ : Used w₁.monitor :=
    .deed (.arm twoRegions .zero) (.new hnew) orderly_twoPages harm nofun
  have ho₁ : w₁.memory.Orderly := harmed.enlisted.orderly orderly_twoPages
  have hwrites : (writeAll [(8191, #[1, 2])]).on w₁ = (.ok (), w₂) := by
    show (write 8191 #[1, 2] >>= fun _ => writeAll []).on w₁ = _
    rw [Act.on_bind, hw]
    rfl
  have hover := (write_steady_meets hu₁.steady ho₁ 8191 #[1, 2]).ok hw
  have hnumbers : Page.numbers 8191 2 = [1, 2] := by decide
  rw [show (#[1, 2] : Array UInt8).size = 2 from rfl, hnumbers] at hover
  rw [hnumbers] at hpages
  have hguarded (n : Nat) (hn : n ∈ [1, 2]) : w₁.memory.isGuarded n = true :=
    harmed.pristine.guarded (hpages n hn)
  have hcount : w₁.guardedAmong [1, 2] = {1, 2} := by
    rw [guardedAmong, Finset.filter_true_of_mem fun n hn => hguarded n (List.mem_toFinset.mp hn)]
    rfl
  have hlength : w₂.addresses.length = 2 := by
    rw [addresses, Array.length_toList]
    show w₂.monitor.snapshot.size = 2
    rw [hover.size, hempty, hcount]
    rfl
  obtain ⟨a, b, hab⟩ := List.length_eq_two.mp hlength
  refine ⟨w₁, w₂, a, b, harm, hw, .deed (.write [(8191, #[1, 2])]) hu₁ ho₁ hwrites nofun,
    hover.orderly ho₁, hab, fun n hn => ?_⟩
  have hmem : n ∈ [1, 2] := by
    rcases hover.mem_captured.mp hn with hold | ⟨-, hnew⟩
    · rw [captured, Array.eq_empty_of_size_eq_zero hempty] at hold
      cases hold
    · exact hnew
  refine ⟨?_, (hover.tracked n).trans (ho₁.tracked n (hguarded n hmem))⟩
  rw [Bool.eq_false_iff, ne_eq, hover.guarded]
  exact fun hg => hg.2 hmem

/-- A kernel that refuses the second page that it is asked to guard. -/
def refusingSecond : Kernel := .scripted [⟨.protect, some [2], .refuse .busy⟩]

/-- Two pages were written to, and the second of them cannot be guarded again. -/
theorem recovers_of_used_refused : ∃ w₁ w₂ page w',
    (arm twoRegions .zero).on justBuilt = (.ok (), w₁) ∧
    (write 8191 #[1, 2]).on w₁ = (.ok (), w₂) ∧
    Recovers { w₂ with kernel := refusingSecond } ∧
    (restore true).on { w₂ with kernel := refusingSecond } =
      (.error (.error (.failure (.rearm page .busy))), w') ∧
    Reverted { w₂ with kernel := refusingSecond } 1 w' := by
  obtain ⟨w₁, w₂, a, b, harm, hw, hu, ho, hab, hcaptured⟩ := captured_justBuilt
  have hrecovers := recovers_of_used (w := { w₂ with kernel := refusingSecond }) hu ho
  have hreplay := hrecovers.replays fun n hn => (hcaptured n hn).1
  have hprompt : refusingSecond.Prompt := by
    intro rule hrule
    obtain rfl := List.mem_singleton.mp hrule
    decide
  have hlet : refusingSecond.answerAfter .protect 0 = none := by decide +kernel
  have hrefuse : refusingSecond.answerAfter .protect 1 = some (.refuse .busy) := by decide +kernel
  have hfirst : Machine.FirstRefused { w₂.toMachine with kernel := refusingSecond } w₂.addresses 1
      b .busy := by
    rw [hab]
    refine ⟨rfl, by simp [Machine.refusal?, hrefuse], fun i page hi => ?_⟩
    obtain ⟨hlt, hpage⟩ := List.getElem?_eq_some_iff.mp hi
    obtain rfl : i = 0 := by simpa using hlt
    obtain rfl : a = page := hpage
    have hmem : Page.number a ∈ w₂.captured := by
      rw [← map_number_addresses, hab]
      exact List.mem_cons_self
    simp [Machine.refusal?, hlet, (hcaptured _ hmem).2]
  have hmeets := hrecovers.restores hprompt _ _ hreplay
  generalize hon : (restore true).on { w₂ with kernel := refusingSecond } = result
  obtain ⟨r, w'⟩ := result
  cases r with
  | ok count => exact absurd (hmeets.ok hon).2.1 hfirst.not_guardsAll
  | error e =>
    obtain ⟨i, page, errno, rfl, hrefused, -, hreverted⟩ := hmeets.error hon
    obtain ⟨rfl, rfl, rfl⟩ := hfirst.unique hrefused
    exact ⟨w₁, w₂, b, w', harm, hw, hrecovers, hon, hreverted⟩

end Watch

end Rewind
