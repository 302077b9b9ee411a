import Rewind.Proofs.Calm
import Rewind.Proofs.Replay

/-! Writes that go anywhere. Where no page is guarded but the attended ones, a write comes back
wherever it goes: it leaves the bytes that a plain write leaves, and the attended pages that it
reached are captured. -/
namespace Rewind

open Monitor (Point State Thread)

namespace Memory

variable {m m' : Memory} {start k : Nat} {bytes : Array UInt8}

/-- Write runs of bytes one after another. -/
def writeAll (m : Memory) (writes : List (Nat × Array UInt8)) : Memory :=
  writes.foldl (fun m run => m.write run.1 run.2) m

theorem writeAll_append (m : Memory) (writes writes' : List (Nat × Array UInt8)) :
    m.writeAll (writes ++ writes') = (m.writeAll writes).writeAll writes' := List.foldl_append

@[simp] theorem isMapped_writePage (m : Memory) (start : Nat) (bytes : Array UInt8) (n k : Nat) :
    (m.writePage start bytes n).isMapped k = m.isMapped k := by
  rw [isMapped, frame?_writePage]
  by_cases h : k = n
  · subst h
    simp [isMapped]
  · simp [isMapped, h]

/-- What a write leaves on a page depends on what was on that page only. -/
theorem bytes?_writePage_congr (h : m.bytes? k = m'.bytes? k) (start : Nat)
    (bytes : Array UInt8) (n : Nat) :
    (m.writePage start bytes n).bytes? k = (m'.writePage start bytes n).bytes? k := by
  by_cases hk : k = n
  · subst hk
    rw [bytes?, bytes?] at h
    rw [bytes?, bytes?, frame?_writePage, frame?_writePage, if_pos rfl, if_pos rfl]
    cases hf : m.frame? k with
    | none =>
      rw [hf] at h
      rw [Option.map_eq_none_iff.mp h.symm]
    | some f =>
      rw [hf] at h
      obtain ⟨f', hf', hbytes⟩ := Option.map_eq_some_iff.mp h.symm
      rw [hf']
      simp only [Option.map_some, Frame.overlay, hbytes]
  · rw [bytes?_writePage_of_ne hk, bytes?_writePage_of_ne hk, h]

theorem bytes?_foldl_writePage_congr (h : m.bytes? k = m'.bytes? k) (start : Nat)
    (bytes : Array UInt8) (ns : List Nat) :
    (ns.foldl (fun m n => m.writePage start bytes n) m).bytes? k =
      (ns.foldl (fun m n => m.writePage start bytes n) m').bytes? k := by
  induction ns generalizing m m' with
  | nil => exact h
  | cons n ns ih => exact ih (bytes?_writePage_congr h start bytes n)

theorem bytes?_writeAll_congr (h : m.bytes? k = m'.bytes? k)
    (writes : List (Nat × Array UInt8)) : (m.writeAll writes).bytes? k =
      (m'.writeAll writes).bytes? k := by
  induction writes generalizing m m' with
  | nil => exact h
  | cons run writes ih => exact ih (bytes?_foldl_writePage_congr h run.1 run.2 _)

/-- Pages of the same bytes cannot be told apart, and pages with the same bytes have those. -/
theorem bytes?_eq_of_byte (h : m.isMapped k = true) (h' : m'.isMapped k = true)
    (hb : ∀ x, m'.byte x = m.byte x) : m'.bytes? k = m.bytes? k := by
  obtain ⟨b, hm⟩ := exists_bytes?_of_isMapped h
  obtain ⟨b', hm'⟩ := exists_bytes?_of_isMapped h'
  have hget (i : Fin Page.size) : b'.get i = b.get i := by
    have hx := hb (k * Page.size + i)
    simpa [byte_mul_add, hm, hm'] using hx
  rw [hm, hm', Option.some_inj]
  exact Vector.ext fun i hi => hget ⟨i, hi⟩

end Memory

namespace Watch

variable {pages : Nat → Prop} {base m : Memory} {w w' w'' : Watch} {ns ks : List Nat}

/-- No page but these is guarded. -/
def Open (pages : Nat → Prop) (w : Watch) : Prop :=
  ∀ n, ¬pages n → w.memory.isGuarded n = false

/-- What writes to some pages came to: the memory has the bytes of this one, and the attended pages
among those that were reached are captured. -/
structure Reached (pages : Nat → Prop) (base : Memory) (ns : List Nat) (m : Memory)
    (w w' : Watch) : Prop where
  rests : Rests pages base w'
  opened : Open pages w'
  confined : Confined ns w w'
  captured : ∀ n ∈ ns, pages n → n * Page.size ∈ w'.monitor.snapshot.addresses.items
  bytes : ∀ k, w'.memory.bytes? k = m.bytes? k
  quiet : Quiet pages w → Quiet pages w'

theorem reached_nil (h : Rests pages base w) (ho : Open pages w) :
    Reached pages base [] w.memory w w :=
  ⟨h, ho, confined_of_eq rfl rfl rfl, by simp, fun _ => rfl, id⟩

theorem Reached.trans (h : Reached pages base ns m w w')
    {m' : Memory} (h' : Reached pages base ks m' w' w'') :
    Reached pages base (ns ++ ks) m' w w'' := by
  constructor
  · exact h'.rests
  · exact h'.opened
  · exact h.confined.trans h'.confined
  · intro n hn hp
    rcases List.mem_append.mp hn with hn | hn
    · exact h'.confined.captures _ (h.captured n hn hp)
    · exact h'.captured n hn hp
  · exact h'.bytes
  · exact fun hq => h'.quiet (h.quiet hq)

theorem Reached.of_bytes (h : Reached pages base ns m w w') {m' : Memory}
    (hm : ∀ k, m.bytes? k = m'.bytes? k) : Reached pages base ns m' w w' :=
  ⟨h.rests, h.opened, h.confined, h.captured, fun k => (h.bytes k).trans (hm k), h.quiet⟩

/-- A writer gets its page, be it attended or not. -/
theorem claim_open_meets (h : Rests pages base w) (ho : Open pages w) {n address : Nat}
    (ha : Page.number address = n) :
    (claim n address).Meets w
      (fun _ w' => Rests pages base w' ∧ Open pages w' ∧ Confined [n] w w' ∧
        w'.memory.isGuarded n = false ∧ (∀ k, w'.memory.bytes? k = w.memory.bytes? k) ∧
        (Quiet pages w → Quiet pages w'))
      (fun e _ => EndsProcess e ∧ ¬Quiet pages w) := by
  by_cases hn : pages n
  · have hclaim : (claim n address).Meets w
        (fun _ w' => Rests pages base w' ∧ Confined [n] w w' ∧ w'.memory.isGuarded n = false ∧
          (∀ x, w'.memory.byte x = w.memory.byte x) ∧ (Quiet pages w → w'.monitor.inFlight = 0))
        (fun e _ => EndsProcess e ∧ ¬Quiet pages w) := by
      by_cases hq : Quiet pages w
      · refine ((claim_meets h hn ha).and (claim_calm_meets h hn ha hq.calm hq.roomy)).mono ?_
          fun _ _ he => he.2.elim
        intro _ w' hpost
        obtain ⟨⟨hw', hc, hfree, hbytes⟩, hquiet⟩ := hpost
        exact ⟨hw', hc, hfree, hbytes, fun _ => hquiet hq.inFlight⟩
      · refine (claim_meets h hn ha).mono ?_ fun _ _ he => ⟨he, hq⟩
        intro _ w' hpost
        obtain ⟨hw', hc, hfree, hbytes⟩ := hpost
        exact ⟨hw', hc, hfree, hbytes, fun hq' => absurd hq' hq⟩
    refine hclaim.mono ?_ fun _ _ he => he
    intro _ w' hpost
    obtain ⟨hw', hc, hfree, hbytes, hquiet⟩ := hpost
    refine ⟨hw', ?_, hc, hfree, ?_, fun hq => ⟨hq.calm.of_rules hc.rules, hq.roomy, hquiet hq⟩⟩
    · intro k hk
      have hne : k ∉ [n] := by
        rintro hmem
        exact hk (List.mem_singleton.mp hmem ▸ hn)
      rw [Memory.isGuarded_eq, hc.frames k hne, ← Memory.isGuarded_eq]
      exact ho k hk
    · intro k
      by_cases hk : k = n
      · subst hk
        exact Memory.bytes?_eq_of_byte
          (Memory.isMapped_of_isTracked (h.baselined.tracked k hn))
          (Memory.isMapped_of_isTracked (hw'.baselined.tracked k hn)) hbytes
      · rw [Memory.bytes?, hc.frames k (by simpa using hk), ← Memory.bytes?]
  · have hfree := ho n hn
    simp only [claim, Act.meets_bind, Act.meets_get, Act.meets_ite, Act.meets_pure, hfree]
    exact ⟨by simp, fun _ =>
      ⟨h, ho, confined_of_eq rfl rfl rfl, trivial, fun _ => trivial, id⟩⟩

theorem writePage_open_meets (h : Rests pages base w) (ho : Open pages w) {n address : Nat}
    (ha : Page.number address = n) (start : Nat) (bytes : Array UInt8) :
    (claim n address).Meets w
      (fun _ w' => Reached pages base [n] (w.memory.writePage start bytes n) w
        { w' with memory := w'.memory.writePage start bytes n })
      (fun e _ => EndsProcess e ∧ ¬Quiet pages w) := by
  refine (claim_open_meets h ho ha).mono ?_ fun _ _ he => he
  intro _ w' hpost
  obtain ⟨hw', ho', hc, hfree, hbytes, hquiet⟩ := hpost
  constructor
  · exact hw'.update rfl hw'.whole (hw'.baselined.writePage hfree start bytes)
  · intro k hk
    rw [Memory.isGuarded_writePage]
    exact ho' k hk
  · refine ⟨hc.rules, fun k hk => ?_, hc.captures, hc.captured⟩
    rw [Memory.frame?_writePage, if_neg (by simpa using hk)]
    exact hc.frames k hk
  · intro k hk hp
    obtain rfl := List.mem_singleton.mp hk
    exact hw'.baselined.mem_of_not_guarded hp hfree
  · exact fun k => Memory.bytes?_writePage_congr (hbytes k) start bytes n
  · exact fun hq => (hquiet hq).of_eq rfl rfl

theorem writePages_open_meets (h : Rests pages base w) (ho : Open pages w) (start : Nat)
    (bytes : Array UInt8) {ns : List Nat}
    (hn : ∀ n ∈ ns, Page.number (max start (n * Page.size)) = n) :
    (writePages start bytes ns).Meets w
      (fun _ w' => Reached pages base ns
        (ns.foldl (fun m n => m.writePage start bytes n) w.memory) w w')
      (fun e _ => EndsProcess e ∧ ¬Quiet pages w) := by
  induction ns generalizing w with
  | nil => exact Act.meets_pure.mpr (reached_nil h ho)
  | cons n ns ih =>
    obtain ⟨ha, hns⟩ := List.forall_mem_cons.mp hn
    simp only [writePages, Act.meets_bind, Act.meets_modify]
    refine (writePage_open_meets h ho ha start bytes).mono ?_ fun _ _ he => he
    intro _ w' hfirst
    apply (ih hfirst.rests hfirst.opened hns).mono
    · intro _ w'' hrest
      exact (hfirst.trans hrest).of_bytes fun k =>
        Memory.bytes?_foldl_writePage_congr (hfirst.bytes k) start bytes ns
    · exact fun _ _ he => ⟨he.1, fun hq => he.2 (hfirst.quiet hq)⟩

/-- Writes come back wherever they go, and reach memory as plain writes do. -/
theorem writeAll_open_meets (h : Rests pages base w) (ho : Open pages w)
    (writes : List (Nat × Array UInt8)) :
    (writeAll writes).Meets w
      (fun _ w' => Reached pages base (touched writes) (w.memory.writeAll writes) w w')
      (fun e _ => EndsProcess e ∧ ¬Quiet pages w) := by
  induction writes generalizing w with
  | nil => exact Act.meets_pure.mpr (reached_nil h ho)
  | cons run writes ih =>
    simp only [writeAll, write, Act.meets_bind]
    refine (writePages_open_meets h ho run.1 run.2 fun n hn =>
      Page.number_max_of_mem_numbers hn).mono ?_ fun _ _ he => he
    intro _ w' hfirst
    apply (ih hfirst.rests hfirst.opened).mono
    · intro _ w'' hrest
      exact (hfirst.trans hrest).of_bytes fun k =>
        Memory.bytes?_writeAll_congr (hfirst.bytes k) writes
    · exact fun _ _ he => ⟨he.1, fun hq => he.2 (hfirst.quiet hq)⟩

end Watch

end Rewind
