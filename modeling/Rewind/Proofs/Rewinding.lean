import Rewind.Proofs.Recordings
import Rewind.Proofs.Steady
import Rewind.Proofs.Strays

/-! Writes and replays on a machine where any page may be guarded, captured ones among them. A write
to a guarded page has it captured, a second time if need be; the captures there were stay in place
before those that are added, so that replaying brings each page back to its first capture. -/
namespace Rewind

open Monitor (Point State Thread)

namespace Snapshot

variable {s s' s'' : Snapshot} {page : Nat} {bytes : Array UInt8}

theorem Adds.toList (h : s.Adds page bytes s') (hs : s.Whole) (hb : bytes.size = Page.size) :
    s'.toList = s.toList ++ [(page, bytes)] := by
  have hlength : s.addresses.items.toList.length = s.size := Array.length_toList
  rw [Snapshot.toList, h.addresses, Array.toList_push, List.mapIdx_concat, hlength,
    h.content_size hs hb]
  congr 1
  apply List.ext_getElem
  · simp [Snapshot.toList]
  · intro i hi _
    have hlt : i < s.size := by simpa [hlength] using hi
    simp only [Snapshot.toList, List.getElem_mapIdx, h.content_of_lt hs hlt]

/-- The captures that one snapshot has and another had not are of these pages, each once. -/
def Gains (pages : Nat → Prop) (s s' : Snapshot) : Prop :=
  ∃ (ns : List Nat) (later : List (Nat × Array UInt8)), s'.toList = s.toList ++ later ∧
    later.map Prod.fst = ns.map (· * Page.size) ∧ ns.Nodup ∧ ∀ n, n ∈ ns ↔ pages n

variable {pages pages' : Nat → Prop}

theorem gains_refl (s : Snapshot) (h : ∀ n, ¬pages n) : s.Gains pages s :=
  ⟨[], [], by simp, rfl, List.nodup_nil, fun n => ⟨nofun, fun hn => absurd hn (h n)⟩⟩

theorem Gains.trans (h : s.Gains pages s') (h' : s'.Gains pages' s'')
    (hd : ∀ n, pages n → ¬pages' n) : s.Gains (fun n => pages n ∨ pages' n) s'' := by
  obtain ⟨ns, later, hlist, hfst, hnodup, hns⟩ := h
  obtain ⟨ks, later', hlist', hfst', hnodup', hks⟩ := h'
  refine ⟨ns ++ ks, later ++ later', ?_, ?_, ?_, fun n => ?_⟩
  · rw [hlist', hlist, List.append_assoc]
  · rw [List.map_append, List.map_append, hfst, hfst']
  · refine List.nodup_append'.mpr ⟨hnodup, hnodup', fun n hn hk => ?_⟩
    exact hd n ((hns n).mp hn) ((hks n).mp hk)
  · rw [List.mem_append, hns, hks]

theorem Gains.congr (h : s.Gains pages s') (hp : ∀ n, pages n ↔ pages' n) :
    s.Gains pages' s' := by
  obtain ⟨ns, later, hlist, hfst, hnodup, hns⟩ := h
  exact ⟨ns, later, hlist, hfst, hnodup, fun n => (hns n).trans (hp n)⟩

theorem Gains.isPrefix (h : s.Gains pages s') : s.toList <+: s'.toList := by
  obtain ⟨ns, later, hlist, -⟩ := h
  exact ⟨later, hlist.symm⟩

theorem gains_of_adds {n : Nat} (h : s.Adds (n * Page.size) bytes s') (hs : s.Whole)
    (hb : bytes.size = Page.size) : s.Gains (· = n) s' :=
  ⟨[n], _, h.toList hs hb, rfl, List.nodup_singleton n, fun _ => List.mem_singleton⟩

end Snapshot

/-- Captures of a steady monitor are whole pages. -/
theorem Monitor.Steady.paged {monitor : Monitor} (h : monitor.Steady) {c : Nat × Array UInt8}
    (hc : c ∈ monitor.snapshot.toList) :
    ∃ n, ∃ b : Page.Bytes, c = (n * Page.size, b.toArray) := by
  obtain ⟨i, hi, rfl⟩ := Snapshot.mem_toList hc
  obtain ⟨n, hn⟩ := (h.usable _ (Array.getElem_mem hi)).aligned.exists_mul
  exact ⟨n, ⟨monitor.snapshot.content i, h.whole.size_content hi⟩, by rw [hn]⟩

namespace Memory

variable {m m' : Memory} {k : Nat} {captures : List (Nat × Array UInt8)}

theorem bytes?_foldr_write_congr (h : m.bytes? k = m'.bytes? k)
    (captures : List (Nat × Array UInt8)) :
    (captures.foldr (fun c m => m.write c.1 c.2) m).bytes? k =
      (captures.foldr (fun c m => m.write c.1 c.2) m').bytes? k := by
  induction captures with
  | nil => exact h
  | cons c captures ih => exact bytes?_foldl_writePage_congr ih c.1 c.2 _

/-- Writing whole pages back, the latest first, brings a page back to its first capture. -/
theorem bytes?_foldr_write_of_lookup
    (h : ∀ c ∈ captures, ∃ n, ∃ b : Page.Bytes, c = (n * Page.size, b.toArray))
    (hm : m.isMapped k = true) {b : Page.Bytes}
    (hk : captures.lookup (k * Page.size) = some b.toArray) :
    (captures.foldr (fun c m => m.write c.1 c.2) m).bytes? k = some b := by
  induction captures with
  | nil => cases hk
  | cons c captures ih =>
    obtain ⟨⟨n, b', rfl⟩, hrest⟩ := List.forall_mem_cons.mp h
    rw [List.foldr_cons, bytes?, frame?_write_page]
    rw [List.lookup_cons] at hk
    by_cases hn : k = n
    · subst hn
      simp only [beq_self_eq_true, Option.some.injEq, Vector.toArray_inj] at hk
      have hmapped := Snapshot.isMapped_foldr_write captures m k
      rw [hm] at hmapped
      obtain ⟨f, hf⟩ := Option.isSome_iff_exists.mp hmapped
      rw [if_pos rfl, hf, Option.map_some, Option.map_some, hk]
    · have hne : (k * Page.size == n * Page.size) = false :=
        beq_eq_false_iff_ne.mpr fun e => hn (Page.mul_inj.mp e)
      rw [hne] at hk
      rw [if_neg hn]
      exact ih hrest hk

end Memory

/-- What is guarded is tracked, and in the usable address space. -/
structure Memory.Orderly (m : Memory) : Prop where
  tracked : ∀ n, m.isGuarded n = true → m.isTracked n = true
  usable : ∀ n, m.isGuarded n = true → Page.Usable (n * Page.size)

namespace Watch

variable {w w' w'' : Watch} {m m' : Memory} {ns ks : List Nat}

/-- Writes went to some pages: memory has the bytes of this one, and of the pages those that were
guarded are captured and released. -/
structure Overwrote (ns : List Nat) (m : Memory) (w w' : Watch) : Prop where
  steady : w'.monitor.Steady
  spares : w.kernel.Spares w'.kernel
  bytes : ∀ k, w'.memory.bytes? k = m.bytes? k
  frames : ∀ k, k ∉ ns → w'.memory.frame? k = w.memory.frame? k
  tracked : ∀ k, w'.memory.isTracked k = w.memory.isTracked k
  guarded : ∀ k, w'.memory.isGuarded k = true ↔ w.memory.isGuarded k = true ∧ k ∉ ns
  gains : w.monitor.snapshot.Gains (fun k => w.memory.isGuarded k = true ∧ k ∈ ns)
    w'.monitor.snapshot
  idle : (∀ n ∈ ns, w.memory.isGuarded n = false) → w'.monitor.snapshot = w.monitor.snapshot

theorem overwrote_nil (h : w.monitor.Steady) : Overwrote [] w.memory w w :=
  ⟨h, w.kernel.spares_refl, fun _ => rfl, fun _ _ => rfl, fun _ => rfl, by simp,
    Snapshot.gains_refl _ (by simp), fun _ => rfl⟩

theorem Overwrote.of_bytes (h : Overwrote ns m w w') (hm : ∀ k, m.bytes? k = m'.bytes? k) :
    Overwrote ns m' w w' :=
  ⟨h.steady, h.spares, fun k => (h.bytes k).trans (hm k), h.frames, h.tracked, h.guarded, h.gains,
    h.idle⟩

theorem Overwrote.of_mem (h : Overwrote ns m w w') (hs : ∀ n, n ∈ ns ↔ n ∈ ks) :
    Overwrote ks m w w' := by
  constructor
  · exact h.steady
  · exact h.spares
  · exact h.bytes
  · exact fun k hk => h.frames k fun hmem => hk ((hs k).mp hmem)
  · exact h.tracked
  · intro k
    rw [h.guarded, hs]
  · exact h.gains.congr fun k => by rw [hs]
  · exact fun hfree => h.idle fun n hn => hfree n ((hs n).mp hn)

theorem Overwrote.trans (h : Overwrote ns m w w') (h' : Overwrote ks m' w' w'') :
    Overwrote (ns ++ ks) m' w w'' := by
  constructor
  · exact h'.steady
  · exact h.spares.trans h'.spares
  · exact h'.bytes
  · intro k hk
    rw [List.mem_append, not_or] at hk
    exact (h'.frames k hk.2).trans (h.frames k hk.1)
  · exact fun k => (h'.tracked k).trans (h.tracked k)
  · intro k
    rw [h'.guarded, h.guarded, List.mem_append, not_or, and_assoc]
  · -- A page is captured by the first of the writes that reach it, and is free for the others.
    refine (h.gains.trans h'.gains fun n hn hn' => ?_).congr fun n => ?_
    · exact ((h.guarded n).mp hn'.1).2 hn.2
    · rw [h.guarded, List.mem_append]
      by_cases hn : n ∈ ns <;> simp [hn]
  · intro hfree
    obtain ⟨hn, hk⟩ := List.forall_mem_append.mp hfree
    rw [h'.idle, h.idle hn]
    intro k hmem
    rw [Bool.eq_false_iff, ne_eq, h.guarded, hk k hmem]
    simp

theorem Overwrote.orderly (h : Overwrote ns m w w') (ho : w.memory.Orderly) :
    w'.memory.Orderly := by
  constructor
  · intro n hg
    rw [h.tracked]
    exact ho.tracked n ((h.guarded n).mp hg).1
  · exact fun n hg => ho.usable n ((h.guarded n).mp hg).1

/-- A writer that gets past a page and writes to it. -/
theorem Passes.overwrote {n : Nat} (hp : Passes w n w') (hs : w'.monitor.Steady)
    (hw : w.monitor.Steady) (hk : w.kernel.Spares w'.kernel) (start : Nat) (bytes : Array UInt8) :
    Overwrote [n] (w.memory.writePage start bytes n) w
      { w' with memory := w'.memory.writePage start bytes n } := by
  cases hp with
  | free hg h =>
    subst h
    constructor
    · exact hs
    · exact hk
    · exact fun _ => rfl
    · intro k hne
      rw [Memory.frame?_writePage, if_neg (by simpa using hne)]
    · simp
    · intro k
      rw [Memory.isGuarded_writePage, List.mem_singleton]
      refine ⟨fun hk => ⟨hk, ?_⟩, fun hk => hk.1⟩
      rintro rfl
      exact Bool.false_ne_true (hg.symm.trans hk)
    · refine Snapshot.gains_refl _ ?_
      rintro k ⟨hk, hmem⟩
      rw [List.mem_singleton.mp hmem] at hk
      exact Bool.false_ne_true (hg.symm.trans hk)
    · exact fun _ => rfl
  | served hg hm ha =>
    constructor
    · exact hs
    · exact hk
    · intro k
      exact Memory.bytes?_writePage_congr (by rw [hm, Memory.bytes?_mark]) start bytes n
    · intro k hne
      rw [List.mem_singleton] at hne
      rw [Memory.frame?_writePage, if_neg hne, hm, Memory.frame?_mark, if_neg hne]
    · intro k
      rw [Memory.isTracked_writePage, hm, Memory.isTracked_mark]
    · intro k
      rw [Memory.isGuarded_writePage, hm, Memory.isGuarded_mark, List.mem_singleton]
      by_cases hk : k = n <;> simp [hk]
    · refine (Snapshot.gains_of_adds ha hw.whole (Memory.size_read _ _ _)).congr fun k => ?_
      rw [List.mem_singleton]
      exact ⟨fun e => ⟨e ▸ hg, e⟩, fun hk => hk.2⟩
    · intro hfree
      rw [hfree n (List.mem_singleton_self n)] at hg
      cases hg

theorem writePage_steady_meets (h : w.monitor.Steady) (ho : w.memory.Orderly) {n address : Nat}
    (ha : Page.number address = n) (start : Nat) (bytes : Array UInt8) :
    (claim n address).Meets w
      (fun _ w' => Overwrote [n] (w.memory.writePage start bytes n) w
        { w' with memory := w'.memory.writePage start bytes n })
      (fun e _ => EndsProcess e ∧ w.memory.isGuarded n = true) := by
  refine (claim_steady_meets h (ho.usable n) ha).mono ?_ fun _ _ he => he
  intro _ w' hpost
  obtain ⟨hp, hs, hk⟩ := hpost
  exact hp.overwrote hs h hk start bytes

theorem writePages_steady_meets (h : w.monitor.Steady) (ho : w.memory.Orderly) (start : Nat)
    (bytes : Array UInt8) (hn : ∀ n ∈ ns, Page.number (max start (n * Page.size)) = n) :
    (writePages start bytes ns).Meets w
      (fun _ w' => Overwrote ns (ns.foldl (fun m n => m.writePage start bytes n) w.memory) w w')
      (fun e _ => EndsProcess e ∧ ∃ n ∈ ns, w.memory.isGuarded n = true) := by
  induction ns generalizing w with
  | nil => exact Act.meets_pure.mpr (overwrote_nil h)
  | cons n ns ih =>
    obtain ⟨ha, hns⟩ := List.forall_mem_cons.mp hn
    simp only [writePages, Act.meets_bind, Act.meets_modify]
    refine (writePage_steady_meets h ho ha start bytes).mono ?_
      fun _ _ he => ⟨he.1, n, List.mem_cons_self, he.2⟩
    intro _ w' hfirst
    apply (ih hfirst.steady (hfirst.orderly ho) hns).mono
    · intro _ w'' hrest
      exact (hfirst.trans hrest).of_bytes fun k =>
        Memory.bytes?_foldl_writePage_congr (hfirst.bytes k) start bytes ns
    · rintro e _ ⟨he, k, hk, hg⟩
      exact ⟨he, k, List.mem_cons_of_mem n hk, ((hfirst.guarded k).mp hg).1⟩

theorem write_steady_meets (h : w.monitor.Steady) (ho : w.memory.Orderly) (start : Nat)
    (bytes : Array UInt8) : (write start bytes).Meets w
      (fun _ w' => Overwrote (Page.numbers start bytes.size) (w.memory.write start bytes) w w')
      (fun e _ => EndsProcess e ∧
        ∃ n ∈ Page.numbers start bytes.size, w.memory.isGuarded n = true) :=
  writePages_steady_meets h ho start bytes fun _ hn => Page.number_max_of_mem_numbers hn

theorem writeAll_steady_meets (h : w.monitor.Steady) (ho : w.memory.Orderly)
    (writes : List (Nat × Array UInt8)) : (writeAll writes).Meets w
      (fun _ w' => Overwrote (touched writes) (w.memory.writeAll writes) w w')
      (fun e _ => EndsProcess e) := by
  induction writes generalizing w with
  | nil => exact Act.meets_pure.mpr (overwrote_nil h)
  | cons run writes ih =>
    simp only [writeAll, Act.meets_bind]
    refine (write_steady_meets h ho run.1 run.2).mono ?_ fun _ _ he => he.1
    intro _ w' hfirst
    refine (ih hfirst.steady (hfirst.orderly ho)).mono ?_ fun _ _ he => he
    intro _ w'' hrest
    exact (hfirst.trans hrest).of_bytes fun k =>
      Memory.bytes?_writeAll_congr (hfirst.bytes k) writes

theorem captured_eq (w : Watch) :
    w.captured = w.monitor.snapshot.toList.map fun c => Page.number c.1 := by
  rw [captured, ← Snapshot.map_fst_toList, List.map_map]
  rfl

theorem length_captured (w : Watch) : w.captured.length = w.monitor.snapshot.size := by
  rw [captured_eq, List.length_map, Snapshot.length_toList]

/-- What was captured stays in place before all that is added. -/
theorem Overwrote.take_toList (h : Overwrote ns m w w') {i : Nat}
    (hi : i ≤ w.monitor.snapshot.size) :
    w'.monitor.snapshot.toList.take i = w.monitor.snapshot.toList.take i := by
  obtain ⟨later, hlater⟩ := h.gains.isPrefix
  rw [← hlater, List.take_append_of_le_length (by rwa [Snapshot.length_toList])]

theorem Overwrote.take_captured (h : Overwrote ns m w w') {i : Nat}
    (hi : i ≤ w.monitor.snapshot.size) : w'.captured.take i = w.captured.take i := by
  rw [captured_eq, captured_eq, ← List.map_take, ← List.map_take, h.take_toList hi]

theorem Overwrote.mem_captured (h : Overwrote ns m w w') {n : Nat} :
    n ∈ w'.captured ↔ n ∈ w.captured ∨ w.memory.isGuarded n = true ∧ n ∈ ns := by
  obtain ⟨gained, later, hlist, hfst, -, hgained⟩ := h.gains
  have hnumbers : (later.map fun c => Page.number c.1) = gained := by
    have hmap := congrArg (List.map Page.number) hfst
    simpa [Function.comp_def, Page.number_mul] using hmap
  rw [captured_eq w', hlist, List.map_append, List.mem_append, ← captured_eq, hnumbers, hgained]

theorem Overwrote.size_le (h : Overwrote ns m w w') :
    w.monitor.snapshot.size ≤ w'.monitor.snapshot.size := by
  rw [← Snapshot.length_toList, ← Snapshot.length_toList]
  exact h.gains.isPrefix.length_le

/-- At each position there is the capture of a page. -/
theorem exists_capture (h : w.monitor.Steady) {i : Nat} (hi : i < w.monitor.snapshot.size) :
    ∃ n, ∃ b : Page.Bytes, ∃ hlt : i < w.monitor.snapshot.toList.length,
      w.monitor.snapshot.toList[i] = (n * Page.size, b.toArray) ∧
        w.captured.take (i + 1) = w.captured.take i ++ [n] := by
  have hlt : i < w.monitor.snapshot.toList.length := by rwa [Snapshot.length_toList]
  obtain ⟨n, b, hc⟩ := h.paged (List.getElem_mem hlt)
  refine ⟨n, b, hlt, hc, ?_⟩
  rw [captured_eq, ← List.map_take, ← List.map_take, List.take_succ_eq_append_getElem hlt, hc,
    List.map_append, List.map_singleton, Page.number_mul]

theorem write_page_steady_meets (h : w.monitor.Steady) (ho : w.memory.Orderly) (n : Nat)
    (b : Page.Bytes) : (write (n * Page.size) b.toArray).Meets w
      (fun _ w' => Overwrote [n] (w.memory.write (n * Page.size) b.toArray) w w')
      (fun e _ => EndsProcess e ∧ w.memory.isGuarded n = true) := by
  have hland := write_steady_meets h ho (n * Page.size) b.toArray
  rw [b.size_toArray, Page.numbers_page] at hland
  simpa using hland

/-- Replaying writes page after page, the latest capture first. A page that is guarded is captured
on the way, and if the bytes move to make room for that, the process ends. -/
theorem replayBelow_steady_meets {i : Nat} (h : w.monitor.Steady) (ho : w.memory.Orderly)
    (hi : i ≤ w.monitor.snapshot.size) : (replayBelow i).Meets w
      (fun _ w' => Overwrote (w.captured.take i) ((w.monitor.snapshot.toList.take i).foldr
          (fun c m => m.write c.1 c.2) w.memory) w w' ∧
        w'.monitor.snapshot.data.capacity = w.monitor.snapshot.data.capacity)
      (fun e _ => EndsProcess e ∧ ∃ n ∈ w.captured.take i, w.memory.isGuarded n = true) := by
  induction i generalizing w with
  | zero => exact Act.meets_pure.mpr ⟨overwrote_nil h, rfl⟩
  | succ i ih =>
    obtain ⟨n, b, hlt, hc, hcaptured⟩ := exists_capture h hi
    obtain ⟨ha, hcontent⟩ := Snapshot.get_of_getElem_toList hc
    simp only [replayBelow, Act.meets_bind, Act.meets_get, ha, hcontent, Act.meets_faulty]
    refine ⟨?_, by simp⟩
    rintro _ ⟨⟩
    apply (write_page_steady_meets h ho n b).mono
    · intro _ w₁ hfirst
      have hle : i ≤ w.monitor.snapshot.size := Nat.le_of_succ_le hi
      have hrest := ih hfirst.steady (hfirst.orderly ho) (hle.trans hfirst.size_le)
      rw [hfirst.take_toList hle, hfirst.take_captured hle] at hrest
      simp only [ne_eq, Act.meets_ite, Act.meets_bind, meets_halt]
      refine ⟨fun hmoved => ⟨(halts _).endsProcess, n, by simp [hcaptured], ?_⟩, fun hkept => ?_⟩
      · by_contra hfree
        apply hmoved
        rw [hfirst.idle (by simpa using hfree)]
      · rw [not_not] at hkept
        apply hrest.mono
        · intro _ w' hpost
          obtain ⟨hrest, hcapacity⟩ := hpost
          refine ⟨?_, hcapacity.trans hkept⟩
          refine ((hfirst.trans hrest).of_bytes fun k => ?_).of_mem fun k => ?_
          · rw [List.take_succ_eq_append_getElem hlt, hc, List.foldr_append]
            exact Memory.bytes?_foldr_write_congr (hfirst.bytes k) _
          · rw [hcaptured, List.mem_append, List.mem_append, or_comm]
        · rintro e _ ⟨he, k, hk, hg⟩
          rw [hcaptured]
          exact ⟨he, k, List.mem_append_left _ hk, ((hfirst.guarded k).mp hg).1⟩
    · rintro e _ ⟨hends, hg⟩
      rw [hcaptured]
      exact ⟨hends, n, List.mem_append_right _ (List.mem_singleton_self n), hg⟩

end Watch

end Rewind
