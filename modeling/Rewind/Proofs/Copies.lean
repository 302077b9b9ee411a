import Rewind.Proofs.Conversion

/-! The copies that normalizing makes. They go word by word, so that they use nothing but loads and
stores; whatever lies under them, a copy over whole words is the copy of all bytes at once. What is
proved of an entry goes through these copies, as `copyOut_eq_words` and `copyBack_meets_words` give
them. -/
namespace Rewind

namespace Memory

variable {m : Memory}

/-- All of a page but its bytes. -/
def marks? (m : Memory) (n : Nat) : Option (Access × Source × Bool × Bool) :=
  (m.frame? n).map fun f => (f.access, f.source, f.tracked, f.guarded)

theorem marks?_write (m : Memory) (start : Nat) (bytes : Array UInt8) (k : Nat) :
    (m.write start bytes).marks? k = m.marks? k := by
  unfold write
  induction Page.numbers start bytes.size generalizing m with
  | nil => rfl
  | cons n ns ih =>
    rw [List.foldl_cons, ih, marks?, frame?_writePage]
    split
    · next hk =>
      subst hk
      simp only [Option.map_map, Function.comp_def, Frame.overlay, marks?]
    · rfl

/-- A page is its bytes and its marks. -/
theorem frame?_eq {k : Nat} {o : Option Frame} (hb : m.bytes? k = o.map (·.bytes))
    (hm : m.marks? k = o.map fun f => (f.access, f.source, f.tracked, f.guarded)) :
    m.frame? k = o := by
  rw [bytes?] at hb
  rw [marks?] at hm
  cases hf : m.frame? k with
  | none =>
    rw [hf] at hb
    exact (Option.map_eq_none_iff.mp hb.symm).symm
  | some f =>
    rw [hf] at hb hm
    obtain ⟨f', rfl, hbytes⟩ := Option.map_eq_some_iff.mp hb.symm
    obtain ⟨bytes, access, source, tracked, guarded⟩ := f
    simp only [Option.map_some, Option.some.injEq, Prod.mk.injEq] at hm hbytes
    obtain ⟨rfl, rfl, rfl, rfl⟩ := hm
    rw [← hbytes]

/-- So many words of memory, put one behind the other. -/
def readWords (m : Memory) (start : Nat) : (count : Nat) → Array UInt8
  | 0 => #[]
  | count + 1 => m.readWords start count ++ m.read (start + 8 * count) 8

/-- So many words of a run of bytes, written one after the other. -/
def writeWords (m : Memory) (start : Nat) (bytes : Array UInt8) : (count : Nat) → Memory
  | 0 => m
  | count + 1 => (m.writeWords start bytes count).write (start + 8 * count)
      (bytes.extract (8 * count) (8 * count + 8))

/-- A copy that goes word by word has all the bytes. -/
theorem readWords_eq (m : Memory) (start count : Nat) :
    m.readWords start count = m.read start (8 * count) := by
  induction count with
  | zero => simp [readWords, read_eq]
  | succ count ih =>
    rw [readWords, ih]
    simp only [read_eq]
    apply Array.ext
    · simp only [Array.size_append, Array.size_ofFn]
      omega
    · intro i _ _
      simp only [Array.getElem_append, Array.size_ofFn, Array.getElem_ofFn]
      split
      · rfl
      · congr 1
        omega

theorem byte_write_ite {start : Nat} {bytes : Array UInt8}
    (h : ∀ n ∈ Page.numbers start bytes.size, m.isMapped n = true) (x : Nat) :
    (m.write start bytes).byte x =
      if start ≤ x ∧ x < start + bytes.size then bytes.getD (x - start) 0 else m.byte x := by
  rw [byte_write h, landed]
  by_cases hx : start ≤ x
  · by_cases hlt : x < start + bytes.size
    · have hin : x - start < bytes.size := by omega
      simp only [hx, hlt, and_self, if_true, Array.getD, hin, dif_pos]
    · have hout : ¬x - start < bytes.size := by omega
      simp only [hx, hlt, and_false, if_true, if_false, Array.getD, hout, dif_neg,
        not_false_eq_true]
  · simp only [hx, false_and, if_false]

theorem isMapped_writeWords (m : Memory) (start : Nat) (bytes : Array UInt8) (count n : Nat) :
    (m.writeWords start bytes count).isMapped n = m.isMapped n := by
  induction count with
  | zero => rfl
  | succ count ih => rw [writeWords, isMapped_write, ih]

theorem marks?_writeWords (m : Memory) (start : Nat) (bytes : Array UInt8) (count n : Nat) :
    (m.writeWords start bytes count).marks? n = m.marks? n := by
  induction count with
  | zero => rfl
  | succ count ih => rw [writeWords, marks?_write, ih]

theorem byte_writeWords {start count : Nat} {bytes : Array UInt8}
    (hm : ∀ n ∈ Page.numbers start bytes.size, m.isMapped n = true)
    (hc : 8 * count ≤ bytes.size) (x : Nat) :
    (m.writeWords start bytes count).byte x =
      if start ≤ x ∧ x < start + 8 * count then bytes.getD (x - start) 0 else m.byte x := by
  induction count with
  | zero => rw [writeWords, if_neg (by omega)]
  | succ count ih =>
    have hsize : (bytes.extract (8 * count) (8 * count + 8)).size = 8 := by
      rw [Array.size_extract]
      omega
    have hword : ∀ n ∈ Page.numbers (start + 8 * count)
        (bytes.extract (8 * count) (8 * count + 8)).size,
        (m.writeWords start bytes count).isMapped n = true := by
      intro n hn
      rw [isMapped_writeWords]
      apply hm
      rw [hsize, Page.mem_numbers] at hn
      rw [Page.mem_numbers]
      simp only [Page.number, Page.size] at hn ⊢
      omega
    rw [writeWords, byte_write_ite hword, ih (by omega), hsize]
    by_cases hx : start + 8 * count ≤ x ∧ x < start + 8 * count + 8
    · have hin : x - (start + 8 * count) < (bytes.extract (8 * count) (8 * count + 8)).size := by
        omega
      have hall : x - start < bytes.size := by omega
      have hget : 8 * count + (x - (start + 8 * count)) = x - start := by omega
      rw [if_pos hx, if_pos ⟨by omega, by omega⟩, Array.getD, dif_pos hin, Array.getD, dif_pos hall]
      simp only [Array.getInternal_eq_getElem, Array.getElem_extract, hget]
    · rw [if_neg hx]
      congr 1
      apply propext
      omega

/-- Bytes that are written word by word are all written. -/
theorem byte_writeWords_eq {start count : Nat} {bytes : Array UInt8}
    (hm : ∀ n ∈ Page.numbers start bytes.size, m.isMapped n = true)
    (hc : 8 * count = bytes.size) (x : Nat) :
    (m.writeWords start bytes count).byte x = (m.write start bytes).byte x := by
  rw [byte_writeWords hm hc.le, byte_write_ite hm, hc]

/-- Writing word by word leaves the pages that writing at once leaves. -/
theorem frame?_writeWords {start count : Nat} {bytes : Array UInt8}
    (hm : ∀ n ∈ Page.numbers start bytes.size, m.isMapped n = true)
    (hc : 8 * count = bytes.size) (n : Nat) :
    (m.writeWords start bytes count).frame? n = (m.write start bytes).frame? n := by
  apply frame?_eq
  · rw [← bytes?]
    by_cases hn : m.isMapped n = true
    · apply bytes?_eq_of_byte
      · rw [isMapped_write, hn]
      · rw [isMapped_writeWords, hn]
      · exact byte_writeWords_eq hm hc
    · have hnone : ∀ m' : Memory, m'.isMapped n = m.isMapped n → m'.bytes? n = none := by
        intro m' heq
        rw [isMapped_eq] at heq
        simpa [hn] using heq
      rw [hnone _ (isMapped_writeWords _ _ _ _ _), hnone _ (isMapped_write _ _ _ _)]
  · rw [← marks?, marks?_write, marks?_writeWords]

end Memory

namespace Normalization

variable {w : Workspace} {span : Span}

theorem words_of_aligned (hl : Page.IsAligned span.size) : 8 * (span.size / 8) = span.size := by
  obtain ⟨c, hc⟩ := hl.exists_mul
  rw [hc, Page.size]
  omega

theorem size_readWords {m : Memory} (hl : Page.IsAligned span.size) :
    (m.readWords span.start (span.size / 8)).size = span.size := by
  rw [Memory.readWords_eq, Memory.size_read, words_of_aligned hl]

/-- Fresh pages with the bytes copied over word by word. -/
theorem frame?_relay_words {m : Memory} (hl : Page.IsAligned span.size)
    (hm : ∀ n ∈ Page.numbers span.start span.size,
      (m.lay span.start span.size .readWrite .anonymous).isMapped n = true) (n : Nat) :
    ((m.lay span.start span.size .readWrite .anonymous).writeWords span.start
      (m.readWords span.start (span.size / 8)) (span.size / 8)).frame? n =
      (m.relay span.start span.size).frame? n := by
  rw [Memory.frame?_writeWords, Memory.readWords_eq, words_of_aligned hl, Memory.relay]
  · rwa [size_readWords hl]
  · rw [size_readWords hl, words_of_aligned hl]

/-- Putting a region aside, word by word. -/
theorem copyOut_eq_words (hl : Page.IsAligned span.size) :
    (copyOut span).on w = (.ok (), { w with
      scratch := w.memory.readWords span.start (span.size / 8) :: w.scratch.tail }) := by
  rw [Act.on_eq_ok_iff]
  simp only [copyOut, Act.meets_bind, Act.meets_faulty, checkWords_of_aligned hl, Act.meets_modify,
    Memory.readWords_eq, words_of_aligned hl]
  refine ⟨fun _ _ => ⟨trivial, trivial⟩, fun _ h => ?_⟩
  cases h

/-- Putting it back, word by word. -/
theorem copyBack_meets_words (hl : Page.IsAligned span.size)
    (hcopy : (w.scratch.headD #[]).size = span.size)
    (hm : ∀ n ∈ Page.numbers span.start span.size, w.memory.isMapped n = true) :
    (copyBack span).Meets w (fun _ w' => w'.scratch = w.scratch ∧ ∀ n, w'.memory.frame? n =
      (w.memory.writeWords span.start (w.scratch.headD #[]) (span.size / 8)).frame? n)
      fun _ _ => False := by
  simp only [copyBack, Act.meets_bind, Act.meets_faulty, checkWords_of_aligned hl, Act.meets_modify]
  refine ⟨fun _ _ => ⟨trivial, fun n => (Memory.frame?_writeWords ?_ ?_ n).symm⟩, fun _ h => ?_⟩
  · rwa [hcopy]
  · rw [hcopy, words_of_aligned hl]
  · cases h

end Normalization
end Rewind
