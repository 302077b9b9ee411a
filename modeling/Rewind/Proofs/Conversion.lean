import Rewind.Proofs.Act
import Rewind.Proofs.Enlisted
import Rewind.Proofs.Strays

/-! Turning regions into private memory. Whatever was in a region is still there once fresh memory
was laid over it, and every page of it is mapped then; pages are guarded at most where they were. -/
namespace Rewind

namespace Memory

variable {m m' : Memory} {start length k : Nat}

theorem isMapped_eq (m : Memory) (k : Nat) : m.isMapped k = (m.bytes? k).isSome := by
  rw [isMapped, bytes?, Option.isSome_map]

/-- Nothing but rights differs. -/
def SamePages (m m' : Memory) : Prop :=
  ∀ k, m'.bytes? k = m.bytes? k ∧ m'.isGuarded k = m.isGuarded k

theorem protectPages_samePages (access : Access) (count n : Nat) (m : Memory) :
    m.SamePages (protectPages access count n m).2 := by
  induction count generalizing n m with
  | zero => exact fun _ => ⟨rfl, rfl⟩
  | succ count ih =>
    rw [protectPages]
    split
    · exact fun _ => ⟨rfl, rfl⟩
    · next f hf =>
      intro k
      obtain ⟨hbytes, hguarded⟩ := ih (n + 1) (m.put n { f with access := access }) k
      rw [hbytes, hguarded]
      by_cases hk : k = n
      · subst hk
        simp [bytes?, isGuarded_eq, hf]
      · simp [bytes?, isGuarded_eq, frame?_put_of_ne _ _ hk]

theorem protect_samePages (m : Memory) (start length : Nat) (access : Access) :
    m.SamePages (m.protect start length access).2 := by
  unfold protect
  dsimp only
  split_ifs
  case neg => exact protectPages_samePages _ _ _ _
  all_goals exact fun _ => ⟨rfl, rfl⟩

theorem protectPages_isOk {access : Access} {count n : Nat}
    (h : ∀ k ∈ List.range' n count, m.isMapped k = true) :
    (protectPages access count n m).1 = .ok () := by
  induction count generalizing n m with
  | zero => rfl
  | succ count ih =>
    rw [List.range'_succ, List.forall_mem_cons] at h
    obtain ⟨f, hf⟩ := Option.isSome_iff_exists.mp h.1
    rw [protectPages, hf]
    apply ih
    intro k hk
    have hne : k ≠ n := by
      rw [List.mem_range'_1] at hk
      omega
    rw [isMapped, frame?_put_of_ne _ _ hne]
    exact h.2 k hk

/-- The three rights can be given to any mapped pages. -/
theorem protect_isOk {access : Access} (hs : Page.IsAligned start)
    (ha : ∃ r w x, access = .ofRights r w x)
    (hl : start + pageCount length * Page.size < Word.limit)
    (hm : ∀ n ∈ covered start length, m.isMapped n = true) :
    (m.protect start length access).1 = .ok () := by
  obtain ⟨r, w, x, rfl⟩ := ha
  have hgrowth : (Access.ofRights r w x).bits &&& 0x03000000 = 0 := by
    cases r <;> cases w <;> cases x <;> decide
  have hrights : (Access.ofRights r w x).bits &&& 0xfcffffff &&& 0xfffffff0 = 0 := by
    cases r <;> cases w <;> cases x <;> decide
  unfold protect
  by_cases hzero : length = 0
  · simp [hgrowth, hs, hzero]
  · have hcount : 0 < pageCount length := by
      simp only [pageCount, Page.size]
      omega
    have hfirst : m.isMapped (Page.number start) = true := by
      apply hm
      rw [covered, List.mem_range'_1]
      omega
    simp only [hgrowth, hs, hzero, hl.not_ge, hrights, hfirst]
    simpa using protectPages_isOk hm

theorem frame?_lay (m : Memory) (start length : Nat) (access : Access) (source : Source) (k : Nat) :
    (m.lay start length access source).frame? k =
      if k ∈ covered start length then some (.zero access source) else m.frame? k := by
  unfold lay
  induction covered start length generalizing m with
  | nil => rfl
  | cons n ns ih =>
    rw [List.foldl_cons, ih]
    by_cases hk : k = n
    · subst hk
      simp
    · simp [hk, frame?_put_of_ne]

/-- Whole pages: a request over them covers those that their bytes are on. -/
theorem covered_eq_numbers (hs : Page.IsAligned start) (hl : Page.IsAligned length) :
    covered start length = Page.numbers start length := by
  obtain ⟨a, rfl⟩ := hs.exists_mul
  obtain ⟨c, rfl⟩ := hl.exists_mul
  unfold covered Page.numbers
  by_cases hc : c = 0
  · subst hc
    simp [pageCount, Page.size]
  · have hne : c * Page.size ≠ 0 := Nat.mul_ne_zero hc Page.size_pos.ne'
    rw [if_neg hne]
    congr 1
    simp only [pageCount, Page.number, Page.size]
    omega

theorem pageCount_mul_of_aligned (hl : Page.IsAligned length) :
    pageCount length * Page.size = length := by
  obtain ⟨c, rfl⟩ := hl.exists_mul
  simp only [pageCount, Page.size]
  omega

theorem mem_covered {s : Span} (hs : Page.IsAligned s.start) (hl : Page.IsAligned s.size) :
    k ∈ covered s.start s.size ↔ k * Page.size ∈ s := by
  have hle := s.ordered
  rw [covered_eq_numbers hs hl, Page.mem_numbers, Span.mem_def]
  simp only [Page.IsAligned, Span.size, Page.number, Page.size] at *
  omega

theorem lands_foldl_writePage (start : Nat) (bytes : Array UInt8) {ns : List Nat}
    (h : ∀ n ∈ ns, m.isMapped n = true) :
    m.Lands start bytes ns (ns.foldl (fun m n => m.writePage start bytes n) m) := by
  induction ns generalizing m with
  | nil => exact fun x => by simp
  | cons n ns ih =>
    obtain ⟨hn, hns⟩ := List.forall_mem_cons.mp h
    have hfirst : m.Lands start bytes [n] (m.writePage start bytes n) := by
      intro x
      rw [byte_writePage hn]
      simp only [List.mem_singleton]
    exact hfirst.append (ih (m := m.writePage start bytes n) (by simpa using hns))

/-- A run of bytes stands in memory once it was written to mapped pages. -/
theorem byte_write {bytes : Array UInt8}
    (h : ∀ n ∈ Page.numbers start bytes.size, m.isMapped n = true) (x : Nat) :
    (m.write start bytes).byte x = m.landed start bytes x :=
  (lands_foldl_writePage start bytes h).byte x

/-- Fresh pages with the bytes that were there before. -/
def relay (m : Memory) (start length : Nat) : Memory :=
  (m.lay start length .readWrite .anonymous).write start (m.read start length)

variable (hs : Page.IsAligned start) (hl : Page.IsAligned length)

include hs hl in
theorem byte_relay (m : Memory) (x : Nat) : (m.relay start length).byte x = m.byte x := by
  have hmapped : ∀ n ∈ Page.numbers start (m.read start length).size,
      (m.lay start length .readWrite .anonymous).isMapped n = true := by
    intro n hn
    rw [size_read, ← covered_eq_numbers hs hl] at hn
    rw [isMapped, frame?_lay, if_pos hn, Option.isSome_some]
  rw [relay, byte_write hmapped, landed]
  by_cases hx : start ≤ x ∧ x < start + length
  · have hlt : x - start < (m.read start length).size := by
      rw [size_read]
      omega
    have haddress : start + (x - start) = x := by omega
    rw [if_pos hx.1, Array.getD, dif_pos hlt]
    simp [read_eq, haddress]
  · have hout : Page.number x ∉ covered start length := by
      rw [covered_eq_numbers hs hl, Page.mem_numbers]
      obtain ⟨a, rfl⟩ := hs.exists_mul
      obtain ⟨c, rfl⟩ := hl.exists_mul
      simp only [Page.number, Page.size] at hx ⊢
      omega
    have hold : (m.lay start length .readWrite .anonymous).byte x = m.byte x := by
      rw [byte, frame?_lay, if_neg hout, byte]
    split
    · have hge : ¬x - start < (m.read start length).size := by
        rw [size_read]
        omega
      rw [Array.getD, dif_neg hge, hold]
    · exact hold

theorem isMapped_write (m : Memory) (start : Nat) (bytes : Array UInt8) (k : Nat) :
    (m.write start bytes).isMapped k = m.isMapped k := by
  unfold write
  induction Page.numbers start bytes.size generalizing m with
  | nil => rfl
  | cons n ns ih => rw [List.foldl_cons, ih, isMapped_writePage]

theorem isMapped_relay (m : Memory) (start length k : Nat) :
    (m.relay start length).isMapped k = (decide (k ∈ covered start length) || m.isMapped k) := by
  rw [relay, isMapped_write, isMapped, frame?_lay]
  by_cases hk : k ∈ covered start length <;> simp [hk, isMapped]

theorem isGuarded_relay (m : Memory) (start length k : Nat) :
    (m.relay start length).isGuarded k = (!decide (k ∈ covered start length) && m.isGuarded k) := by
  rw [relay, isGuarded_write, isGuarded_eq, frame?_lay]
  by_cases hk : k ∈ covered start length <;> simp [hk, isGuarded_eq, Frame.zero]

end Memory

/-- A memory after the regions of these slots were turned into private memory. -/
structure Converted (slots : List Slot) (m m' : Memory) : Prop where
  bytes : ∀ x, m'.byte x = m.byte x
  guarded : ∀ k, m'.isGuarded k = true → m.isGuarded k = true
  kept : ∀ k, m.isMapped k = true → m'.isMapped k = true
  aligned : ∀ slot ∈ slots, Page.IsAligned slot.span.start
  mapped : ∀ k, Within slots k → m'.isMapped k = true

theorem converted_nil (m : Memory) : Converted [] m m :=
  ⟨fun _ => rfl, fun _ h => h, fun _ h => h, by simp, by simp [Within]⟩

theorem Converted.trans {slots slots' : List Slot} {m m' m'' : Memory} (h : Converted slots m m')
    (h' : Converted slots' m' m'') : Converted (slots ++ slots') m m'' := by
  constructor
  · exact fun x => (h'.bytes x).trans (h.bytes x)
  · exact fun k hk => h.guarded k (h'.guarded k hk)
  · exact fun k hk => h'.kept k (h.kept k hk)
  · intro slot hslot
    rcases List.mem_append.mp hslot with hslot | hslot
    · exact h.aligned slot hslot
    · exact h'.aligned slot hslot
  · intro k hk
    rcases within_append.mp hk with hk | hk
    · exact h'.kept k (h.mapped k hk)
    · exact h'.mapped k hk

namespace Memory.SamePages

variable {m m' : Memory}

theorem byte (h : m.SamePages m') (x : Nat) : m'.byte x = m.byte x := by
  rw [byte_eq, byte_eq, (h _).1]

theorem isMapped (h : m.SamePages m') (k : Nat) : m'.isMapped k = m.isMapped k := by
  rw [isMapped_eq, isMapped_eq, (h k).1]

end Memory.SamePages

/-- Laying pages anew with their bytes converts a slot, whatever is done to rights before and
after. -/
theorem converted_of_relay {slot : Slot} {m m₁ m' : Memory} (h : m.SamePages m₁)
    (hs : Page.IsAligned slot.span.start) (hl : Page.IsAligned slot.span.size)
    (h' : (m₁.relay slot.span.start slot.span.size).SamePages m') : Converted [slot] m m' := by
  constructor
  · intro x
    rw [h'.byte, Memory.byte_relay hs hl, h.byte]
  · intro k hk
    rw [(h' k).2, Memory.isGuarded_relay, (h k).2, Bool.and_eq_true] at hk
    exact hk.2
  · intro k hk
    rw [h'.isMapped, Memory.isMapped_relay, h.isMapped, hk, Bool.or_true]
  · simpa using hs
  · intro k hk
    have hin : k ∈ Memory.covered slot.span.start slot.span.size :=
      (Memory.mem_covered hs hl).mpr (within_singleton.mp hk)
    rw [h'.isMapped, Memory.isMapped_relay, decide_eq_true hin, Bool.true_or]

namespace Normalization

variable {w : Workspace}

/-- A slot that can be turned into private memory. -/
structure Convertible (slot : Slot) : Prop where
  aligned : Page.IsAligned slot.span.start
  positive : 0 < slot.span.size
  low : slot.span.start + slot.span.size ≤ Mapping.limit
  rights : ∃ r w x, slot.access = .ofRights r w x
  readable : slot.access.readable = true

/-- The work on an entry that can be read. -/
def relayEntry (refused : Step → Option Errno) (slot : Slot) : Work Unit := do
  let start := slot.span.start
  let size := slot.span.size
  request refused .mapScratch (mapScratch size)
  copyOut slot.span
  let _ ← request refused .mapFixed (onMemory (·.mapFixed start size .readWrite))
  copyBack slot.span
  request refused .unmapScratch unmapScratch
  request refused .reprotect (onMemory (·.protect start size slot.access))

theorem normalizeEntry_eq (refused : Step → Option Errno) (slot : Slot) :
    normalizeEntry refused slot = (do
      if slot.access.readable = false then
        request refused .makeReadable
          (onMemory (·.protect slot.span.start slot.span.size slot.access.addRead))
      relayEntry refused slot) := rfl

/-- Only a request that was turned down stands in the way of converting the slot. -/
def Hindered (refused : Step → Option Errno) (slot : Slot) : Prop :=
  Convertible slot → ∃ step, refused step ≠ none

theorem request_meets {α : Type} (refused : Step → Option Errno) (step : Step) {slot : Slot}
    {f : Workspace → Except Errno α × Workspace} {post : α → Workspace → Prop}
    (hok : ∀ a, (f w).1 = .ok a → post a (f w).2)
    (he : ∀ e, (f w).1 = .error e → Convertible slot → False) :
    (request refused step f).Meets w post fun _ _ => Hindered refused slot := by
  unfold request
  split
  · next errno h => exact Act.meets_fail.mpr fun _ => ⟨step, by simp [h]⟩
  · rw [Act.meets_mapError, Act.meets_request]
    exact ⟨hok, fun e h hc => (he e h hc).elim⟩

/-- So many bytes of the usable address space can be mapped. -/
theorem Convertible.refusal {slot : Slot} (h : Convertible slot) :
    Mapping.refusal slot.span.size = none := by
  have hlow := h.low
  rw [Mapping.refusal, if_neg h.positive.ne', if_neg (by omega)]

theorem mapScratch_meets (refused : Step → Option Errno) (slot : Slot) :
    (request refused .mapScratch (mapScratch slot.span.size)).Meets w
      (fun _ w' => w' = { w with scratch := #[] :: w.scratch })
      fun _ _ => Hindered refused slot := by
  apply request_meets
  · intro _ h
    unfold mapScratch at h ⊢
    split at h
    · cases h
    · rfl
  · intro e h hc
    simp [mapScratch, hc.refusal] at h

theorem mapFixed_meets (refused : Step → Option Errno) (slot : Slot) :
    (request refused .mapFixed
      (onMemory (·.mapFixed slot.span.start slot.span.size .readWrite))).Meets w
      (fun _ w' => Page.IsAligned slot.span.start ∧
        slot.span.start + slot.span.size ≤ Mapping.limit ∧ w' = { w with
          memory := w.memory.lay slot.span.start slot.span.size .readWrite .anonymous })
      fun _ _ => Hindered refused slot := by
  apply request_meets
  · intro _ h
    cases hrefusal : Mapping.refusal slot.span.size with
    | some e => simp [onMemory, Memory.mapFixed, hrefusal] at h
    | none =>
      simp only [onMemory, Memory.mapFixed, hrefusal] at h ⊢
      split_ifs at h ⊢ with hlow hs
      exact ⟨hs, not_lt.mp hlow, rfl⟩
  · intro e h hc
    simp [onMemory, Memory.mapFixed, hc.refusal, hc.low.not_gt, hc.aligned] at h

theorem checkWords_of_aligned {length : Nat} (hl : Page.IsAligned length) :
    checkWords length = .ok () := by
  obtain ⟨c, rfl⟩ := hl.exists_mul
  rw [checkWords, if_pos]
  simp only [Page.size]
  omega

theorem relayEntry_meets (refused : Step → Option Errno) {slot : Slot}
    (hl : Page.IsAligned slot.span.size) :
    (relayEntry refused slot).Meets w
      (fun _ w' => Page.IsAligned slot.span.start ∧
        (w.memory.relay slot.span.start slot.span.size).SamePages w'.memory)
      (fun _ _ => Hindered refused slot) := by
  simp only [relayEntry, copyOut, copyBack, Act.meets_bind, Act.meets_faulty,
    checkWords_of_aligned hl, Act.meets_modify]
  refine (mapScratch_meets refused slot).mono ?_ fun _ _ he => he
  rintro _ _ rfl
  refine ⟨fun _ _ => ?_, by rintro _ ⟨⟩⟩
  refine (mapFixed_meets refused slot).mono ?_ fun _ _ he => he
  rintro _ _ ⟨hs, hlow, rfl⟩
  refine ⟨fun _ _ => ?_, by rintro _ ⟨⟩⟩
  refine (request_meets refused .unmapScratch ?_ (by rintro _ ⟨⟩))
  intro _ _
  apply request_meets
  · exact fun _ _ => ⟨hs, Memory.protect_samePages _ _ _ _⟩
  · intro e he hc
    have hlimit : Mapping.limit < Word.limit := by decide
    have hpages : Memory.pageCount slot.span.size * Page.size = slot.span.size :=
      Memory.pageCount_mul_of_aligned hl
    have hok : ((w.memory.relay slot.span.start slot.span.size).protect slot.span.start
        slot.span.size slot.access).1 = .ok () := by
      apply Memory.protect_isOk hs hc.rights
      · rw [hpages]
        exact hlow.trans_lt hlimit
      · intro n hn
        simp [Memory.isMapped_relay, hn]
    cases hok.symm.trans he

/-- An entry that is converted keeps its bytes. Nothing but a refusal stands in the way of one that
can be. -/
theorem normalizeEntry_meets (refused : Step → Option Errno) {slot : Slot}
    (hl : Page.IsAligned slot.span.size) :
    (normalizeEntry refused slot).Meets w (fun _ w' => Converted [slot] w.memory w'.memory)
      (fun _ _ => Hindered refused slot) := by
  rw [normalizeEntry_eq]
  simp only [Act.meets_bind, Act.meets_ite]
  constructor
  · intro hunread
    apply request_meets
    · intro _ _
      apply (relayEntry_meets refused hl).mono
      · intro _ w' hpost
        exact converted_of_relay (Memory.protect_samePages _ _ _ _) hpost.1 hl hpost.2
      · exact fun _ _ he => he
    · intro _ _ hc
      rw [hc.readable] at hunread
      cases hunread
  · intro _
    apply (relayEntry_meets refused hl).mono
    · intro _ w' hpost
      exact converted_of_relay (fun _ => ⟨rfl, rfl⟩) hpost.1 hl hpost.2
    · exact fun _ _ he => he

/-- Converting entries up to the first that cannot be. -/
theorem normalizeFrom_meets (plan : Plan) (index : Nat) {slots : List Slot}
    (hl : ∀ slot ∈ slots, Page.IsAligned slot.span.size) :
    (normalizeFrom plan index slots).Meets w (fun _ w' => Converted slots w.memory w'.memory)
      (fun _ _ => (∀ slot ∈ slots, Convertible slot) → ∃ index step, plan index step ≠ none) := by
  induction slots generalizing w index with
  | nil => exact Act.meets_pure.mpr (converted_nil _)
  | cons slot slots ih =>
    obtain ⟨hfirst, hrest⟩ := List.forall_mem_cons.mp hl
    simp only [normalizeFrom, Act.meets_bind, Act.meets_mapError]
    apply (normalizeEntry_meets (plan index) hfirst).mono
    · intro _ w₁ hw₁
      apply (ih (index + 1) hrest).mono
      · exact fun _ w₂ hw₂ => hw₁.trans hw₂
      · exact fun _ _ he hall => he fun slot' hslot' => hall slot' (List.mem_cons_of_mem _ hslot')
    · rintro (_ | _) _ he hall
      · obtain ⟨step, hstep⟩ := he (hall slot List.mem_cons_self)
        exact ⟨index, step, hstep⟩
      · obtain ⟨step, hstep⟩ := he (hall slot List.mem_cons_self)
        exact ⟨index, step, hstep⟩

end Normalization

/-- The workspace that a machine offers for the work. -/
def Machine.workspace : Part Machine Workspace where
  split m := (⟨m.memory, []⟩, fun w => { m with memory := w.memory })

/-- Regions that were turned into private memory keep their bytes. Regions that can be are, unless a
request is turned down. -/
theorem Machine.normalize_meets {m : Machine} (plan : Normalization.Plan) {slots : List Slot}
    (regions : List Region) (hl : ∀ slot ∈ slots, Page.IsAligned slot.span.size) :
    (normalize plan slots regions).Meets m
      (fun _ m' => Converted slots m.memory m'.memory ∧ m'.kernel = m.kernel)
      (fun _ _ => (∀ slot ∈ slots, Normalization.Convertible slot) →
        ∃ index step, plan index step ≠ none) := by
  have heq : (normalize plan slots regions : Act Machine Failure Unit) = (do
      ((Normalization.normalizeEntries plan slots).mapError
        (Normalization.Obstacle.failure regions)).focus workspace
      log .info .normalization
        s!"normalized {slots.length} region(s), {totalSize slots} bytes") := rfl
  rw [heq, Act.meets_bind, Act.meets_focus, Act.meets_mapError]
  apply (Normalization.normalizeFrom_meets plan 0 hl).mono
  · intro _ w hw
    exact Act.meets_modify.mpr ⟨hw, rfl⟩
  · rintro (_ | _) _ he
    · exact he
    · exact he

end Rewind
