import Rewind.Proofs.Copies

/-! What normalizing leaves, page by page. Whichever request is turned down, all bytes stay: the
regions before the obstacle are private memory with the rights that they had, the region at the
obstacle is the original mapping until fresh memory is laid over it, and those behind it are
untouched. -/
namespace Rewind

/-- A fresh private page with the bytes of another. -/
def Frame.relaid (access : Access) (f : Frame) : Frame :=
  { Frame.zero access .anonymous with bytes := f.bytes }

namespace Memory

variable {m m' m'' : Memory} {s : Span} {change change' : Frame → Frame}

/-- The pages of a span have changed so, and no others have. -/
def ChangedOn (s : Span) (change : Frame → Frame) (m m' : Memory) : Prop :=
  ∀ n, m'.frame? n = if n * Page.size ∈ s then (m.frame? n).map change else m.frame? n

theorem changedOn_self (m : Memory) (s : Span) : ChangedOn s id m m := by
  intro n
  split
  · exact Option.map_id_apply.symm
  · rfl

theorem ChangedOn.trans (h : ChangedOn s change m m') (h' : ChangedOn s change' m' m'') :
    ChangedOn s (change' ∘ change) m m'' := by
  intro n
  rw [h', h]
  split
  · rw [Option.map_map]
  · rfl

theorem ChangedOn.byte (h : ChangedOn s change m m') (hc : ∀ f, (change f).bytes = f.bytes)
    (x : Nat) : m'.byte x = m.byte x := by
  rw [byte_eq, byte_eq, bytes?, bytes?, h]
  split
  · cases m.frame? (Page.number x) with
    | none => rfl
    | some f => simp only [Option.map_some, hc]
  · rfl

theorem frame?_protectPages {access : Access} {count n : Nat}
    (h : ∀ k ∈ List.range' n count, m.isMapped k = true) (k : Nat) :
    (protectPages access count n m).2.frame? k = if k ∈ List.range' n count then
      (m.frame? k).map ({ · with access := access }) else m.frame? k := by
  induction count generalizing n m with
  | zero => rfl
  | succ count ih =>
    rw [List.range'_succ, List.forall_mem_cons] at h
    obtain ⟨f, hf⟩ := Option.isSome_iff_exists.mp h.1
    have hrest : ∀ k ∈ List.range' (n + 1) count,
        (m.put n { f with access := access }).isMapped k = true := by
      intro k hk
      have hne : k ≠ n := by
        rw [List.mem_range'_1] at hk
        omega
      rw [isMapped, frame?_put_of_ne _ _ hne]
      exact h.2 k hk
    rw [protectPages, hf, List.range'_succ]
    simp only [ih hrest, List.mem_cons]
    by_cases hk : k = n
    · subst hk
      simp [hf]
    · simp [hk, frame?_put_of_ne]

/-- The kernel gives the three rights to mapped pages as asked. -/
theorem protect_eq {start length : Nat} {access : Access} (hs : Page.IsAligned start)
    (hpos : 0 < length) (ha : ∃ r w x, access = .ofRights r w x)
    (hl : start + pageCount length * Page.size < Word.limit)
    (hm : ∀ n ∈ covered start length, m.isMapped n = true) :
    m.protect start length access =
      protectPages access (pageCount length) (Page.number start) m := by
  obtain ⟨r, w, x, rfl⟩ := ha
  have hgrowth : (Access.ofRights r w x).bits &&& 0x03000000 = 0 := by
    cases r <;> cases w <;> cases x <;> decide
  have hrights : (Access.ofRights r w x).bits &&& 0xfcffffff &&& 0xfffffff0 = 0 := by
    cases r <;> cases w <;> cases x <;> decide
  have hsame : (⟨(Access.ofRights r w x).bits &&& 7⟩ : Access) = .ofRights r w x := by
    cases r <;> cases w <;> cases x <;> decide
  have hcount : 0 < pageCount length := by
    simp only [pageCount, Page.size]
    omega
  have hfirst : m.isMapped (Page.number start) = true := by
    apply hm
    rw [covered, List.mem_range'_1]
    omega
  unfold protect
  simp only [hgrowth, hs, hpos.ne', hl.not_ge, hrights, hfirst, hsame]
  rfl

/-- Fresh pages that the bytes are copied back to have nothing else of those that were there. -/
theorem changedOn_relay (hs : Page.IsAligned s.start) (hl : Page.IsAligned s.size)
    (hm : ∀ n, n * Page.size ∈ s → m.isMapped n = true) :
    ChangedOn s (Frame.relaid .readWrite) m (m.relay s.start s.size) := by
  intro n
  have hmapped : (m.relay s.start s.size).isMapped n = m.isMapped n := by
    by_cases hn : n * Page.size ∈ s <;> simp [isMapped_relay, mem_covered hs hl, hn, hm]
  have hbytes : (m.relay s.start s.size).bytes? n = m.bytes? n := by
    by_cases hn : m.isMapped n = true
    · exact bytes?_eq_of_byte hn (hmapped.trans hn) fun x => byte_relay hs hl m x
    · have hnone := hmapped.trans (Bool.not_eq_true _ ▸ hn)
      rw [isMapped_eq, Option.isSome_eq_false_iff, Option.isNone_iff_eq_none] at hnone
      rw [Bool.not_eq_true, isMapped_eq, Option.isSome_eq_false_iff,
        Option.isNone_iff_eq_none] at hn
      rw [hnone, hn]
  apply frame?_eq
  · rw [hbytes, bytes?]
    split
    · rw [Option.map_map]
      rfl
    · rfl
  · rw [relay, marks?_write]
    simp only [marks?, frame?_lay, mem_covered hs hl]
    split
    · next hn =>
      obtain ⟨f, hf⟩ := Option.isSome_iff_exists.mp (hm n hn)
      rw [hf]
      rfl
    · rfl

/-- The three rights can be given to mapped pages, and nothing else changes. -/
theorem exists_protect {access : Access} (hs : Page.IsAligned s.start) (hl : Page.IsAligned s.size)
    (hpos : 0 < s.size) (hlow : s.stop ≤ Mapping.limit) (ha : ∃ r w x, access = .ofRights r w x)
    (hm : ∀ n, n * Page.size ∈ s → m.isMapped n = true) :
    ∃ m', m.protect s.start s.size access = (.ok (), m') ∧
      ChangedOn s ({ · with access := access }) m m' := by
  have hpages : ∀ n ∈ covered s.start s.size, m.isMapped n = true :=
    fun n hn => hm n ((mem_covered hs hl).mp hn)
  have hend : s.start + pageCount s.size * Page.size < Word.limit := by
    have hlimit : Mapping.limit < Word.limit := by decide
    have hle := s.ordered
    rw [pageCount_mul_of_aligned hl, Span.size]
    omega
  have heq := protect_eq hs hpos ha hend hpages
  refine ⟨_, Prod.ext (protect_isOk hs ha hend hpages) rfl, fun n => ?_⟩
  rw [heq, frame?_protectPages hpages, ← covered]
  simp only [mem_covered hs hl]

end Memory

namespace Normalization

open Memory

variable {w w' : Workspace} {slot : Slot} {table : List Slot}

/-- The requests that an entry takes, in order. -/
def steps (slot : Slot) : List Step :=
  (if slot.access.readable then [] else [.makeReadable]) ++
    [.mapScratch, .mapFixed, .unmapScratch, .reprotect]

/-- The requests that a table takes, in order. -/
def agenda : (index : Nat) → List Slot → List (Nat × Step)
  | _, [] => []
  | index, slot :: table => (steps slot).map (index, ·) ++ agenda (index + 1) table

/-- The first request of a list that is turned down. -/
def firstObstacle (plan : Plan) (requests : List (Nat × Step)) : Option Obstacle :=
  requests.findSome? fun (index, step) => (plan index step).map (⟨index, step, ·⟩)

/-- What a page of an entry is once the work on it ended at a step. -/
def leftBy (slot : Slot) : Step → Frame → Frame
  | .makeReadable, f => f
  | .mapScratch, f | .mapFixed, f => { f with access := slot.access.addRead }
  | .unmapScratch, f | .reprotect, f => f.relaid .readWrite

/-- A non-empty range of whole mapped pages with the rights that they have. -/
structure Recorded (slot : Slot) (m : Memory) : Prop where
  aligned : Page.IsAligned slot.span.start
  whole : Page.IsAligned slot.span.size
  positive : 0 < slot.span.size
  low : slot.span.stop ≤ Mapping.limit
  rights : ∃ r w x, slot.access = .ofRights r w x
  mapped : ∀ n, n * Page.size ∈ slot.span → (m.frame? n).map (·.access) = some slot.access

theorem Recorded.isMapped {m : Memory} (h : Recorded slot m) (n : Nat)
    (hn : n * Page.size ∈ slot.span) : m.isMapped n = true := by
  obtain ⟨f, hf, -⟩ := Option.map_eq_some_iff.mp (h.mapped n hn)
  rw [Memory.isMapped, hf, Option.isSome_some]

/-- A request that the kernel grants unless it is turned down out of hand. -/
theorem request_meets_iff {α : Type} {refused : Step → Option Errno} {step : Step} {a : α}
    {f : Workspace → Except Errno α × Workspace} {post : α → Workspace → Prop}
    {trouble : Trouble (Step × Errno) → Workspace → Prop} (h : f w = (.ok a, w')) :
    (request refused step f).Meets w post trouble ↔ (refused step = none → post a w') ∧
      ∀ errno, refused step = some errno → trouble (.error (step, errno)) w := by
  unfold request
  cases refused step with
  | none => simp [Act.meets_mapError, h]
  | some errno => simp

/-- The first step of a list on which an entry is turned down. -/
def firstRefused (refused : Step → Option Errno) (steps : List Step) : Option (Step × Errno) :=
  steps.findSome? fun step => (refused step).map (step, ·)

/-- The requests that an entry takes once it can be read. -/
def relaySteps : List Step := [.mapScratch, .mapFixed, .unmapScratch, .reprotect]

theorem steps_eq (slot : Slot) : steps slot =
    if slot.access.readable then relaySteps else .makeReadable :: relaySteps := by
  unfold steps
  split <;> rfl

theorem Recorded.refusal {m : Memory} (h : Recorded slot m) :
    Mapping.refusal slot.span.size = none := by
  have hlow := h.low
  have hle : slot.span.size ≤ slot.span.stop := Nat.sub_le _ _
  rw [Mapping.refusal, if_neg h.positive.ne', if_neg (by omega)]

theorem Recorded.mapFixed {m m' : Memory} (h : Recorded slot m) :
    m'.mapFixed slot.span.start slot.span.size .readWrite = (.ok slot.span.start,
      m'.lay slot.span.start slot.span.size .readWrite .anonymous) := by
  have hlow := h.low
  have hle := slot.span.ordered
  have hend : ¬Mapping.limit < slot.span.start + slot.span.size := by
    rw [Span.size]
    omega
  rw [Memory.mapFixed, h.refusal]
  simp only [hend, if_false, h.aligned, not_true_eq_false]

/-- Laying an entry anew, as far as the requests for it are granted. -/
theorem relayEntry_exact {m : Memory} (refused : Step → Option Errno) (h : Recorded slot m)
    (hw : ∀ n, n * Page.size ∈ slot.span →
      (w.memory.frame? n).map (·.access) = some slot.access.addRead) :
    (relayEntry refused slot).Meets w
      (fun _ w' => firstRefused refused relaySteps = none ∧
        ChangedOn slot.span (·.relaid slot.access) w.memory w'.memory ∧ w'.scratch = w.scratch)
      fun e w' => ∃ step errno, e = .error (step, errno) ∧
        firstRefused refused relaySteps = some (step, errno) ∧
        ChangedOn slot.span (leftBy slot step) w.memory w'.memory := by
  have hmapped : ∀ n, n * Page.size ∈ slot.span → w.memory.isMapped n = true := by
    intro n hn
    obtain ⟨f, hf, -⟩ := Option.map_eq_some_iff.mp (hw n hn)
    rw [Memory.isMapped, hf, Option.isSome_some]
  have hsame : ChangedOn slot.span ({ · with access := slot.access.addRead })
      w.memory w.memory := by
    intro n
    split
    · next hn =>
      obtain ⟨f, hf, haccess⟩ := Option.map_eq_some_iff.mp (hw n hn)
      rw [hf, Option.map_some, ← haccess]
    · rfl
  have hlaid : ∀ n ∈ Page.numbers slot.span.start slot.span.size,
      (w.memory.lay slot.span.start slot.span.size .readWrite .anonymous).isMapped n = true := by
    intro n hn
    rw [← covered_eq_numbers h.aligned h.whole] at hn
    rw [Memory.isMapped, frame?_lay, if_pos hn, Option.isSome_some]
  have hscratch :
      mapScratch slot.span.size w = (.ok (), { w with scratch := #[] :: w.scratch }) := by
    rw [mapScratch, h.refusal]
  simp only [relayEntry, Act.meets_bind]
  rw [request_meets_iff hscratch]
  refine ⟨fun hmap => ?_, fun errno he => ?_⟩
  case refine_2 =>
    exact ⟨_, _, rfl, by simp [firstRefused, relaySteps, he], hsame⟩
  rw [Act.meets_of_ok (copyOut_eq_words h.whole),
    request_meets_iff (a := slot.span.start) (by rw [onMemory, h.mapFixed])]
  refine ⟨fun hfixed => ?_, fun errno he => ?_⟩
  case refine_2 =>
    exact ⟨_, _, rfl, by simp [firstRefused, relaySteps, hmap, he], hsame⟩
  have hcopyBack := copyBack_meets_words (w := ⟨w.memory.lay slot.span.start slot.span.size
      .readWrite .anonymous, w.memory.readWords slot.span.start (slot.span.size / 8) :: w.scratch⟩)
    h.whole (size_readWords h.whole) hlaid
  apply hcopyBack.mono _ fun _ _ he => he.elim
  rintro _ w₁ ⟨hstack, hcopied⟩
  have hrelay : ChangedOn slot.span (Frame.relaid .readWrite) w.memory w₁.memory := by
    intro n
    rw [(hcopied n).trans (frame?_relay_words h.whole hlaid n)]
    exact changedOn_relay h.aligned h.whole hmapped n
  obtain ⟨m', hprotect, hm'⟩ : ∃ m', w₁.memory.protect slot.span.start slot.span.size
      slot.access = (.ok (), m') ∧ ChangedOn slot.span ({ · with access := slot.access })
        w₁.memory m' := by
    apply exists_protect h.aligned h.whole h.positive h.low h.rights
    intro n hn
    rw [Memory.isMapped, hrelay, if_pos hn, Option.isSome_map]
    exact hmapped n hn
  have hreleased : unmapScratch w₁ = (.ok (), ⟨w₁.memory, w.scratch⟩) := by
    rw [unmapScratch, hstack]
    rfl
  refine (request_meets_iff hreleased).mpr ⟨fun hunmap => ?_, fun errno he => ?_⟩
  case refine_2 =>
    exact ⟨_, _, rfl, by simp [firstRefused, relaySteps, hmap, hfixed, he], hrelay⟩
  have hprotected : onMemory (·.protect slot.span.start slot.span.size slot.access)
      ⟨w₁.memory, w.scratch⟩ = (.ok (), ⟨m', w.scratch⟩) := by
    rw [onMemory, hprotect]
  rw [request_meets_iff hprotected]
  refine ⟨fun hprot => ⟨?_, hrelay.trans hm', rfl⟩, fun errno he => ?_⟩
  · simp [firstRefused, relaySteps, hmap, hfixed, hunmap, hprot]
  · exact ⟨_, _, rfl, by simp [firstRefused, relaySteps, hmap, hfixed, hunmap, he], hrelay⟩

theorem mem_relaySteps {refused : Step → Option Errno} {step : Step} {errno : Errno}
    (h : firstRefused refused relaySteps = some (step, errno)) : step ∈ relaySteps := by
  obtain ⟨step', hmem, heq⟩ := List.exists_of_findSome?_eq_some h
  obtain ⟨_, -, heq⟩ := Option.map_eq_some_iff.mp heq
  cases heq
  exact hmem

/-- An entry is converted unless a request for it is turned down. What is left of it then tells
which. -/
theorem normalizeEntry_exact (refused : Step → Option Errno) (h : Recorded slot w.memory) :
    (normalizeEntry refused slot).Meets w
      (fun _ w' => firstRefused refused (steps slot) = none ∧
        ChangedOn slot.span (·.relaid slot.access) w.memory w'.memory ∧ w'.scratch = w.scratch)
      fun e w' => ∃ step errno, e = .error (step, errno) ∧
        firstRefused refused (steps slot) = some (step, errno) ∧
        ChangedOn slot.span (leftBy slot step) w.memory w'.memory := by
  obtain ⟨r, wr, x, hrights⟩ := h.rights
  have hadd : slot.access.addRead = .ofRights true wr x := by
    rw [hrights]
    cases r <;> cases wr <;> cases x <;> decide
  rw [normalizeEntry_eq, steps_eq]
  simp only [Act.meets_bind, Act.meets_ite]
  constructor
  · intro hunread
    obtain ⟨m', hprotect, hm'⟩ := exists_protect h.aligned h.whole h.positive h.low
      ⟨true, wr, x, hadd⟩ h.isMapped
    have hw : ∀ n, n * Page.size ∈ slot.span →
        (m'.frame? n).map (·.access) = some slot.access.addRead := by
      intro n hn
      obtain ⟨f, hf, -⟩ := Option.map_eq_some_iff.mp (h.mapped n hn)
      rw [hm', if_pos hn, hf, Option.map_some, Option.map_some]
    have hprotected : onMemory (·.protect slot.span.start slot.span.size slot.access.addRead) w =
        (.ok (), ⟨m', w.scratch⟩) := by
      rw [onMemory, hprotect]
    rw [request_meets_iff hprotected]
    refine ⟨fun hread => ?_, fun errno he => ?_⟩
    · have hsteps : firstRefused refused (.makeReadable :: relaySteps) =
          firstRefused refused relaySteps := by
        simp [firstRefused, hread]
      rw [if_neg (by simp [hunread]), hsteps]
      apply (relayEntry_exact refused h hw).mono
      · rintro _ _ ⟨hnone, hw', hscratch⟩
        exact ⟨hnone, hm'.trans hw', hscratch⟩
      · rintro _ w' ⟨step, errno, rfl, hsome, hw'⟩
        have hleft : leftBy slot step ∘ ({ · with access := slot.access.addRead }) =
            leftBy slot step := by
          cases step <;> first | rfl | simpa [relaySteps] using mem_relaySteps hsome
        exact ⟨step, errno, rfl, hsome, hleft ▸ hm'.trans hw'⟩
    · refine ⟨_, errno, rfl, ?_, changedOn_self _ _⟩
      rw [if_neg (by simp [hunread])]
      simp [firstRefused, he]
  · intro hreadable
    rw [Bool.not_eq_false] at hreadable
    have hsame : slot.access.addRead = slot.access := by
      rw [hadd, hrights, show r = true by simpa [hrights] using hreadable]
    rw [if_pos hreadable]
    exact relayEntry_exact refused h (by simpa only [hsame] using h.mapped)

/-- What becomes of a page of an entry, by where the work stopped. -/
def fate (slot : Slot) (position : Nat) : Option Obstacle → Frame → Frame
  | none => (·.relaid slot.access)
  | some o =>
    if position < o.index then (·.relaid slot.access)
    else if position = o.index then leftBy slot o.step
    else id

/-- What is left of a table whose entries are counted from a position on. -/
structure Settled (index : Nat) (table : List Slot) (o : Option Obstacle) (w w' : Workspace) :
    Prop where
  bytes : ∀ x, w'.memory.byte x = w.memory.byte x
  entries : ∀ i slot, table[i]? = some slot → ∀ n, n * Page.size ∈ slot.span →
    w'.memory.frame? n = (w.memory.frame? n).map (fate slot (index + i) o)
  outside : ∀ n, ¬Within table n → w'.memory.frame? n = w.memory.frame? n
  released : o = none → w'.scratch = w.scratch

theorem settled_nil (index : Nat) (o : Option Obstacle) (w : Workspace) :
    Settled index [] o w w :=
  ⟨fun _ => rfl, by simp, fun _ _ => rfl, fun _ => rfl⟩

/-- Entries behind an obstacle are as they were. -/
theorem settled_behind {index : Nat} {o : Obstacle} (ho : o.index < index) (table : List Slot)
    (w : Workspace) : Settled index table (some o) w w := by
  refine ⟨fun _ => rfl, fun i slot _ n _ => ?_, fun _ _ => rfl, fun h => by cases h⟩
  rw [fate, if_neg (by omega), if_neg (by omega), Option.map_id, id]

/-- An entry, and then those behind it. -/
theorem Settled.cons {index : Nat} {o : Option Obstacle} {w₁ : Workspace}
    (hfirst : ChangedOn slot.span (fate slot index o) w.memory w₁.memory)
    (hbytes : ∀ f, (fate slot index o f).bytes = f.bytes)
    (hscratch : o = none → w₁.scratch = w.scratch)
    (hapart : ∀ other ∈ table, ∀ n, n * Page.size ∈ slot.span → n * Page.size ∉ other.span)
    (h : Settled (index + 1) table o w₁ w') : Settled index (slot :: table) o w w' := by
  constructor
  case bytes => exact fun x => (h.bytes x).trans (hfirst.byte hbytes x)
  case released => exact fun ho => (h.released ho).trans (hscratch ho)
  case outside =>
    intro n hn
    have hrest : ¬Within table n := by
      rintro ⟨other, hmem, hin⟩
      exact hn ⟨other, List.mem_cons_of_mem _ hmem, hin⟩
    have hslot : n * Page.size ∉ slot.span := fun hin => hn ⟨slot, List.mem_cons_self, hin⟩
    rw [h.outside n hrest, hfirst, if_neg hslot]
  case entries =>
    intro i other hother n hn
    cases i with
    | zero =>
      obtain rfl : slot = other := by simpa using hother
      have hrest : ¬Within table n := by
        rintro ⟨next, hmem, hin⟩
        exact hapart next hmem n hn hin
      rw [h.outside n hrest, hfirst, if_pos hn, Nat.add_zero]
    | succ i =>
      have hmem : other ∈ table := List.mem_of_getElem? (by simpa using hother)
      have hslot : n * Page.size ∉ slot.span := fun hin => hapart other hmem n hin hn
      rw [h.entries i other (by simpa using hother) n hn, hfirst, if_neg hslot, Nat.add_assoc,
        Nat.add_comm 1 i]

theorem bytes_leftBy (slot : Slot) (step : Step) (f : Frame) :
    (leftBy slot step f).bytes = f.bytes := by
  cases step <;> rfl

theorem firstObstacle_cons (plan : Plan) (index : Nat) (slot : Slot) (table : List Slot) :
    firstObstacle plan (agenda index (slot :: table)) =
      ((firstRefused (plan index) (steps slot)).map fun cause => ⟨index, cause.1, cause.2⟩).or
        (firstObstacle plan (agenda (index + 1) table)) := by
  rw [agenda, firstObstacle, List.findSome?_append, List.findSome?_map, firstRefused,
    List.map_findSome?]
  congr 2
  funext step
  simp [Option.map_map, Function.comp_def]

theorem le_index_of_firstObstacle {plan : Plan} {index : Nat} {o : Obstacle}
    (h : firstObstacle plan (agenda index table) = some o) : index ≤ o.index := by
  induction table generalizing index with
  | nil => cases h
  | cons slot table ih =>
    rw [firstObstacle_cons, Option.or_eq_some_iff] at h
    rcases h with h | ⟨-, h⟩
    · obtain ⟨cause, -, rfl⟩ := Option.map_eq_some_iff.mp h
      exact le_rfl
    · exact Nat.le_of_succ_le (ih h)

/-- Where the work on a table ends, and what it leaves. -/
theorem normalizeFrom_exact (plan : Plan) (index : Nat)
    (h : ∀ slot ∈ table, Recorded slot w.memory)
    (hapart : table.Pairwise fun a b => ∀ n, n * Page.size ∈ a.span → n * Page.size ∉ b.span) :
    (normalizeFrom plan index table).Meets w
      (fun _ w' => firstObstacle plan (agenda index table) = none ∧ Settled index table none w w')
      fun e w' => ∃ o, e = .error o ∧ firstObstacle plan (agenda index table) = some o ∧
        Settled index table (some o) w w' := by
  induction table generalizing w index with
  | nil => exact Act.meets_pure.mpr ⟨rfl, settled_nil _ _ _⟩
  | cons slot table ih =>
    obtain ⟨hslot, hrest⟩ := List.forall_mem_cons.mp h
    obtain ⟨hfirst, hlater⟩ := List.pairwise_cons.mp hapart
    simp only [normalizeFrom, Act.meets_bind, Act.meets_mapError]
    apply (normalizeEntry_exact (plan index) hslot).mono
    · rintro _ w₁ ⟨hnone, hchanged, hscratch⟩
      have hnext : ∀ other ∈ table, Recorded other w₁.memory := by
        intro other hmem
        refine { hrest other hmem with mapped := fun n hn => ?_ }
        have hout : n * Page.size ∉ slot.span := fun hin => hfirst other hmem n hin hn
        rw [hchanged, if_neg hout]
        exact (hrest other hmem).mapped n hn
      apply (ih (index + 1) hnext hlater).mono
      · rintro _ w₂ ⟨hnone', hsettled⟩
        rw [firstObstacle_cons, hnone, hnone']
        exact ⟨rfl, hsettled.cons hchanged (fun _ => rfl) (fun _ => hscratch) hfirst⟩
      · rintro _ w₂ ⟨o, rfl, hsome, hsettled⟩
        have hbefore : fate slot index (some o) = (·.relaid slot.access) := by
          simp only [fate, if_pos (Nat.lt_of_succ_le (le_index_of_firstObstacle hsome))]
        refine ⟨o, rfl, ?_, hsettled.cons (hbefore ▸ hchanged) ?_
          (fun h => by cases h) hfirst⟩
        · rw [firstObstacle_cons, hnone, hsome]
          rfl
        · intro f
          rw [hbefore]
          rfl
    · rintro _ w₁ ⟨step, errno, rfl, hsome, hchanged⟩
      have hhere : fate slot index (some ⟨index, step, errno⟩) = leftBy slot step := by
        simp [fate]
      refine ⟨_, rfl, ?_, (settled_behind (Nat.lt_succ_self index) table w₁).cons
        (hhere ▸ hchanged) ?_ (fun h => by cases h) hfirst⟩
      · rw [firstObstacle_cons, hsome]
        rfl
      · intro f
        rw [hhere, bytes_leftBy]

/-- Whichever requests are turned down, the work ends at the first of them, and all bytes stay. The
entries before it are converted, those behind it are as they were, and a table of which no request
is turned down is converted as a whole. -/
theorem normalizeEntries_settles (plan : Plan) (h : ∀ slot ∈ table, Recorded slot w.memory)
    (hapart : table.Pairwise fun a b => ∀ n, n * Page.size ∈ a.span → n * Page.size ∉ b.span) :
    ((normalizeEntries plan table).on w).1 =
        (firstObstacle plan (agenda 0 table)).elim (.ok ()) (fun o => .error (.error o)) ∧
      Settled 0 table (firstObstacle plan (agenda 0 table)) w
        ((normalizeEntries plan table).on w).2 := by
  have hmeets := (normalizeFrom_exact plan 0 h hapart).and
    (Act.meets_self (normalizeFrom plan 0 table) w)
  unfold normalizeEntries
  cases hon : (normalizeFrom plan 0 table).on w with | mk result w' =>
  cases result with
  | ok _ =>
    obtain ⟨⟨hnone, hsettled⟩, -⟩ := hmeets.ok hon
    rw [hnone]
    exact ⟨rfl, hsettled⟩
  | error e =>
    obtain ⟨⟨o, rfl, hsome, hsettled⟩, -⟩ := hmeets.error hon
    rw [hsome]
    exact ⟨rfl, hsettled⟩

/-- A page shared with others, and behind it a page of a file that nobody can read. -/
def twoKinds : Memory :=
  (Memory.empty.put 16 { Frame.zero .readWrite .shared with bytes := Vector.replicate _ 7 }).put 17
    (Frame.zero .none .file)

/-- The two pages as entries. -/
def twoEntries : List Slot := [⟨⟨0x10000, 0x11000, by decide, by decide⟩, .readWrite⟩,
  ⟨⟨0x11000, 0x12000, by decide, by decide⟩, .none⟩]

/-- No fresh memory for the second entry. -/
def noSecondMapping : Plan := fun index step =>
  if index = 1 ∧ step = .mapFixed then some .nomem else none

theorem recorded_twoEntries : ∀ slot ∈ twoEntries, Recorded slot twoKinds := by
  simp only [twoEntries, List.forall_mem_cons, List.not_mem_nil, false_implies, implies_true,
    and_true]
  constructor
  · refine ⟨by decide, by decide, by decide, by decide, ⟨true, true, false, rfl⟩, fun n hn => ?_⟩
    obtain rfl : n = 16 := by
      simp only [Span.mem_def, Page.size] at hn
      omega
    rw [twoKinds, Memory.frame?_put_of_ne _ _ (by decide), Memory.frame?_put_self]
    rfl
  · refine ⟨by decide, by decide, by decide, by decide, ⟨false, false, false, rfl⟩, fun n hn => ?_⟩
    obtain rfl : n = 17 := by
      simp only [Span.mem_def, Page.size] at hn
      omega
    rw [twoKinds, Memory.frame?_put_self]
    rfl

theorem twoEntries_settle :
    ((normalizeEntries noSecondMapping twoEntries).on ⟨twoKinds, []⟩).1 =
        .error (.error ⟨1, .mapFixed, .nomem⟩) ∧
      Settled 0 twoEntries (some ⟨1, .mapFixed, .nomem⟩) ⟨twoKinds, []⟩
        ((normalizeEntries noSecondMapping twoEntries).on ⟨twoKinds, []⟩).2 := by
  have hobstacle : firstObstacle noSecondMapping (agenda 0 twoEntries) =
      some ⟨1, .mapFixed, .nomem⟩ := by decide
  have hapart : twoEntries.Pairwise fun a b =>
      ∀ n, n * Page.size ∈ a.span → n * Page.size ∉ b.span := by
    simp only [twoEntries, List.pairwise_pair, Span.mem_def, Page.size]
    omega
  have h := normalizeEntries_settles (w := ⟨twoKinds, []⟩) noSecondMapping recorded_twoEntries
    hapart
  rwa [hobstacle] at h

end Normalization
end Rewind
