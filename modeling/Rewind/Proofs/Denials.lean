import Rewind.Proofs.Conversion
import Rewind.Proofs.Teardowns

/-! Arming that is denied a request. The setup goes through the regions twice, and the first request
that the kernel refuses ends it: the thread says what was refused and is gone before arming fails.
Bytes and captures stay as they were. What is guarded by then stays guarded until a teardown, and
whoever writes to it waits for a thread that is not there. -/
namespace Rewind

open Monitor (Point State Thread)

namespace Memory

variable {m : Memory} {s : Span} {n : Nat}

theorem isMapped_of_isGuarded (h : m.isGuarded n = true) : m.isMapped n = true := by
  rw [isGuarded_eq] at h
  rw [isMapped]
  cases hf : m.frame? n <;> simp_all

/-- Where a request to guard a span is granted, there was a page to guard. -/
theorem exists_page_of_setGuarded_ok {guarded : Bool} (h : (m.setGuarded s guarded).1 = .ok ()) :
    ∃ n, m.isMapped n = true ∧ n * Page.size ∈ s := by
  obtain ⟨done, -, -, ⟨-, rfl, hdone, -⟩ | ⟨e, he, -⟩⟩ := setGuarded_spec guarded s m
  · obtain ⟨n, hn⟩ := List.exists_mem_of_ne_nil _ hdone
    exact ⟨n, mem_pagesIn.mp hn⟩
  · rw [h] at he
    cases he

end Memory

namespace Machine

variable {m m' m₁ : Machine} {g : Bool} {slots : List Slot} {slot : Slot} {s : Span}
  {errno : Errno}

/-- The kernel takes the requests of a pass over these regions, and each returns at once. -/
inductive Accepts (g : Bool) : Machine → List Slot → Machine → Prop
  | nil {m : Machine} : Accepts g m [] m
  | cons {m m₁ m' : Machine} {slot : Slot} {slots : List Slot}
      (h : (enlist g slot.span).on m = (.ok .prompt, m₁)) (hs : Accepts g m₁ slots m') :
      Accepts g m (slot :: slots) m'

/-- The setup gets as far as the request about a region in one of its passes: those before it were
all taken. No region is guarded before all are tracked. -/
inductive GetsTo (m : Machine) (table : List Slot) (i : Nat) (slot : Slot) : Bool → Machine → Prop
  | track {m₁ : Machine} (hi : table[i]? = some slot) (hb : Accepts false m (table.take i) m₁) :
      GetsTo m table i slot false m₁
  | guard {m₁ m₂ : Machine} (hi : table[i]? = some slot) (ht : Accepts false m table m₁)
      (hb : Accepts true m₁ (table.take i) m₂) : GetsTo m table i slot true m₂

/-- The first request of the setup that the kernel refuses: about which region it was, for what and
why it was refused, and the machine it leaves. -/
def Denies (m : Machine) (table : List Slot) (i : Nat) (slot : Slot) (stage : Stage)
    (errno : Errno) (m' : Machine) : Prop :=
  ∃ g before, stage = .ofPass g ∧ m.GetsTo table i slot g before ∧
    (enlist g slot.span).on before = (.error (.error errno), m')

/-- The kernel takes a request of the setup and holds it back, after it took those before it. -/
def Delays (m : Machine) (table : List Slot) : Prop :=
  ∃ i slot g before m', m.GetsTo table i slot g before ∧
    (enlist g slot.span).on before = (.ok .late, m')

theorem Accepts.rules (h : Accepts g m slots m') : m'.kernel.rules = m.kernel.rules := by
  induction h with
  | nil => rfl
  | cons ho _ ih => exact ih.trans ((keeps_enlist g _).of_on ho)

/-- A pass is taken in full, or up to the first region whose request is refused or held back. -/
theorem accepts_or_stops (g : Bool) (slots : List Slot) (m : Machine) :
    (∃ m', Accepts g m slots m') ∨ ∃ i slot m₁ r m', slots[i]? = some slot ∧
      Accepts g m (slots.take i) m₁ ∧ (enlist g slot.span).on m₁ = (r, m') ∧
        (r = .ok .late ∨ ∃ errno, r = .error (.error errno)) := by
  induction slots generalizing m with
  | nil => exact .inl ⟨m, .nil⟩
  | cons slot slots ih =>
    have hrequest := enlist_meets g slot.span m
    cases hon : (enlist g slot.span).on m with
    | mk r m₁ =>
      cases r with
      | error e =>
        obtain ⟨errno, rfl, -⟩ := hrequest.error hon
        exact .inr ⟨0, slot, m, _, m₁, rfl, .nil, hon, .inr ⟨errno, rfl⟩⟩
      | ok returned =>
        cases returned with
        | late => exact .inr ⟨0, slot, m, _, m₁, rfl, .nil, hon, .inl rfl⟩
        | prompt =>
          rcases ih m₁ with ⟨m', hall⟩ | ⟨i, other, m₂, r, m', hi, hb, h⟩
          · exact .inl ⟨m', .cons hon hall⟩
          · exact .inr ⟨i + 1, other, m₂, r, m', hi, .cons hon hb, h⟩

/-- The kernel takes both passes of the setup, denies a request of it or delays one. -/
theorem accepts_or_denies (m : Machine) (table : List Slot) :
    (∃ m₁ m₂, Accepts false m table m₁ ∧ Accepts true m₁ table m₂) ∨ m.Delays table ∨
      ∃ i slot stage errno m', m.Denies table i slot stage errno m' := by
  rcases accepts_or_stops false table m with ⟨m₁, hfirst⟩ | ⟨i, slot, m₁, r, m', hi, hb, hon, hr⟩
  · rcases accepts_or_stops true table m₁ with
      ⟨m₂, hsecond⟩ | ⟨i, slot, m₂, r, m', hi, hb, hon, hr⟩
    · exact .inl ⟨m₁, m₂, hfirst, hsecond⟩
    · have hgets : m.GetsTo table i slot true m₂ := .guard hi hfirst hb
      rcases hr with rfl | ⟨errno, rfl⟩
      · exact .inr (.inl ⟨i, slot, true, m₂, m', hgets, hon⟩)
      · exact .inr (.inr ⟨i, slot, _, errno, m', true, m₂, rfl, hgets, hon⟩)
  · have hgets : m.GetsTo table i slot false m₁ := .track hi hb
    rcases hr with rfl | ⟨errno, rfl⟩
    · exact .inr (.inl ⟨i, slot, false, m₁, m', hgets, hon⟩)
    · exact .inr (.inr ⟨i, slot, _, errno, m', false, m₁, rfl, hgets, hon⟩)

theorem Accepts.tracked {m₀ : Memory} {tracked guarded : List Slot}
    (h : Accepts false m slots m') (hm : Enlisted m₀ tracked guarded m.memory) :
    Enlisted m₀ (tracked ++ slots) guarded m'.memory := by
  induction h generalizing tracked with
  | nil => rwa [List.append_nil]
  | @cons _ _ _ slot _ ho _ ih =>
    obtain ⟨-, ht, hframes⟩ := register_of_ok ho
    have hrest := ih (hm.register ht hframes)
    rwa [List.append_assoc] at hrest

theorem Accepts.guarded {m₀ : Memory} {tracked guarded : List Slot}
    (h : Accepts true m slots m') (hm : Enlisted m₀ tracked guarded m.memory) :
    Enlisted m₀ tracked (guarded ++ slots) m'.memory := by
  induction h generalizing guarded with
  | nil => rwa [List.append_nil]
  | @cons _ _ _ slot _ ho _ ih =>
    obtain ⟨-, hframes⟩ := guard_of_ok ho
    have hrest := ih (hm.guard hframes)
    rwa [List.append_assoc] at hrest

/-- A region that was guarded has a page that was there to be guarded. -/
theorem Accepts.exists_page (h : Accepts true m slots m') (hmem : slot ∈ slots) :
    ∃ n, m.memory.isMapped n = true ∧ n * Page.size ∈ slot.span := by
  induction h with
  | nil => cases hmem
  | @cons m m₁ m' first slots ho _ ih =>
    have hguard : (guard first.span).on m = (.ok .prompt, m₁) := ho
    rcases List.mem_cons.mp hmem with rfl | hmem
    · obtain ⟨hok, -⟩ := requestMemory_meets.ok hguard
      exact Memory.exists_page_of_setGuarded_ok hok
    · obtain ⟨n, hn, hin⟩ := ih hmem
      obtain ⟨-, hframes⟩ := guard_of_ok hguard
      rw [Memory.isMapped_of_frames hframes] at hn
      exact ⟨n, hn, hin⟩

/-- A refused request to track changes nothing, unless the region was tracked and then turned out to
be one that cannot be guarded. -/
theorem register_of_error (h : (register s).on m = (.error (.error errno), m')) :
    m'.memory = m.memory ∨
      (m.memory.register s).1 = .ok () ∧ m'.memory = (m.memory.register s).2 := by
  have spec : (register s).Meets m (fun _ _ => True) (fun _ m' => m'.memory = m.memory ∨
      (m.memory.register s).1 = .ok () ∧ m'.memory = (m.memory.register s).2) := by
    simp only [register, Act.meets_bind, meets_ask]
    split
    · exact Act.meets_fail.mpr (.inl rfl)
    · simp only [Act.meets_bind, Act.meets_request]
      refine ⟨fun _ hok => ?_, fun e he => .inl (Memory.setTracked_of_error he)⟩
      split
      · simp only [Act.meets_ite, Act.meets_bind, Act.meets_fail, Act.meets_pure, implies_true,
          and_true]
        exact fun _ => .inr ⟨hok, rfl⟩
      · simp only [Act.meets_pure]
  exact spec.error h

/-- A refused request to guard tracked pages changes nothing. -/
theorem guard_of_error (h : (guard s).on m = (.error (.error errno), m'))
    (ht : ∀ n ∈ m.memory.pagesIn s, m.memory.isTracked n = true) (k : Nat) :
    m'.memory.frame? k = m.memory.frame? k := by
  obtain ⟨e, -, ⟨-, rfl⟩ | ⟨he, rfl⟩⟩ := requestMemory_meets.error h
  · rfl
  · obtain ⟨done, -, hframes, ⟨hok, -⟩ | ⟨-, -, hdone⟩⟩ := m.memory.setGuarded_spec true s
    · rw [hok] at he
      cases he
    · have hnil : done = [] := by
        rcases hdone with hnil | ⟨n, hn, hun⟩
        · exact hnil
        · rw [ht n hn] at hun
          cases hun
      show ((m.memory.setGuarded s true).2).frame? k = _
      rw [hframes, hnil, if_neg List.not_mem_nil]

variable {table : List Slot} {i : Nat} {stage : Stage}

theorem GetsTo.getElem? (h : m.GetsTo table i slot g m') : table[i]? = some slot := by
  cases h <;> assumption

theorem GetsTo.rules (h : m.GetsTo table i slot g m') : m'.kernel.rules = m.kernel.rules := by
  cases h with
  | track _ hb => exact hb.rules
  | guard _ ht hb => exact hb.rules.trans ht.rules

theorem Denies.getElem? (h : m.Denies table i slot stage errno m') : table[i]? = some slot := by
  obtain ⟨g, before, -, hgets, -⟩ := h
  exact hgets.getElem?

theorem Denies.rules (h : m.Denies table i slot stage errno m') :
    m'.kernel.rules = m.kernel.rules := by
  obtain ⟨g, before, -, hgets, hon⟩ := h
  exact ((keeps_enlist g _).of_on hon).trans hgets.rules

/-- The regions that are guarded when a request is denied. -/
def guardedBy (stage : Stage) (table : List Slot) (i : Nat) : List Slot :=
  if stage = .protect then table.take i else []

theorem within_guardedBy {n : Nat} :
    Within (guardedBy stage table i) n ↔ stage = .protect ∧ Within (table.take i) n := by
  unfold guardedBy
  split
  · next hstage => simp [hstage]
  · next hstage => simp [hstage, Within]

/-- What the setup does to the memory before it is denied a request. -/
theorem Denies.enlisted (h : m.Denies table i slot stage errno m') :
    ∃ tracked, (stage = .protect → tracked = table) ∧
      Enlisted m.memory tracked (guardedBy stage table i) m'.memory := by
  obtain ⟨g, before, rfl, hgets, hon⟩ := h
  cases hgets with
  | track hi hb =>
    have hm := hb.tracked (enlisted_nil m.memory)
    rcases register_of_error hon with hsame | ⟨hok, hmemory⟩
    · exact ⟨_, nofun, hsame ▸ hm⟩
    · refine ⟨_, nofun, hm.register (Memory.isTrackable_of_setTracked_ok hok) fun k => ?_⟩
      rw [hmemory]
      simpa only [Memory.register, Bool.true_and] using Memory.frame?_setTracked_of_ok hok k
  | guard hi ht hb =>
    have hall := ht.tracked (enlisted_nil m.memory)
    rw [List.nil_append] at hall
    have hm := hb.guarded hall
    rw [List.nil_append] at hm
    have hframes := guard_of_error hon fun n hn => ?_
    · exact ⟨table, fun _ => rfl, hm.trackable, fun k => (hframes k).trans (hm.frames k)⟩
    · obtain ⟨hmap, hin⟩ := Memory.mem_pagesIn.mp hn
      have hwithin : Within table n := ⟨slot, List.mem_of_getElem? hi, hin⟩
      rw [hm.isMapped] at hmap
      simp [hm.isTracked, hmap, hwithin]

/-- Only the second pass guards, and it has guarded the regions before the one that it was denied. -/
theorem Denies.isGuarded_iff (h : m.Denies table i slot stage errno m') (n : Nat) :
    m'.memory.isGuarded n = true ↔ m.memory.isGuarded n = true ∨
      m.memory.isMapped n = true ∧ stage = .protect ∧ Within (table.take i) n := by
  obtain ⟨tracked, -, hm⟩ := h.enlisted
  rw [hm.isGuarded, Bool.or_eq_true, Bool.and_eq_true, decide_eq_true_eq, within_guardedBy]

/-- A request to guard that was denied behind another leaves a page of the other guarded. -/
theorem Denies.exists_guarded (h : m.Denies table i slot .protect errno m') (hi : i ≠ 0) :
    ∃ n, Within table n ∧ m'.memory.isGuarded n = true := by
  have hiff := h.isGuarded_iff
  obtain ⟨g, before, hg, hgets, -⟩ := h
  cases hgets with
  | track => cases hg
  | @guard m₁ _ hslot ht hb =>
    have hfirst : ∃ first, first ∈ table.take i := by
      refine List.exists_mem_of_ne_nil _ fun hnil => ?_
      rcases List.take_eq_nil_iff.mp hnil with rfl | rfl
      · exact hi rfl
      · cases hslot
    obtain ⟨first, hmem⟩ := hfirst
    obtain ⟨n, hmapped, hin⟩ := hb.exists_page hmem
    rw [(ht.tracked (enlisted_nil m.memory)).isMapped] at hmapped
    exact ⟨n, ⟨first, List.mem_of_mem_take hmem, hin⟩,
      (hiff n).mpr (.inr ⟨hmapped, rfl, first, hmem, hin⟩)⟩

/-- Exactly if no request to guard was denied behind another, the setup leaves all pages of the
table free that it found free. -/
theorem Denies.free_iff (h : m.Denies table i slot stage errno m') :
    (∀ n, Within table n → m'.memory.isGuarded n = false) ↔
      (∀ n, Within table n → m.memory.isGuarded n = false) ∧ (stage = .protect → i = 0) := by
  constructor
  · intro hfree
    refine ⟨fun n hn => ?_, ?_⟩
    · by_contra hguarded
      rw [Bool.not_eq_false] at hguarded
      have hstill := (h.isGuarded_iff n).mpr (.inl hguarded)
      rw [hfree n hn] at hstill
      cases hstill
    · rintro rfl
      by_contra hi
      obtain ⟨n, hn, hguarded⟩ := h.exists_guarded hi
      rw [hfree n hn] at hguarded
      cases hguarded
  · rintro ⟨hfree, hfirst⟩ n hn
    by_contra hguarded
    rw [Bool.not_eq_false] at hguarded
    rcases (h.isGuarded_iff n).mp hguarded with hbefore | ⟨-, hstage, slot', hmem, -⟩
    · rw [hfree n hn] at hbefore
      cases hbefore
    · rw [hfirst hstage] at hmem
      cases hmem

end Machine

namespace Watch

variable {w w' w'' : Watch} {p q : Point} {n k : Nat}

/-- So many steps of the thread lead from one machine to another. -/
def Reaches (n : Nat) (w w' : Watch) : Prop := ∀ k, (serveFor (n + k)).on w = (serveFor k).on w'

theorem reaches_refl (w : Watch) : Reaches 0 w w := fun k => by rw [Nat.zero_add]

theorem Reaches.trans (h : Reaches n w w') (h' : Reaches k w' w'') : Reaches (n + k) w w'' := by
  intro l
  rw [Nat.add_assoc, h, h']

/-- A thread that comes no further than this, however many more steps it is given, stays there. -/
theorem Reaches.serve (h : Reaches n w w') (hn : n ≤ w.patience)
    (hend : ∀ k, (serveFor k).on w' = (.ok (), w')) : serve.on w = (.ok (), w') := by
  obtain ⟨k, hk⟩ := Nat.exists_eq_add_of_le hn
  rw [Watch.serve, Act.on_bind, Act.on_get]
  simp only [hk]
  rw [h, hend]

/-- The monitor on this machine, with its thread at a point. -/
def placed (w : Watch) (m : Machine) (p : Point) : Watch :=
  ⟨m, { w.monitor with thread := some ⟨p, false⟩ }⟩

/-- The monitor on this machine, with its thread held in a request before a point. -/
def waiting (w : Watch) (m : Machine) (p : Point) : Watch :=
  ⟨m, { w.monitor with thread := some ⟨p, true⟩ }⟩

theorem serveFor_waiting (w : Watch) (m : Machine) (p : Point) (k : Nat) :
    (serveFor k).on (w.waiting m p) = (.ok (), w.waiting m p) := by
  cases k <;> rfl

theorem placed_self (ht : w.monitor.thread = some ⟨p, false⟩) : w.placed w.toMachine p = w := by
  rw [placed, ← ht]

section
variable {g : Bool} {i : Nat} {slot : Slot} {m m' : Machine} {slots : List Slot} {stage : Stage}
  {errno : Errno}

theorem reaches_of_go (h : (perform p).on (w.placed m p) = (.ok (.go q), w'.placed m' p)) :
    Reaches 1 (w.placed m p) (w'.placed m' q) := by
  intro k
  have hset : (setThread q false).on (w'.placed m' p) = (.ok (), w'.placed m' q) := rfl
  have ht : (w.placed m p).monitor.thread = some ⟨p, false⟩ := rfl
  rw [Nat.add_comm, serveFor, Act.on_bind, Act.on_get]
  simp only [ht, Act.on_bind, h, hset]

theorem reaches_of_accepted (hi : w.monitor.slots.items[i]? = some slot)
    (h : (Machine.enlist g slot.span).on m = (.ok .prompt, m')) :
    Reaches 1 (w.placed m (.enlist g i)) (w.placed m' (.enlist g (i + 1))) := by
  refine reaches_of_go (Act.on_eq_ok_iff.mpr ?_)
  rw [perform_enlist]
  simp only [Act.meets_bind, Act.meets_get, placed, hi, meets_request]
  exact (Act.meets_of_ok h).mpr (Act.meets_pure.mpr ⟨rfl, rfl⟩)

theorem reaches_of_denied (hi : w.monitor.slots.items[i]? = some slot)
    (h : (Machine.enlist g slot.span).on m = (.error (.error errno), m')) :
    Reaches 1 (w.placed m (.enlist g i)) (w.placed m' (.failed i (.ofPass g) errno)) := by
  refine reaches_of_go (Act.on_eq_ok_iff.mpr ?_)
  rw [perform_enlist]
  simp only [Act.meets_bind, Act.meets_get, placed, hi, meets_request]
  exact (Act.meets_of_error h).mpr (Act.meets_pure.mpr ⟨rfl, rfl⟩)

theorem reaches_of_delayed (hi : w.monitor.slots.items[i]? = some slot)
    (h : (Machine.enlist g slot.span).on m = (.ok .late, m')) :
    Reaches 1 (w.placed m (.enlist g i)) (w.waiting m' (.enlist g (i + 1))) := by
  intro k
  have hperform : (perform (.enlist g i)).on (w.placed m (.enlist g i)) =
      (.ok (.hold (.enlist g (i + 1))), w.placed m' (.enlist g i)) := by
    rw [Act.on_eq_ok_iff, perform_enlist]
    simp only [Act.meets_bind, Act.meets_get, placed, hi, meets_request]
    exact (Act.meets_of_ok h).mpr (Act.meets_pure.mpr ⟨rfl, rfl⟩)
  have hset : (setThread (.enlist g (i + 1)) true).on (w.placed m' (.enlist g i)) =
      (.ok (), w.waiting m' (.enlist g (i + 1))) := rfl
  have ht : (w.placed m (.enlist g i)).monitor.thread = some ⟨.enlist g i, false⟩ := rfl
  rw [Nat.add_comm, serveFor, Act.on_bind, Act.on_get, serveFor_waiting]
  simp only [ht, Act.on_bind, hperform, hset]

theorem reaches_of_accepts (h : Machine.Accepts g m slots m') {rest : List Slot}
    (hs : w.monitor.slots.items.toList.drop i = slots ++ rest) :
    Reaches slots.length (w.placed m (.enlist g i))
      (w.placed m' (.enlist g (i + slots.length))) := by
  induction h generalizing i with
  | nil => exact reaches_refl _
  | @cons m m₁ m' slot slots ho _ ih =>
    have hi : w.monitor.slots.items[i]? = some slot := by
      rw [← Array.getElem?_toList, ← Nat.add_zero i, ← List.getElem?_drop, hs]
      rfl
    have hnext : w.monitor.slots.items.toList.drop (i + 1) = slots ++ rest := by
      rw [← List.drop_drop, hs]
      rfl
    have hrest := (reaches_of_accepted hi ho).trans (ih hnext)
    rwa [Nat.add_comm 1, Nat.add_assoc i, Nat.add_comm 1] at hrest

/-- A pass over all regions leads to what comes after it. -/
theorem reaches_enlisted (h : Machine.Accepts g m w.monitor.slots.items.toList m') :
    Reaches (w.monitor.slots.size + 1) (w.placed m (.enlist g 0))
      (w.placed m' (.enlisted g)) := by
  have hall := reaches_of_accepts (w := w) (i := 0) h (List.append_nil _).symm
  rw [Nat.zero_add, Array.length_toList] at hall
  refine hall.trans (reaches_of_go (Act.on_eq_ok_iff.mpr ?_))
  rw [perform_enlist]
  simp only [Act.meets_bind, Act.meets_get, placed, Array.getElem?_size, Act.meets_pure]
  trivial

/-- What the monitor shows when its thread has said that a request was refused. -/
def told (w : Watch) (i : Nat) (stage : Stage) (errno : Errno) : Watch :=
  { w with monitor := { w.monitor with state := .failed, readiness := .refused i stage errno } }

theorem reaches_told : Reaches 2 (w.placed m (.failed i stage errno))
    ((w.told i stage errno).placed m .ended) := by
  have hfailed : Reaches 1 (w.placed m (.failed i stage errno))
      (Watch.placed { w with monitor := { w.monitor with state := .failed } } m
        (.refused i stage errno)) := reaches_of_go rfl
  exact hfailed.trans (reaches_of_go rfl)

/-- What the monitor shows in a pass of the setup. -/
def entered (w : Watch) : Bool → Watch
  | false => w
  | true => { w with monitor := { w.monitor with state := .registered } }

theorem entered_slots (w : Watch) (g : Bool) : (w.entered g).monitor.slots = w.monitor.slots := by
  cases g <;> rfl

/-- The thread that was just started comes to every request that the setup gets to, with patience
left to say what came of it. -/
theorem reaches_getsTo (ht : w.monitor.thread = some .fresh)
    (h : w.toMachine.GetsTo w.monitor.slots.items.toList i slot g m) :
    (w.entered g).monitor.slots.items[i]? = some slot ∧ ∃ n, n + 3 ≤ w.patience ∧
      Reaches n w ((w.entered g).placed m (.enlist g i)) := by
  have hself : w.placed w.toMachine (.register 0) = w := placed_self ht
  have hi := h.getElem?
  obtain ⟨hlt, -⟩ := List.getElem?_eq_some_iff.mp hi
  have hlength := List.length_take_of_le hlt.le
  rw [Array.length_toList] at hlt
  rw [Array.getElem?_toList, ← entered_slots w g] at hi
  refine ⟨hi, ?_⟩
  simp only [patience, PrivateArray.size]
  cases h with
  | track _ hb =>
    have hpass := reaches_of_accepts (w := w) (i := 0) hb (List.take_append_drop i _).symm
    rw [Nat.zero_add, hlength, Point.enlist, hself] at hpass
    exact ⟨i, by omega, hpass⟩
  | @guard m₁ _ _ htracked hb =>
    have hfirst := reaches_enlisted (g := false) htracked
    rw [Point.enlist, hself, PrivateArray.size] at hfirst
    have hbetween : Reaches 1 (w.placed m₁ .registered) ((w.entered true).placed m₁ (.guard 0)) :=
      reaches_of_go rfl
    have hpass := reaches_of_accepts (w := w.entered true) (i := 0) hb
      (List.take_append_drop i _).symm
    rw [Nat.zero_add, hlength] at hpass
    exact ⟨_, by omega, hfirst.trans (hbetween.trans hpass)⟩

/-- Wherever the kernel denies a request, the thread runs on to its end, and says so. -/
theorem serve_of_denies (ht : w.monitor.thread = some .fresh)
    (hd : w.toMachine.Denies w.monitor.slots.items.toList i slot stage errno m) :
    serve.on w = (.ok (), (w.told i stage errno).placed m .ended) := by
  obtain ⟨g, before, rfl, hgets, hon⟩ := hd
  obtain ⟨hi, n, hn, hreaches⟩ := reaches_getsTo ht hgets
  have htold : (w.entered g).told i (.ofPass g) errno = w.told i (.ofPass g) errno := by
    cases g <;> rfl
  have hrun := hreaches.trans ((reaches_of_denied hi hon).trans reaches_told)
  rw [htold] at hrun
  exact hrun.serve hn fun _ => serveFor_of_ended rfl _

/-- Wherever the kernel holds a request back, the thread waits in it and has said nothing. -/
theorem serve_of_delays (ht : w.monitor.thread = some .fresh)
    (hd : w.toMachine.Delays w.monitor.slots.items.toList) :
    ∃ g m p, serve.on w = (.ok (), (w.entered g).waiting m p) := by
  obtain ⟨i, slot, g, before, m, hgets, hon⟩ := hd
  obtain ⟨hi, n, hn, hreaches⟩ := reaches_getsTo ht hgets
  have hrun := hreaches.trans (reaches_of_delayed hi hon)
  exact ⟨g, m, .enlist g (i + 1), hrun.serve (by omega) (serveFor_waiting _ _ _)⟩

end

/-- A monitor that was just set up, except that room may have been made for captures. -/
inductive Fresh : Monitor → Prop
  | new {channel : Tracking.Channel} {stackSize : Nat} {m m' : Machine} {monitor : Monitor}
      (h : (Monitor.new channel stackSize).on m = (.ok monitor, m')) : Fresh monitor
  | reserve {w w' : Watch} {pages : Nat} {r : Outcome Stop Unit} (hf : Fresh w.monitor)
      (h : (reservePages pages).on w = (r, w')) : Fresh w'.monitor

theorem Fresh.built {monitor : Monitor} (h : Fresh monitor) : Built monitor := by
  induction h with
  | new h => exact .new h
  | reserve _ h ih => exact .reserve ih h

/-- It was handed no regions, and was never armed. -/
theorem Fresh.idle {monitor : Monitor} (h : Fresh monitor) :
    monitor.slots.items = #[] ∧ monitor.armed = false := by
  induction h with
  | new h => exact ((Monitor.new_meets _ _ _).ok h).2
  | @reserve w w' pages r hf h ih =>
    have hu := hf.built.unspent
    have hroom := reservePages_meets hu.whole hu.empty pages
    obtain ⟨s, -, -, hw'⟩ : ∃ s : Snapshot, s.Whole ∧ s.size = 0 ∧
        w'.monitor = { w.monitor with snapshot := s } := by
      cases r with
      | ok _ => exact hroom.ok h
      | error _ => exact hroom.error h
    rw [hw']
    exact ih

/-- The table was stored, and the thread was started over it. -/
def Starts (table : List Slot) (w w₁ : Watch) : Prop :=
  ∃ v, (PrivateArray.extend Mapping.refusal table.toArray).on w.monitor.slots = (.ok (), v) ∧
    startThread.on { w with monitor := { w.monitor with slots := v } } = (.ok (), w₁)

variable {table : List Slot} {w₁ : Watch} {i : Nat} {slot : Slot} {stage : Stage} {errno : Errno}
  {m : Machine}

theorem Starts.monitor (h : Starts table w w₁) (hf : Fresh w.monitor) :
    ∃ v : PrivateArray Slot 24, v.items.toList = table ∧
      w₁.monitor = { w.monitor with slots := v, thread := some .fresh } := by
  obtain ⟨v, hv, hstart⟩ := h
  have hextend := PrivateArray.extend_meets (by decide) hf.built.unspent.slotsFit table.toArray
  obtain ⟨hitems, -⟩ := hextend.ok hv
  refine ⟨v, ?_, ?_⟩
  · rw [hitems, hf.idle.1, Array.empty_append]
  · have hw₁ := startThread_meets.ok hstart
    rw [hw₁]

theorem Starts.machine (h : Starts table w w₁) :
    w₁.toMachine = w.toMachine.called .startThread := by
  obtain ⟨v, -, hstart⟩ := h
  have hw₁ := startThread_meets.ok hstart
  rw [hw₁]

/-- The monitor once its thread has said that a request was refused and was waited for. -/
def forsaken (w : Watch) (m : Machine) (i : Nat) (stage : Stage) (errno : Errno) : Watch :=
  ⟨m, { (w.told i stage errno).monitor with stopSignalled := true, thread := none }⟩

theorem Starts.pending (h : Starts table w w₁) (hf : Fresh w.monitor) :
    w₁.monitor.readiness = .pending := by
  obtain ⟨v, -, hmonitor⟩ := h.monitor hf
  rw [hmonitor]
  exact hf.built.unspent.readiness

/-- With the thread started, what arming comes to is decided by what the thread says. -/
theorem arm_meets_of_serve {post : Unit → Watch → Prop} {trouble : Trouble Stop → Watch → Prop}
    (hf : Fresh w.monitor) (hs : Starts table w w₁) (hserve : serve.on w₁ = (.ok (), w'))
    (timeout : Duration) (hr : w'.monitor.readiness ≠ .armed)
    (hrefused : ∀ i stage errno, w'.monitor.readiness = .refused i stage errno →
      (do join
          match table[i]? with
          | some slot => fail (.registration slot.span stage errno)
          | none => throw (.fault (.outOfBounds table.length i)) : Op Unit).Meets w' post trouble)
    (hpending : w'.monitor.readiness = .pending →
      trouble (.error (.failure (.armTimeout timeout))) w') :
    (arm table timeout).Meets w post trouble := by
  have hsaid := hs.pending hf
  obtain ⟨v, hextend, hstart⟩ := hs
  simp only [arm, Act.meets_bind, Act.meets_get, Act.meets_ite, hf.built.unspent.thread,
    Act.meets_focus, Act.meets_mapError]
  refine ⟨by simp, fun _ => (Act.meets_of_ok hextend).mpr ?_⟩
  refine (Act.meets_of_ok hstart).mpr ((Act.meets_of_ok hserve).mpr ?_)
  apply (heard_meets _).mono _ fun _ _ he => he.elim
  rintro r _ ⟨rfl, rfl⟩
  rw [if_pos hsaid]
  split
  · next harmed => exact absurd harmed hr
  · next i stage errno hsays => exact hrefused i stage errno hsays
  · next hsays => exact meets_fail.mpr (hpending hsays)

/-- Arming reports the first request that is denied, and ends with the thread gone. -/
theorem arm_denied_meets (hf : Fresh w.monitor) (hs : Starts table w w₁)
    (hd : w₁.toMachine.Denies table i slot stage errno m) (timeout : Duration) :
    (arm table timeout).Meets w (fun _ _ => False)
      (fun e w' => e = .error (.failure (.registration slot.span stage errno)) ∧
        w' = w₁.forsaken m i stage errno) := by
  obtain ⟨v, rfl, hmonitor⟩ := hs.monitor hf
  have hfirst : w₁.monitor.thread = some .fresh := by rw [hmonitor]
  have hdenies : w₁.toMachine.Denies w₁.monitor.slots.items.toList i slot stage errno m := by
    rwa [hmonitor]
  have hserve := serve_of_denies hfirst hdenies
  refine arm_meets_of_serve hf hs hserve timeout nofun ?_ nofun
  rintro _ _ _ ⟨⟩
  rw [Act.meets_bind]
  apply (join_of_ended rfl).mono _ fun _ _ he => he.elim
  rintro - _ rfl
  rw [hd.getElem?]
  exact meets_fail.mpr ⟨rfl, rfl⟩

/-- Arming does not wait for a request that is held back longer than it was told to. -/
theorem arm_delayed_meets (hf : Fresh w.monitor) (hs : Starts table w w₁)
    (hd : w₁.toMachine.Delays table) (timeout : Duration) :
    (arm table timeout).Meets w (fun _ _ => False)
      (fun e w' => e = .error (.failure (.armTimeout timeout)) ∧
        ∃ p, w'.monitor.thread = some ⟨p, true⟩) := by
  obtain ⟨v, rfl, hmonitor⟩ := hs.monitor hf
  obtain ⟨g, m, p, hserve⟩ : ∃ g m p, serve.on w₁ = (.ok (), (w₁.entered g).waiting m p) := by
    refine serve_of_delays (by rw [hmonitor]) ?_
    rwa [hmonitor]
  have hpending : ((w₁.entered g).waiting m p).monitor.readiness = .pending := by
    rw [← hs.pending hf]
    cases g <;> rfl
  refine arm_meets_of_serve hf hs hserve timeout (by rw [hpending]; decide) ?_ ?_
  · intro i stage errno hrefused
    rw [hpending] at hrefused
    cases hrefused
  · exact fun _ => ⟨rfl, p, rfl⟩

/-! Writes that no thread attends to. -/

theorem serve_of_none (ht : w.monitor.thread = none) : serve.on w = (.ok (), w) := by
  rw [Act.on_eq_ok_iff]
  simp only [serve, Act.meets_bind, Act.meets_get]
  cases patience w with
  | zero => exact Act.meets_pure.mpr ⟨trivial, rfl⟩
  | succ steps =>
    simp only [serveFor, Act.meets_bind, Act.meets_get, ht]
    exact Act.meets_pure.mpr ⟨trivial, rfl⟩

theorem claim_forsaken_meets (ht : w.monitor.thread = none) (n address : Nat) :
    (claim n address).Meets w (fun _ w' => w.memory.isGuarded n = false ∧ w' = w)
      (fun e _ => w.memory.isGuarded n = true ∧ e = .error (.halt .stalled)) := by
  simp only [claim, Act.meets_bind, Act.meets_get, Act.meets_ite, meets_modifyMonitor,
    Act.meets_pure, Bool.not_eq_true]
  refine ⟨fun hguarded => ?_, fun hfree => ⟨hfree, trivial⟩⟩
  have hserve : serve.on (w.raising address) = (.ok (), w.raising address) := serve_of_none ht
  refine (Act.meets_of_ok hserve).mpr ⟨fun _ => ?_, fun hfree => ?_⟩
  · exact meets_halt.mpr ⟨hguarded, rfl⟩
  · have hnot : w.memory.isGuarded n = false := hfree
    rw [hguarded] at hnot
    cases hnot

theorem writePages_forsaken_meets (ht : w.monitor.thread = none) (start : Nat)
    (bytes : Array UInt8) (ns : List Nat) :
    (writePages start bytes ns).Meets w (fun _ _ => ∀ n ∈ ns, w.memory.isGuarded n = false)
      (fun e _ => e = .error (.halt .stalled) ∧ ∃ n ∈ ns, w.memory.isGuarded n = true) := by
  induction ns generalizing w with
  | nil => exact Act.meets_pure.mpr (by simp)
  | cons n ns ih =>
    simp only [writePages, Act.meets_bind]
    refine (claim_forsaken_meets ht n _).mono ?_ ?_
    · intro _ w' hclaimed
      obtain ⟨hfree, hsame⟩ := hclaimed
      rw [Act.meets_modify, hsame]
      refine (ih (w := { w with memory := w.memory.writePage start bytes n }) ht).mono ?_ ?_
      · intro _ _ hrest
        simpa [hfree] using hrest
      · rintro _ _ ⟨he, k, hk, hguarded⟩
        exact ⟨he, k, List.mem_cons_of_mem n hk, by simpa using hguarded⟩
    · rintro _ _ ⟨hguarded, he⟩
      exact ⟨he, n, List.mem_cons_self, hguarded⟩

/-- Without a thread exactly those writes wait for ever that reach a guarded page. -/
theorem write_stalls_iff (ht : w.monitor.thread = none) (start : Nat) (bytes : Array UInt8) :
    (∃ w', (write start bytes).on w = (.error (.error (.halt .stalled)), w')) ↔
      ∃ n ∈ Page.numbers start bytes.size, w.memory.isGuarded n = true := by
  have hwrite := writePages_forsaken_meets ht start bytes (Page.numbers start bytes.size)
  constructor
  · rintro ⟨w', hstalled⟩
    exact (hwrite.error hstalled).2
  · rintro ⟨n, hn, hguarded⟩
    have hstalls : (write start bytes).Meets w (fun _ _ => False)
        fun e _ => e = .error (.halt .stalled) := by
      apply hwrite.mono
      · intro _ _ hfree
        rw [hfree n hn] at hguarded
        cases hguarded
      · exact fun _ _ he => he.1
    obtain ⟨_, w', hon, rfl⟩ := hstalls.exists_error
    exact ⟨w', hon⟩

/-- What arming leaves that was denied a request about the region at a position. A pass over regions
that was not finished is left to teardown, which keeps none of it. -/
structure Denied (table : List Slot) (i : Nat) (stage : Stage) (w w' : Watch) : Prop where
  bytes : ∀ k, w'.memory.bytes? k = w.memory.bytes? k
  snapshot : w'.monitor.snapshot = w.monitor.snapshot
  thread : w'.monitor.thread = none
  state : w'.monitor.state = .failed
  guarded : ∀ n, w'.memory.isGuarded n = true ↔ w.memory.isGuarded n = true ∨
    w.memory.isMapped n = true ∧ stage = .protect ∧ Within (table.take i) n
  free : (∀ n, Within table n → w'.memory.isGuarded n = false) ↔
    (∀ n, Within table n → w.memory.isGuarded n = false) ∧ (stage = .protect → i = 0)
  writes : ∀ start bytes,
    (∃ w'', (write start bytes).on w' = (.error (.error (.halt .stalled)), w'')) ↔
      ∃ n ∈ Page.numbers start bytes.size, w'.memory.isGuarded n = true
  teardown : w.kernel.ReleasesAtOnce → ∃ w'', teardown.on w' = (.ok (), w'') ∧
    w''.monitor.state = .failed ∧ (∀ k, w''.memory.bytes? k = w.memory.bytes? k) ∧
    (w.kernel.Grants .unregister → ∀ n, w''.memory.isGuarded n = true →
      w.memory.isGuarded n = true)

theorem denied_forsaken (hf : Fresh w.monitor) (hs : Starts table w w₁)
    (hd : w₁.toMachine.Denies table i slot stage errno m) :
    Denied table i stage w (w₁.forsaken m i stage errno) := by
  obtain ⟨v, hv, hmonitor⟩ := hs.monitor hf
  obtain ⟨tracked, htracked, hm⟩ := hd.enlisted
  have hguarded := hd.isGuarded_iff
  have hfree := hd.free_iff
  have hrules : m.kernel.rules = w.kernel.rules :=
    hd.rules.trans (congrArg (·.kernel.rules) hs.machine)
  rw [hs.machine, Machine.memory_called] at hm hguarded hfree
  constructor
  case bytes => exact hm.bytes
  case snapshot => exact congrArg (·.snapshot) hmonitor
  case thread => rfl
  case state => rfl
  case guarded => exact hguarded
  case free => exact hfree
  case writes => exact write_stalls_iff rfl
  case teardown =>
    intro hk
    have harmed : w₁.monitor.armed = false := (congrArg (·.armed) hmonitor).trans hf.idle.2
    have hends := (teardown_unthreaded_meets (w := w₁.forsaken m i stage errno) rfl harmed
      (.inl rfl)).mono (fun _ _ h => h) fun _ _ he => he.2 (hk.of_rules hrules)
    obtain ⟨_, w', hdone, hsame, replies, hslots, hasked⟩ := hends.exists_ok
    have htable : replies.map (·.slot) = table :=
      hslots.trans ((congrArg (·.slots.items.toList) hmonitor).trans hv)
    refine ⟨w', hdone, congrArg (·.state) hsame, fun k => (hasked.bytes k).trans (hm.bytes k), ?_⟩
    intro hg n hn
    have hstill : m.memory.isGuarded n = true := hasked.guarded hn
    rcases (hguarded n).mp hstill with hbefore | ⟨hmapped, hstage, slot', hmem, hin⟩
    · exact hbefore
    · have hmem' : slot' ∈ table := List.mem_of_mem_take hmem
      rw [← htable] at hmem'
      obtain ⟨reply, hreply, rfl⟩ := List.mem_map.mp hmem'
      have henlistable : m.memory.Enlistable reply.slot.span := by
        refine ⟨hm.trackable _ (htracked hstage ▸ List.mem_of_mem_take hmem), n, ?_, hin⟩
        exact Memory.isMapped_of_isGuarded hstill
      have hgone := hasked.untracked_of_grants (hg.of_rules hrules) hreply henlistable
      have hplain := (hasked.isPlain hreply hgone hin).2
      rw [hplain] at hn
      cases hn

/-- Arming a monitor that was just set up reports the first request that the kernel denies, for
every table and wherever that is in it, and leaves no page of the table guarded exactly if no
request to guard was denied behind another. A request that is held back instead makes arming give up
waiting; and there is no third way for the setup to stop. -/
theorem arm_of_denies (hf : Fresh w.monitor) (hs : Starts table w w₁) (timeout : Duration) :
    (∀ i slot stage errno m, w₁.toMachine.Denies table i slot stage errno m → ∃ w',
      (arm table timeout).on w =
        (.error (.error (.failure (.registration slot.span stage errno))), w') ∧
      Denied table i stage w w') ∧
    (w₁.toMachine.Delays table → ∃ w' p,
      (arm table timeout).on w = (.error (.error (.failure (.armTimeout timeout))), w') ∧
      w'.monitor.thread = some ⟨p, true⟩) ∧
    ((∃ m m', w₁.toMachine.Accepts false table m ∧ m.Accepts true table m') ∨
      w₁.toMachine.Delays table ∨
      ∃ i slot stage errno m, w₁.toMachine.Denies table i slot stage errno m) := by
  refine ⟨fun i slot stage errno m hd => ?_, fun hd => ?_, w₁.toMachine.accepts_or_denies table⟩
  · obtain ⟨_, _, harm, rfl, rfl⟩ := (arm_denied_meets hf hs hd timeout).exists_error
    exact ⟨_, harm, denied_forsaken hf hs hd⟩
  · obtain ⟨_, w', harm, rfl, p, hp⟩ := (arm_delayed_meets hf hs hd timeout).exists_error
    exact ⟨w', p, harm, hp⟩

/-- Two pages, and a kernel that refuses to guard a second region. -/
def guardsOne : Watch :=
  { justBuilt with kernel := .scripted [⟨.protect, some [2], .refuse .busy⟩] }

theorem neighbour_ordered : 8192 ≤ 12288 := by decide

theorem neighbour_bounded : 12288 < Word.limit := by decide

/-- The two pages as regions of their own. -/
def neighbours : List Slot :=
  [⟨⟨4096, 8192, firstPage_ordered, firstPage_bounded⟩, .readWrite⟩,
    ⟨⟨8192, 12288, neighbour_ordered, neighbour_bounded⟩, .readWrite⟩]

theorem fresh_justBuilt : Fresh justBuilt.monitor := new_justBuilt.elim fun _ h => .new h

/-- The second page is not guarded; the first is, and a write to it waits for ever. -/
theorem arm_of_denies_guardsOne : ∃ w w' w'', Starts neighbours guardsOne w ∧
    (arm neighbours .zero).on guardsOne = (.error (.error (.failure
      (.registration ⟨8192, 12288, neighbour_ordered, neighbour_bounded⟩ .protect .busy))), w') ∧
    Denied neighbours 1 .protect guardsOne w' ∧ Within neighbours 1 ∧
    (write 4096 #[170]).on w' = (.error (.error (.halt .stalled)), w'') := by
  have hfresh : Fresh guardsOne.monitor := fresh_justBuilt
  let a : Span := ⟨4096, 8192, firstPage_ordered, firstPage_bounded⟩
  let b : Span := ⟨8192, 12288, neighbour_ordered, neighbour_bounded⟩
  let m := guardsOne.toMachine.called .startThread
  let m₁ := ((Machine.register a).on m).2
  let m₂ := ((Machine.register b).on m₁).2
  let m₃ := ((Machine.guard a).on m₂).2
  have hstarts : Starts neighbours guardsOne _ :=
    ⟨_, Act.on_of_result (by decide +kernel), Act.on_of_result (by decide +kernel)⟩
  have hfirst : ((Machine.register a).on m).1 = .ok .prompt := by decide +kernel
  have hsecond : ((Machine.register b).on m₁).1 = .ok .prompt := by decide +kernel
  have hthird : ((Machine.guard a).on m₂).1 = .ok .prompt := by decide +kernel
  have hlast : ((Machine.guard b).on m₃).1 = .error (.error .busy) := by decide +kernel
  have htracked : m.Accepts false neighbours m₂ :=
    .cons (Act.on_of_result hfirst) (.cons (Act.on_of_result hsecond) .nil)
  have hguarded : m₂.Accepts true (neighbours.take 1) m₃ :=
    .cons (Act.on_of_result hthird) .nil
  have hgets : (guardsOne.toMachine.called .startThread).GetsTo neighbours 1
      ⟨b, .readWrite⟩ true m₃ := .guard rfl htracked hguarded
  have hdenies : (guardsOne.toMachine.called .startThread).Denies neighbours 1
      ⟨b, .readWrite⟩ .protect .busy _ := ⟨true, m₃, rfl, hgets, Act.on_of_result hlast⟩
  rw [← hstarts.machine] at hdenies
  have harms := arm_of_denies hfresh hstarts .zero
  obtain ⟨w', harm, hdenied⟩ := harms.1 _ _ _ _ _ hdenies
  have hpage : guardsOne.memory.isMapped 1 = true ∧ Within (neighbours.take 1) 1 := by
    decide +kernel
  have hstays : w'.memory.isGuarded 1 = true :=
    (hdenied.guarded 1).mpr (.inr ⟨hpage.1, rfl, hpage.2⟩)
  obtain ⟨w'', hstalls⟩ := (hdenied.writes 4096 #[170]).mpr ⟨1, by decide, hstays⟩
  exact ⟨_, w', w'', hstarts, harm, hdenied, by decide, hstalls⟩

end Watch
end Rewind
