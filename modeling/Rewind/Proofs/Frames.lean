import Mathlib.Tactic
import Rewind.Tracking.Requests

/-! Memory page by page: what every request and every write does to the frame of a page, and what
it leaves as it was. -/
namespace Rewind

namespace Page

theorem number_mul (n : Nat) : number (n * size) = n := Nat.mul_div_cancel _ size_pos

theorem number_mul_add (n : Nat) (i : Fin size) : number (n * size + i) = n := by
  have := i.isLt
  simp only [number, size] at *
  omega

theorem offset_mul_add (n : Nat) (i : Fin size) : offset (n * size + i) = i := by
  have := i.isLt
  apply Fin.ext
  simp only [offset, size] at *
  omega

theorem floor_eq (x : Nat) : floor x = number x * size := rfl

theorem isAligned_mul (n : Nat) : IsAligned (n * size) := Nat.mul_mod_left _ _

theorem IsAligned.mul_number {x : Nat} (h : IsAligned x) : number x * size = x :=
  Nat.div_mul_cancel (Nat.dvd_of_mod_eq_zero h)

theorem IsAligned.exists_mul {x : Nat} (h : IsAligned x) : ∃ n, x = n * size :=
  ⟨_, h.mul_number.symm⟩

theorem mul_inj {n k : Nat} : n * size = k * size ↔ n = k := Nat.mul_left_inj size_pos.ne'

theorem numbers_page (n : Nat) : numbers (n * size) size = [n] := by
  have h : n * size + size - 1 = n * size + ((⟨size - 1, by decide⟩ : Fin size) : Nat) := by
    simp only [size]; omega
  rw [numbers, if_neg size_pos.ne', h, number_mul_add, number_mul]
  simp

theorem mem_numbers {n start length : Nat} :
    n ∈ numbers start length ↔ 0 < length ∧ number start ≤ n ∧ n ≤ number (start + length - 1) := by
  unfold numbers
  split
  · next h => simp [h]
  · next h =>
    have hle : number start ≤ number (start + length - 1) :=
      Nat.div_le_div_right (by omega)
    rw [List.mem_range'_1]
    omega

theorem number_max_of_mem_numbers {n start length : Nat} (h : n ∈ numbers start length) :
    number (max start (n * size)) = n := by
  obtain ⟨hpos, hlow, -⟩ := mem_numbers.mp h
  simp only [number, size] at *
  omega

end Page

namespace Span

theorem ofLength_eq_ok {start length : Nat} {s : Span} (h : ofLength start length = .ok s) :
    s.start = start ∧ s.stop = start + length := by
  unfold ofLength at h
  split at h
  · simp only [Except.ok.injEq] at h
    subst h
    exact ⟨rfl, rfl⟩
  · simp at h

theorem ofLength_isOk {start length : Nat} (h : start + length < Word.limit) :
    ∃ s, ofLength start length = .ok s := by
  unfold ofLength
  rw [dif_pos h]
  exact ⟨_, rfl⟩

theorem mem_page_iff {n k : Nat} {s : Span} (h : ofLength (n * Page.size) Page.size = .ok s) :
    k * Page.size ∈ s ↔ k = n := by
  obtain ⟨h1, h2⟩ := ofLength_eq_ok h
  rw [mem_def, h1, h2]
  simp only [Page.size]
  omega

end Span

namespace Memory

/-- The page is registered for write faults. -/
def isTracked (m : Memory) (n : Nat) : Bool := (m.frame? n).any (·.tracked)

/-- The bytes of a mapped page. -/
def bytes? (m : Memory) (n : Nat) : Option Page.Bytes := (m.frame? n).map (·.bytes)

theorem isGuarded_eq (m : Memory) (n : Nat) : m.isGuarded n = (m.frame? n).any (·.guarded) := by
  unfold isGuarded
  cases m.frame? n <;> rfl

theorem isMapped_of_isTracked {m : Memory} {n : Nat} (h : m.isTracked n = true) :
    m.isMapped n = true := by
  unfold isTracked at h
  unfold isMapped
  cases hf : m.frame? n <;> simp_all

theorem exists_bytes?_of_isMapped {m : Memory} {n : Nat} (h : m.isMapped n = true) :
    ∃ b, m.bytes? n = some b := by
  obtain ⟨f, hf⟩ := Option.isSome_iff_exists.mp h
  exact ⟨f.bytes, by rw [bytes?, hf]; rfl⟩

theorem frame?_adjust (m : Memory) (n k : Nat) (f : Frame → Frame) :
    (m.adjust n f).frame? k = if k = n then (m.frame? n).map f else m.frame? k := by
  unfold adjust
  split
  · next frame hf =>
    by_cases h : k = n
    · simp [h, hf]
    · rw [frame?_put_of_ne _ _ h, if_neg h]
  · next hf =>
    split
    · next h => rw [h, hf]; rfl
    · rfl

/-- Adjusting pages one after another, where a second time changes nothing more. -/
theorem frame?_foldl_adjust (ns : List Nat) (m : Memory) (k : Nat) {f : Frame → Frame}
    (hf : ∀ x, f (f x) = f x) :
    (ns.foldl (fun m n => m.adjust n f) m).frame? k =
      if k ∈ ns then (m.frame? k).map f else m.frame? k := by
  induction ns generalizing m with
  | nil => simp
  | cons n ns ih =>
    rw [List.foldl_cons, ih, frame?_adjust]
    by_cases hk : k = n
    · subst hk
      simp [Option.map_map, Function.comp_def, hf]
    · simp [hk]

theorem mem_pagesIn {m : Memory} {s : Span} {n : Nat} :
    n ∈ m.pagesIn s ↔ m.isMapped n = true ∧ n * Page.size ∈ s := by
  simp only [pagesIn, List.mem_filter, Bool.and_eq_true, decide_eq_true_eq, Span.mem_def, isMapped,
    frame?, Std.TreeMap.mem_keys, Std.TreeMap.mem_iff_isSome_getElem?]

theorem frame?_setTracked_of_ok {m : Memory} {s : Span} {tracked : Bool}
    (h : (m.setTracked s tracked).1 = .ok ()) (k : Nat) :
    (m.setTracked s tracked).2.frame? k =
      if k * Page.size ∈ s then
        (m.frame? k).map fun f => { f with tracked := tracked, guarded := tracked && f.guarded }
      else m.frame? k := by
  unfold setTracked at h ⊢
  split at h
  · simp at h
  · next ht =>
    rw [if_neg ht]
    split at h
    · simp at h
    · next pages hp =>
      dsimp only
      rw [frame?_foldl_adjust _ _ _ (by intro x; cases tracked <;> rfl)]
      by_cases hk : k * Page.size ∈ s
      · rw [if_pos hk]
        split
        · rfl
        · next hmem =>
          have hnone : m.frame? k = none := by
            simpa [mem_pagesIn, hk, isMapped] using hmem
          rw [hnone]; rfl
      · rw [if_neg hk, if_neg]
        exact fun hmem => hk (mem_pagesIn.mp hmem).2

theorem isTrackable_of_setTracked_ok {m : Memory} {s : Span} {tracked : Bool}
    (h : (m.setTracked s tracked).1 = .ok ()) : IsTrackable s := by
  by_contra ht
  rw [setTracked, if_pos ht] at h
  simp at h

theorem setGuardedPages_of_not_tracked {guarded : Bool} {n : Nat} {ns : List Nat} {m : Memory}
    (h : m.isTracked n = false) : setGuardedPages guarded (n :: ns) m = (.error .noent, m) := by
  unfold isTracked at h
  cases hf : m.frame? n with
  | none => simp [setGuardedPages, hf]
  | some f => simp_all [setGuardedPages]

theorem setGuardedPages_of_tracked {guarded : Bool} {n : Nat} {ns : List Nat} {m : Memory}
    (h : m.isTracked n = true) : setGuardedPages guarded (n :: ns) m =
      setGuardedPages guarded ns (m.adjust n fun f => { f with guarded := guarded }) := by
  unfold isTracked at h
  cases hf : m.frame? n <;> simp_all [setGuardedPages, adjust]

theorem isTracked_adjust_guarded (m : Memory) (n k : Nat) (guarded : Bool) :
    (m.adjust n fun f => { f with guarded := guarded }).isTracked k = m.isTracked k := by
  rw [isTracked, frame?_adjust]
  by_cases h : k = n
  · subst h
    simp [isTracked, Option.any_map]
  · simp [isTracked, h]

/-- Guarding goes through the pages in order and stops at the first that is not tracked. -/
theorem setGuardedPages_spec (guarded : Bool) (ns : List Nat) (m : Memory) :
    ∃ done rest, ns = done ++ rest ∧ (∀ n ∈ done, m.isTracked n = true) ∧
      (∀ k, (setGuardedPages guarded ns m).2.frame? k =
        if k ∈ done then (m.frame? k).map fun f => { f with guarded := guarded }
        else m.frame? k) ∧
      ((setGuardedPages guarded ns m).1 = .ok () ∧ rest = [] ∨
        (setGuardedPages guarded ns m).1 = .error .noent ∧
          ∃ n ns', rest = n :: ns' ∧ m.isTracked n = false) := by
  induction ns generalizing m with
  | nil => exact ⟨[], [], rfl, by simp, by simp [setGuardedPages], .inl ⟨rfl, rfl⟩⟩
  | cons n ns ih =>
    cases ht : m.isTracked n with
    | false =>
      rw [setGuardedPages_of_not_tracked ht]
      exact ⟨[], n :: ns, rfl, by simp, by simp, .inr ⟨rfl, n, ns, rfl, ht⟩⟩
    | true =>
      rw [setGuardedPages_of_tracked ht]
      have hrest := ih (m.adjust n fun f => { f with guarded := guarded })
      obtain ⟨done, rest, hns, hdone, hframe, hend⟩ := hrest
      simp only [isTracked_adjust_guarded] at hdone hend
      refine ⟨n :: done, rest, by rw [hns]; rfl, by simpa [ht] using hdone, fun k => ?_, hend⟩
      rw [hframe, frame?_adjust]
      by_cases hk : k = n
      · simp [hk, Option.map_map, Function.comp_def]
      · simp [hk]

/-- A granted request to guard reaches all mapped pages of the span, and there are some. A refused
one may have reached some of them, if another is not tracked. -/
theorem setGuarded_spec (guarded : Bool) (s : Span) (m : Memory) :
    ∃ done : List Nat, (∀ n ∈ done, n ∈ m.pagesIn s ∧ m.isTracked n = true) ∧
      (∀ k, (m.setGuarded s guarded).2.frame? k =
        if k ∈ done then (m.frame? k).map fun f => { f with guarded := guarded }
        else m.frame? k) ∧
      ((m.setGuarded s guarded).1 = .ok () ∧ done = m.pagesIn s ∧ done ≠ [] ∧ IsTrackable s ∨
        ∃ e, (m.setGuarded s guarded).1 = .error e ∧
          (done = [] ∨ ∃ n ∈ m.pagesIn s, m.isTracked n = false)) := by
  unfold setGuarded
  split
  · exact ⟨[], by simp, by simp, .inr ⟨_, rfl, .inl rfl⟩⟩
  · next ht =>
    split
    · exact ⟨[], by simp, by simp, .inr ⟨_, rfl, .inl rfl⟩⟩
    · next pages hp =>
      obtain ⟨done, rest, hns, hdone, hframe, hend⟩ := setGuardedPages_spec guarded (m.pagesIn s) m
      refine ⟨done, fun n hn => ⟨by simp [hns, hn], hdone n hn⟩, hframe, ?_⟩
      rcases hend with ⟨hok, rfl⟩ | ⟨he, n, ns', rfl, hn⟩
      · rw [List.append_nil] at hns
        exact .inl ⟨hok, hns.symm, by rw [← hns]; exact hp, not_not.mp ht⟩
      · exact .inr ⟨_, he, .inr ⟨n, by simp [hns], hn⟩⟩

theorem frame?_setGuarded_of_ok {m : Memory} {s : Span} {guarded : Bool}
    (h : (m.setGuarded s guarded).1 = .ok ()) (k : Nat) :
    (m.setGuarded s guarded).2.frame? k =
      if k * Page.size ∈ s then (m.frame? k).map fun f => { f with guarded := guarded }
      else m.frame? k := by
  rcases setGuarded_spec guarded s m with ⟨done, -, hframe, ⟨-, rfl, -⟩ | ⟨e, he, -⟩⟩
  · rw [hframe]
    cases hf : m.frame? k <;> simp [mem_pagesIn, isMapped, hf]
  · rw [h] at he; simp at he

/-- Guard a page, or stop guarding it. -/
def mark (m : Memory) (n : Nat) (guarded : Bool) : Memory :=
  m.adjust n fun f => { f with guarded := guarded }

theorem frame?_mark (m : Memory) (n k : Nat) (guarded : Bool) :
    (m.mark n guarded).frame? k =
      if k = n then (m.frame? n).map fun f => { f with guarded := guarded } else m.frame? k :=
  frame?_adjust _ _ _ _

@[simp] theorem isTracked_mark (m : Memory) (n k : Nat) (guarded : Bool) :
    (m.mark n guarded).isTracked k = m.isTracked k := isTracked_adjust_guarded _ _ _ _

@[simp] theorem bytes?_mark (m : Memory) (n k : Nat) (guarded : Bool) :
    (m.mark n guarded).bytes? k = m.bytes? k := by
  rw [bytes?, frame?_mark]
  by_cases h : k = n
  · subst h
    simp [bytes?, Option.map_map, Function.comp_def]
  · simp [bytes?, h]

theorem isGuarded_mark (m : Memory) (n k : Nat) (guarded : Bool) :
    (m.mark n guarded).isGuarded k =
      if k = n then m.isMapped n && guarded else m.isGuarded k := by
  rw [isGuarded_eq, frame?_mark]
  by_cases h : k = n
  · subst h
    cases hf : m.frame? k <;> simp [isMapped, hf]
  · simp [h, isGuarded_eq]

/-- Guard pages one after another. -/
def guardAll (m : Memory) (ns : List Nat) : Memory := ns.foldl (fun m n => m.mark n true) m

theorem frame?_guardAll (m : Memory) (ns : List Nat) (k : Nat) :
    (m.guardAll ns).frame? k =
      if k ∈ ns then (m.frame? k).map fun f => { f with guarded := true } else m.frame? k :=
  frame?_foldl_adjust ns m k fun _ => rfl

@[simp] theorem isTracked_guardAll (m : Memory) (ns : List Nat) (k : Nat) :
    (m.guardAll ns).isTracked k = m.isTracked k := by
  rw [isTracked, frame?_guardAll]
  split
  · simp [isTracked, Option.any_map]
  · rfl

@[simp] theorem bytes?_guardAll (m : Memory) (ns : List Nat) (k : Nat) :
    (m.guardAll ns).bytes? k = m.bytes? k := by
  rw [bytes?, frame?_guardAll]
  split
  · simp [bytes?, Option.map_map, Function.comp_def]
  · rfl

theorem isGuarded_guardAll (m : Memory) (ns : List Nat) (k : Nat) :
    (m.guardAll ns).isGuarded k = if k ∈ ns then m.isMapped k else m.isGuarded k := by
  rw [isGuarded_eq, frame?_guardAll]
  split
  · cases hf : m.frame? k <;> simp [isMapped, hf]
  · rw [isGuarded_eq]

theorem pagesIn_page {m : Memory} {n : Nat} {s : Span}
    (hs : Span.ofLength (n * Page.size) Page.size = .ok s) :
    m.pagesIn s = if m.isMapped n then [n] else [] := by
  have hnodup : (m.pagesIn s).Nodup := (Std.TreeMap.nodup_keys).filter _
  have hmem (k : Nat) : k ∈ m.pagesIn s ↔ m.isMapped n = true ∧ k = n := by
    rw [mem_pagesIn, Span.mem_page_iff hs]
    exact ⟨fun ⟨h, e⟩ => ⟨e ▸ h, e⟩, fun ⟨h, e⟩ => ⟨e ▸ h, e⟩⟩
  split
  · next h =>
    have hperm : (m.pagesIn s).Perm [n] :=
      (List.perm_ext_iff_of_nodup hnodup (List.nodup_singleton n)).mpr (by simp [hmem, h])
    exact List.perm_singleton.mp hperm
  · next h => exact List.eq_nil_iff_forall_not_mem.mpr fun k hk => h ((hmem k).mp hk).1

theorem isTrackable_page {n : Nat} {s : Span} (hs : Span.ofLength (n * Page.size) Page.size = .ok s)
    (hl : n * Page.size + Page.size ≤ Mapping.limit) : IsTrackable s := by
  obtain ⟨h1, h2⟩ := Span.ofLength_eq_ok hs
  refine ⟨by rw [h1]; exact Page.isAligned_mul n, ?_, ?_, by omega⟩
  · rw [Span.size, h1, h2, Nat.add_sub_cancel_left]; decide
  · rw [Span.size, h1, h2, Nat.add_sub_cancel_left]; decide

theorem setGuarded_page_of_tracked {m : Memory} {n : Nat} {s : Span} (guarded : Bool)
    (hs : Span.ofLength (n * Page.size) Page.size = .ok s) (ht : m.isTracked n = true)
    (hl : n * Page.size + Page.size ≤ Mapping.limit) :
    m.setGuarded s guarded = (.ok (), m.mark n guarded) := by
  rw [setGuarded, if_neg (not_not.mpr (isTrackable_page hs hl)), pagesIn_page hs,
    if_pos (isMapped_of_isTracked ht)]
  exact setGuardedPages_of_tracked ht

theorem setGuarded_page_of_not_tracked {m : Memory} {n : Nat} {s : Span} (guarded : Bool)
    (hs : Span.ofLength (n * Page.size) Page.size = .ok s) (ht : m.isTracked n = false)
    (hl : n * Page.size + Page.size ≤ Mapping.limit) :
    m.setGuarded s guarded = (.error .noent, m) := by
  rw [setGuarded, if_neg (not_not.mpr (isTrackable_page hs hl)), pagesIn_page hs]
  by_cases hmap : m.isMapped n = true
  · rw [if_pos hmap]
    exact setGuardedPages_of_not_tracked ht
  · rw [if_neg hmap]

/-- A request about one page reaches it or changes nothing. -/
theorem setGuarded_page (m : Memory) {n : Nat} {s : Span} (guarded : Bool)
    (hs : Span.ofLength (n * Page.size) Page.size = .ok s) :
    m.setGuarded s guarded = (.ok (), m.mark n guarded) ∨
      ∃ e, m.setGuarded s guarded = (.error e, m) := by
  unfold setGuarded
  split
  · exact .inr ⟨_, rfl⟩
  · rw [pagesIn_page hs]
    split
    · exact .inr ⟨_, rfl⟩
    · next h =>
      split at h
      · cases ht : m.isTracked n with
        | true => exact .inl (by rw [if_pos ‹_›, setGuardedPages_of_tracked ht]; rfl)
        | false => exact .inr ⟨_, by rw [if_pos ‹_›, setGuardedPages_of_not_tracked ht]⟩
      · exact absurd rfl h

theorem frame?_writePage (m : Memory) (start : Nat) (bytes : Array UInt8) (n k : Nat) :
    (m.writePage start bytes n).frame? k =
      if k = n then (m.frame? n).map fun f => Frame.overlay f n start bytes else m.frame? k :=
  frame?_adjust _ _ _ _

@[simp] theorem isTracked_writePage (m : Memory) (start : Nat) (bytes : Array UInt8) (n k : Nat) :
    (m.writePage start bytes n).isTracked k = m.isTracked k := by
  rw [isTracked, frame?_writePage]
  by_cases h : k = n
  · subst h
    simp [isTracked, Option.any_map, Frame.overlay]
  · simp [isTracked, h]

@[simp] theorem isGuarded_writePage (m : Memory) (start : Nat) (bytes : Array UInt8) (n k : Nat) :
    (m.writePage start bytes n).isGuarded k = m.isGuarded k := by
  rw [isGuarded_eq, isGuarded_eq, frame?_writePage]
  by_cases h : k = n
  · subst h
    simp [Option.any_map, Frame.overlay]
  · simp [h]

@[simp] theorem isTracked_write (m : Memory) (start : Nat) (bytes : Array UInt8) (k : Nat) :
    (m.write start bytes).isTracked k = m.isTracked k := by
  unfold write
  induction Page.numbers start bytes.size generalizing m with
  | nil => rfl
  | cons n ns ih => rw [List.foldl_cons, ih, isTracked_writePage]

@[simp] theorem isGuarded_write (m : Memory) (start : Nat) (bytes : Array UInt8) (k : Nat) :
    (m.write start bytes).isGuarded k = m.isGuarded k := by
  unfold write
  induction Page.numbers start bytes.size generalizing m with
  | nil => rfl
  | cons n ns ih => rw [List.foldl_cons, ih, isGuarded_writePage]

theorem bytes?_writePage_of_ne {m : Memory} {start : Nat} {bytes : Array UInt8} {n k : Nat}
    (h : k ≠ n) : (m.writePage start bytes n).bytes? k = m.bytes? k := by
  rw [bytes?, frame?_writePage, if_neg h, bytes?]

theorem byte_eq (m : Memory) (x : Nat) :
    m.byte x = ((m.bytes? (Page.number x)).map (·.get (Page.offset x))).getD 0 := by
  unfold byte bytes?
  cases m.frame? (Page.number x) <;> rfl

@[simp] theorem byte_mark (m : Memory) (n : Nat) (guarded : Bool) (x : Nat) :
    (m.mark n guarded).byte x = m.byte x := by
  rw [byte_eq, byte_eq, bytes?_mark]

@[simp] theorem read_mark (m : Memory) (n : Nat) (guarded : Bool) (x length : Nat) :
    (m.mark n guarded).read x length = m.read x length := by
  simp only [read_eq, byte_mark]

theorem byte_mul_add (m : Memory) (n : Nat) (i : Fin Page.size) :
    m.byte (n * Page.size + i) = ((m.bytes? n).map (·.get i)).getD 0 := by
  rw [byte_eq, Page.number_mul_add, Page.offset_mul_add]

theorem read_page {m : Memory} {n : Nat} {b : Page.Bytes} (h : m.bytes? n = some b) :
    m.read (n * Page.size) Page.size = b.toArray := by
  rw [read_eq]
  apply Array.ext
  · simp
  · intro i hi _
    rw [Array.size_ofFn] at hi
    have := byte_mul_add m n ⟨i, hi⟩
    simp only [h, Option.map_some, Option.getD_some] at this
    simp [this, Vector.get]

end Memory

theorem Frame.overlay_page (f : Frame) (n : Nat) (b : Page.Bytes) :
    Memory.Frame.overlay f n (n * Page.size) b.toArray = { f with bytes := b } := by
  have byte (i : Fin Page.size) : (if n * Page.size ≤ n * Page.size + i then
      b.toArray.getD (n * Page.size + i - n * Page.size) (f.bytes.get i) else f.bytes.get i) =
      b.get i := by
    rw [if_pos (Nat.le_add_right _ _), Nat.add_sub_cancel_left]
    simp [Array.getD, Vector.get]
  have bytes : (Vector.ofFn fun i : Fin Page.size => b.get i) = b := by
    apply Vector.ext
    intro i hi
    simp [Vector.get]
  simp only [Memory.Frame.overlay, byte, bytes]

namespace Memory

/-- The byte that stands at an address once a run of bytes has landed there. -/
def landed (m : Memory) (start : Nat) (bytes : Array UInt8) (x : Nat) : UInt8 :=
  if start ≤ x then bytes.getD (x - start) (m.byte x) else m.byte x

theorem byte_writePage {m : Memory} {n : Nat} (h : m.isMapped n = true) (start : Nat)
    (bytes : Array UInt8) (x : Nat) :
    (m.writePage start bytes n).byte x =
      if Page.number x = n then m.landed start bytes x else m.byte x := by
  by_cases hx : Page.number x = n
  · subst hx
    obtain ⟨f, hf⟩ := Option.isSome_iff_exists.mp h
    have haddress : Page.number x * Page.size + Page.offset x = x := Nat.div_add_mod' x Page.size
    have hget : (Frame.overlay f (Page.number x) start bytes).bytes.get (Page.offset x) =
        if start ≤ x then bytes.getD (x - start) (f.bytes.get (Page.offset x))
        else f.bytes.get (Page.offset x) := by
      show (Vector.ofFn _)[(Page.offset x : Nat)] = _
      rw [Vector.getElem_ofFn, Fin.eta, haddress]
    simp only [landed, byte, frame?_writePage, hf, if_true, Option.map_some, hget]
  · rw [if_neg hx, byte_eq, byte_eq, bytes?_writePage_of_ne hx]

/-- On these pages a run of bytes has landed, and nothing else has changed. -/
def Lands (start : Nat) (bytes : Array UInt8) (ns : List Nat) (m m' : Memory) : Prop :=
  ∀ x, m'.byte x = if Page.number x ∈ ns then m.landed start bytes x else m.byte x

theorem Lands.append {start : Nat} {bytes : Array UInt8} {ns ks : List Nat} {m m' m'' : Memory}
    (h : m.Lands start bytes ns m') (h' : m'.Lands start bytes ks m'') :
    m.Lands start bytes (ns ++ ks) m'' := by
  intro x
  have hagain : m'.landed start bytes x = m.landed start bytes x := by
    unfold landed
    rw [h x]
    unfold landed
    by_cases hs : start ≤ x
    · by_cases hb : x - start < bytes.size <;> simp [hs, hb, Array.getD]
    · simp [hs]
  rw [h' x, hagain, h x]
  by_cases hn : Page.number x ∈ ns <;> by_cases hk : Page.number x ∈ ks <;> simp [hn, hk]

/-- A run of bytes that has landed on all pages that it touches stands in memory. -/
theorem Lands.byte {start : Nat} {bytes : Array UInt8} {m m' : Memory}
    (h : m.Lands start bytes (Page.numbers start bytes.size) m') (x : Nat) :
    m'.byte x = m.landed start bytes x := by
  rw [h x]
  split
  · rfl
  · next hout =>
    unfold landed
    split
    · next hs =>
      have hend : ¬x - start < bytes.size := by
        intro hlt
        apply hout
        refine Page.mem_numbers.mpr ⟨by omega, Nat.div_le_div_right hs, ?_⟩
        apply Nat.div_le_div_right
        omega
      simp [Array.getD, hend]
    · rfl

theorem frame?_write_page (m : Memory) (n k : Nat) (b : Page.Bytes) :
    (m.write (n * Page.size) b.toArray).frame? k =
      if k = n then (m.frame? k).map fun f => { f with bytes := b } else m.frame? k := by
  have hsize : b.toArray.size = Page.size := b.size_toArray
  rw [write, hsize, Page.numbers_page, List.foldl_cons, List.foldl_nil, frame?_writePage]
  by_cases h : k = n
  · subst h
    simp only [Frame.overlay_page]
  · rw [if_neg h, if_neg h]

end Memory

end Rewind
