import Mathlib.Tactic
import Rewind.Span

/-! Spans as sets of addresses: which addresses the common part and the pieces left over hold, when
they are the whole span again, and that the operations on spans are those on sets. -/
namespace Rewind.Span

variable {s t : Span} {x : Nat}

/-- No address is in both spans. -/
def Apart (s t : Span) : Prop := ∀ x ∈ s, x ∉ t

theorem Apart.symm (h : s.Apart t) : t.Apart s := fun x ht hs => h x hs ht

theorem mem_intersect : x ∈ s.intersect t ↔ x ∈ s ∧ x ∈ t := by
  simp only [mem_def, intersect]
  omega

theorem not_mem_of_not_intersects (h : ¬s.intersects t = true) (hx : x ∈ s) : x ∉ t := by
  rw [intersects_iff] at h
  rw [mem_def] at *
  omega

theorem mem_subtract : (∃ piece ∈ s.subtract t, x ∈ piece) ↔ x ∈ s ∧ x ∉ t := by
  unfold subtract
  simp only [intersects_iff]
  split
  · by_cases hl : s.start < t.start <;> by_cases hr : t.stop < s.stop <;>
      simp [hl, hr, mem_def] <;> omega
  · simp only [List.mem_singleton, exists_eq_left, mem_def]
    omega

theorem subtract_inhabited (hs : s.start < s.stop) :
    ∀ piece ∈ s.subtract t, piece.start < piece.stop := by
  unfold subtract
  simp only [intersects_iff]
  split
  · by_cases hl : s.start < t.start <;> by_cases hr : t.stop < s.stop <;> simp [hl, hr]
  · simpa using hs

theorem subtract_pairwise_apart : (s.subtract t).Pairwise Apart := by
  unfold subtract
  have := t.ordered
  split
  · by_cases hl : s.start < t.start <;> by_cases hr : t.stop < s.stop <;>
      simp [hl, hr, Apart, mem_def]
    omega
  · simp

theorem intersect_eq_self (h : t.contains s = true) : s.intersect t = s := by
  rw [contains_iff] at h
  have := s.ordered
  cases s
  simp only [intersect, mk.injEq] at *
  omega

theorem contains_refl (s : Span) : s.contains s = true := by simp [contains]

theorem contains_trans {u : Span} (h : s.contains t = true) (h' : t.contains u = true) :
    s.contains u = true := by
  rw [contains_iff] at *
  omega

theorem contains_antisymm (h : s.contains t = true) (h' : t.contains s = true) : s = t := by
  rw [contains_iff] at h h'
  cases s
  cases t
  simp only [mk.injEq] at *
  omega

theorem contains_intersect (hi : s.intersects t = true) : s.contains (s.intersect t) = true := by
  rw [intersects_iff] at hi
  simp only [contains_iff, intersect]
  omega

theorem contains_of_mem_subtract {u : Span} (hu : u ∈ s.subtract t) : s.contains u = true := by
  unfold subtract at hu
  split at hu
  · next hi =>
    rw [intersects_iff] at hi
    rw [contains_iff]
    by_cases hl : s.start < t.start <;> by_cases hr : t.stop < s.stop <;> simp [hl, hr] at hu
    · rcases hu with rfl | rfl <;> simp only <;> omega
    · subst hu; simp only; omega
    · subst hu; simp only; omega
  · rw [List.mem_singleton.mp hu]
    exact contains_refl s

theorem ne_of_mem_subtract (hi : s.intersects t = true) {u : Span} (hu : u ∈ s.subtract t) :
    u ≠ s := by
  rw [intersects_iff] at hi
  intro hus
  have hs : max s.start t.start ∈ s := by rw [mem_def]; omega
  have ht : max s.start t.start ∈ t := by rw [mem_def]; omega
  exact (mem_subtract.mp ⟨u, hu, hus ▸ hs⟩).2 ht

theorem contains_of_intersect_eq_self (h : s.intersect t = s) (hi : s.intersects t = true) :
    t.contains s = true := by
  rw [intersects_iff] at hi
  have hstart : max s.start t.start = s.start := congrArg start h
  have hstop : max (max s.start t.start) (min s.stop t.stop) = s.stop := congrArg stop h
  rw [contains_iff]
  omega

theorem subtract_eq_nil (hi : s.intersects t = true) (h : t.contains s = true) :
    s.subtract t = [] := by
  rw [contains_iff] at h
  have hl : ¬s.start < t.start := by omega
  have hr : ¬t.stop < s.stop := by omega
  simp [subtract, hi, hl, hr]

theorem intersects_iff_exists : s.intersects t = true ↔ ∃ x, x ∈ s ∧ x ∈ t := by
  rw [intersects_iff]
  constructor
  · intro h
    refine ⟨max s.start t.start, ?_, ?_⟩ <;> rw [mem_def] <;> omega
  · intro ⟨x, hs, ht⟩
    rw [mem_def] at hs ht
    omega

theorem contains_iff_forall_mem (ht : t.start < t.stop) :
    s.contains t = true ↔ ∀ x ∈ t, x ∈ s := by
  rw [contains_iff]
  constructor
  · intro h x hx
    rw [mem_def] at *
    omega
  · intro h
    have hfirst := mem_def.mp (h t.start (mem_def.mpr ⟨le_rfl, ht⟩))
    have hlast := mem_def.mp (h (t.stop - 1) (mem_def.mpr (by omega)))
    omega

theorem length_subtract_le : (s.subtract t).length ≤ 2 := by
  unfold subtract
  split
  · by_cases hl : s.start < t.start <;> by_cases hr : t.stop < s.stop <;> simp [hl, hr]
  · simp

theorem subtract_pairwise_le : (s.subtract t).Pairwise fun u v => u.stop ≤ v.start := by
  unfold subtract
  have := t.ordered
  split
  · by_cases hl : s.start < t.start <;> by_cases hr : t.stop < s.stop <;> simp [hl, hr]
    omega
  · simp

/-- Nothing is lost and nothing counted twice. -/
theorem sum_size_subtract : ((s.subtract t).map size).sum + (s.intersect t).size = s.size := by
  have := s.ordered
  have := t.ordered
  unfold subtract
  simp only [intersects_iff, intersect, size]
  split
  · by_cases hl : s.start < t.start <;> by_cases hr : t.stop < s.stop <;> simp [hl, hr, size] <;>
      omega
  · simp only [List.map_cons, List.map_nil, List.sum_singleton, size]
    omega

section Checked

variable {start stop : Nat} {bounded : stop < Word.limit}

/-- The piece between two ends if anything is between them, made by the constructor that checks
their order. -/
def pieceBetween (start stop : Nat) (bounded : stop < Word.limit) : Except Fault (List Span) :=
  if start < stop then List.singleton <$> between start stop bounded else return []

/-- What is left of `s` once `t` is cut out, in checked pieces. -/
def cut (s t : Span) : Except Fault (List Span) := do
  if s.intersects t then
    let left ← pieceBetween s.start t.start (t.ordered.trans_lt t.bounded)
    let right ← pieceBetween t.stop s.stop s.bounded
    return left ++ right
  else return [s]

theorem pieceBetween_eq : pieceBetween start stop bounded =
    .ok (if h : start < stop then [⟨start, stop, h.le, bounded⟩] else []) := by
  unfold pieceBetween
  split
  · next h =>
    have hmake : between start stop bounded = .ok ⟨start, stop, h.le, bounded⟩ := dif_pos h.le
    rw [hmake]
    rfl
  · rfl

theorem cut_eq : s.cut t = .ok (s.subtract t) := by
  unfold cut subtract
  split
  · rw [pieceBetween_eq, pieceBetween_eq]
    rfl
  · rfl

end Checked

/-- The operations on two spans are those on the sets of their addresses, and none of them faults. -/
structure ActsOnSets (s t : Span) : Prop where
  mem_subtract : ∀ x, (∃ piece ∈ s.subtract t, x ∈ piece) ↔ x ∈ s ∧ x ∉ t
  length_subtract : (s.subtract t).length ≤ 2
  apart : (s.subtract t).Pairwise Apart
  ascending : (s.subtract t).Pairwise fun u v => u.stop ≤ v.start
  inhabited : s.start < s.stop → ∀ piece ∈ s.subtract t, piece.start < piece.stop
  sizes : ((s.subtract t).map size).sum + (s.intersect t).size = s.size
  mem_intersect : ∀ x, x ∈ s.intersect t ↔ x ∈ s ∧ x ∈ t
  intersects : s.intersects t = true ↔ ∃ x, x ∈ s ∧ x ∈ t
  contains : t.start < t.stop → (s.contains t = true ↔ ∀ x ∈ t, x ∈ s)
  checked : s.cut t = .ok (s.subtract t)
  /-- The difference that the size is does not leave the range of words. -/
  ordered : ∀ u ∈ s :: s.intersect t :: s.subtract t,
    u.start ≤ u.stop ∧ Word.sub u.stop u.start = .ok u.size

theorem acts_on_sets (s t : Span) : ActsOnSets s t where
  mem_subtract := fun _ => mem_subtract
  length_subtract := length_subtract_le
  apart := subtract_pairwise_apart
  ascending := subtract_pairwise_le
  inhabited := subtract_inhabited
  sizes := sum_size_subtract
  mem_intersect := fun _ => mem_intersect
  intersects := intersects_iff_exists
  contains := contains_iff_forall_mem
  checked := cut_eq
  ordered := fun u _ => ⟨u.ordered, Word.sub_eq_ok_iff.mpr ⟨u.ordered, rfl⟩⟩

end Rewind.Span
