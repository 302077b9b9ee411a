import Rewind.Proofs.Rounding

/-! Doubling: how often a capacity is doubled until it is enough, and how tight the capacity is that
an array moves to. -/
namespace Rewind.PrivateArray

variable {width capacity needed enough : Nat}

section Turns

/-- Doubling ends with the first capacity that is enough. -/
theorem doubleUntil_turns (hpos : 0 < capacity) (hword : 2 * needed ≤ Word.limit) :
    ∃ turns, IsLeast {k | needed ≤ capacity * 2 ^ k} turns ∧
      doubleUntil needed capacity = .ok (capacity * 2 ^ turns) := by
  fun_induction doubleUntil needed capacity with
  | case1 capacity hlt hdouble ih =>
    obtain ⟨turns, ⟨henough, hleast⟩, hturns⟩ := ih (by omega)
    -- Exponents for twice the capacity are those for the capacity, less one.
    have hshift : ∀ k, capacity * 2 * 2 ^ k = capacity * 2 ^ (k + 1) := by
      intro k
      rw [Nat.pow_succ']
      exact Nat.mul_assoc capacity 2 (2 ^ k)
    refine ⟨turns + 1, ⟨?_, ?_⟩, ?_⟩
    · exact henough.trans (hshift turns).le
    · intro k hk
      cases k with
      | zero =>
        have hnow : needed ≤ capacity := by simpa using hk
        omega
      | succ k => exact Nat.succ_le_succ (hleast (hk.trans (hshift k).ge))
    · rw [hturns, hshift]
  | case2 capacity hlt hdouble => omega
  | case3 capacity hdone =>
    refine ⟨0, ⟨?_, fun k _ => Nat.zero_le k⟩, ?_⟩
    · show needed ≤ capacity * 2 ^ 0
      omega
    · simp

/-- A word is reached in less than 64 turns. -/
theorem turns_lt {turns : Nat} (hpos : 0 < capacity) (hword : 2 * needed ≤ Word.limit)
    (h : IsLeast {k | needed ≤ capacity * 2 ^ k} turns) : turns < 64 := by
  have hlimit : Word.limit = 2 * 2 ^ 63 := by decide
  have hsize : 2 ^ 63 ≤ capacity * 2 ^ 63 := Nat.le_mul_of_pos_left _ hpos
  have henough : needed ≤ capacity * 2 ^ 63 := by omega
  exact Nat.lt_succ_of_le (h.2 henough)

theorem doubleUntil_mono {fewer a b : Nat} (hpos : 0 < capacity) (hword : 2 * needed ≤ Word.limit)
    (hle : fewer ≤ needed) (ha : doubleUntil fewer capacity = .ok a)
    (hb : doubleUntil needed capacity = .ok b) : a ≤ b := by
  obtain ⟨turns, hleast, hturns⟩ := doubleUntil_turns hpos (show 2 * fewer ≤ Word.limit by omega)
  obtain ⟨turns', hleast', hturns'⟩ := doubleUntil_turns hpos hword
  obtain rfl := Except.ok.inj (ha.symm.trans hturns)
  obtain rfl := Except.ok.inj (hb.symm.trans hturns')
  have hsub : {k | needed ≤ capacity * 2 ^ k} ⊆ {k | fewer ≤ capacity * 2 ^ k} :=
    fun _ hk => hle.trans hk
  exact Nat.mul_le_mul_left capacity (Nat.pow_le_pow_right Nat.two_pos (hleast'.mono hleast hsub))

end Turns

/-- The capacity that doubling starts with: a page's worth of elements, and at least one. -/
def initial (width capacity : Nat) : Nat := max capacity (max (Page.size / width) 1)

/-- The largest of the numbers that a capacity is chosen by. -/
def demand (width capacity needed : Nat) : Nat := max needed (initial width capacity)

/-- A capacity that is enough, at least a page's worth, and no less than its pages have room for. -/
structure Tight (width capacity needed r : Nat) : Prop where
  needed_le : needed ≤ r
  capacity_le : capacity ≤ r
  page_le : max 1 (Page.size / width) ≤ r
  /-- One element more does not fit into the whole pages that hold them. -/
  filled : ∃ bytes, Page.ceil (r * width) = .ok bytes ∧ IsGreatest {k | k * width ≤ bytes} r ∧
    bytes < r * width + width
  bytes_lt : r * width < 2 * demand width capacity needed * width + Page.size

theorem isGreatest_div (hw : 0 < width) (bytes : Nat) :
    IsGreatest {k | k * width ≤ bytes} (bytes / width) := by
  constructor
  · exact Nat.div_mul_le_self bytes width
  · intro k hk
    exact (Nat.le_div_iff_mul_le hw).mpr hk

/-- Pages that are filled up with elements are the whole pages that hold these elements. -/
theorem ceil_div_mul (hw : 0 < width) {bytes : Nat} (h : Page.ceil (enough * width) = .ok bytes)
    (hword : bytes + Page.size < Word.limit) : Page.ceil (bytes / width * width) = .ok bytes := by
  obtain ⟨hle, -, haligned⟩ := Page.ceil_spec h
  have hfill : bytes / width * width ≤ bytes := Nat.div_mul_le_self bytes width
  have hmore : enough * width ≤ bytes / width * width :=
    Nat.mul_le_mul_right width ((isGreatest_div hw bytes).2 hle)
  obtain ⟨whole, hwhole⟩ := Page.ceil_isOk (show bytes / width * width + Page.size < Word.limit by
    omega)
  -- Filling up neither needs another page nor leaves one empty.
  have hleast := (Page.isLeast_ceil hwhole).2 ⟨haligned, hfill⟩
  rw [hwhole, le_antisymm hleast (Page.ceil_mono hmore h hwhole)]

/-- A capacity is chosen without overflow where twice the demand and two pages are words. -/
theorem exists_tight (hw : 0 < width)
    (h : 2 * demand width capacity needed * width + 2 * Page.size < Word.limit) :
    ∃ r, nextCapacity width capacity needed = .ok r ∧ Tight width capacity needed r := by
  have hinitial : initial width capacity ≤ demand width capacity needed := le_max_right _ _
  have hneeded : needed ≤ demand width capacity needed := le_max_left _ _
  have hpos : 0 < initial width capacity := by unfold initial; omega
  have hbytes : 2 * demand width capacity needed ≤ 2 * demand width capacity needed * width :=
    Nat.le_mul_of_pos_right _ hw
  obtain ⟨enough, hdouble⟩ := doubleUntil_isOk (initial width capacity)
    (show 2 * needed < Word.limit by omega)
  obtain ⟨hge, hstart, hlast⟩ := doubleUntil_spec hdouble hpos
  have hlt : enough * width < 2 * demand width capacity needed * width :=
    Nat.mul_lt_mul_of_pos_right (by omega) hw
  obtain ⟨bytes, hceil⟩ := Page.ceil_isOk (show enough * width + Page.size < Word.limit by omega)
  obtain ⟨hround, hpage, -⟩ := Page.ceil_spec hceil
  have hfill : bytes / width * width ≤ bytes := Nat.div_mul_le_self bytes width
  have hmore : enough ≤ bytes / width := (isGreatest_div hw bytes).2 hround
  have hword : enough * width < Word.limit := by omega
  refine ⟨bytes / width, nextCapacity_eq_ok_iff.mpr ⟨enough, bytes, hdouble, hword, hceil, rfl⟩, ?_⟩
  unfold initial at hstart
  exact {
    needed_le := hge.trans hmore
    capacity_le := by omega
    page_le := by omega
    filled := ⟨bytes, ceil_div_mul hw hceil (by omega), isGreatest_div hw bytes,
      Nat.lt_div_mul_add hw⟩
    bytes_lt := by omega }

theorem nextCapacity_mono {fewer a b : Nat} (hword : 2 * needed ≤ Word.limit)
    (hle : fewer ≤ needed) (ha : nextCapacity width capacity fewer = .ok a)
    (hb : nextCapacity width capacity needed = .ok b) : a ≤ b := by
  obtain ⟨enough, bytes, hdouble, -, hceil, rfl⟩ := nextCapacity_eq_ok_iff.mp ha
  obtain ⟨enough', bytes', hdouble', -, hceil', rfl⟩ := nextCapacity_eq_ok_iff.mp hb
  have hpos : 0 < max capacity (max (Page.size / width) 1) := by omega
  have henough : enough * width ≤ enough' * width :=
    Nat.mul_le_mul_right width (doubleUntil_mono hpos hword hle hdouble hdouble')
  exact Nat.div_le_div_right (Page.ceil_mono henough hceil hceil')

/-- Where twice the demand and two pages are words, doubling ends in less than 64 turns, with the
first capacity that is enough and without overflow; and the capacity that an array moves to is
tight, and no smaller than what fewer elements would need. -/
theorem nextCapacity_tight (width capacity needed : Nat) (hw : 0 < width)
    (h : 2 * demand width capacity needed * width + 2 * Page.size < Word.limit) :
    (∃ turns < 64, IsLeast {k | needed ≤ initial width capacity * 2 ^ k} turns ∧
      doubleUntil needed (initial width capacity) = .ok (initial width capacity * 2 ^ turns)) ∧
    ∃ r, nextCapacity width capacity needed = .ok r ∧ Tight width capacity needed r ∧
      ∀ fewer ≤ needed, ∃ r', nextCapacity width capacity fewer = .ok r' ∧ r' ≤ r := by
  have hpos : 0 < initial width capacity := by unfold initial; omega
  have hneeded : needed ≤ demand width capacity needed := le_max_left _ _
  have hbytes : 2 * demand width capacity needed ≤ 2 * demand width capacity needed * width :=
    Nat.le_mul_of_pos_right _ hw
  have hword : 2 * needed ≤ Word.limit := by omega
  obtain ⟨turns, hleast, hturns⟩ := doubleUntil_turns hpos hword
  obtain ⟨r, hnext, htight⟩ := exists_tight hw h
  refine ⟨⟨turns, turns_lt hpos hword hleast, hleast, hturns⟩, r, hnext, htight, ?_⟩
  intro fewer hle
  have hdemand : demand width capacity fewer ≤ demand width capacity needed :=
    max_le_max_right _ hle
  have hless : 2 * demand width capacity fewer * width ≤ 2 * demand width capacity needed * width :=
    Nat.mul_le_mul_right width (Nat.mul_le_mul_left 2 hdemand)
  obtain ⟨r', hnext', -⟩ := exists_tight hw
    (show 2 * demand width capacity fewer * width + 2 * Page.size < Word.limit by omega)
  exact ⟨r', hnext', nextCapacity_mono hword hle hnext' hnext⟩

/-- Elements of three bytes, of which a page holds 1365 and leaves a byte: after two turns there
are four pages, and room in them for one element more. -/
theorem nextCapacity_tight_threeBytes :
    nextCapacity 3 0 3000 = .ok 5461 ∧ Tight 3 0 3000 5461 := by
  have hnext : nextCapacity 3 0 3000 = .ok 5461 := by cbv
  obtain ⟨-, r, hr, htight, -⟩ := nextCapacity_tight 3 0 3000 (by decide) (by decide)
  obtain rfl := Except.ok.inj (hnext.symm.trans hr)
  exact ⟨hnext, htight⟩

end Rewind.PrivateArray
