import Mathlib.Order.Bounds.Basic
import Rewind.Proofs.Growth

/-! Rounding to page boundaries. Rounding up gives the least boundary that is not below an address
wherever that boundary is a word, except for the last boundary of all: the page that is added first
leaves the range of words there. -/
namespace Rewind.Page

variable {x y : Nat}

section Masks

/-- The bits of a word above those that count inside of a page. -/
def mask : Nat := Word.limit - size

theorem testBit_mask (i : Nat) : mask.testBit i = (decide (i < 64) && !decide (i < 12)) := by
  have hinner : 2 ^ 12 - 1 < 2 ^ 64 := by decide
  have hmask : mask = 2 ^ 64 - (2 ^ 12 - 1 + 1) := rfl
  rw [hmask, Nat.testBit_two_pow_sub_succ hinner, Nat.testBit_two_pow_sub_one]

theorem floor_eq_and_mask (h : x < Word.limit) : floor x = x &&& mask := by
  have hfloor : floor x = x / 2 ^ 12 * 2 ^ 12 := rfl
  have hword : x < 2 ^ 64 := h
  apply Nat.eq_of_testBit_eq
  intro i
  rw [hfloor, Nat.testBit_mul_two_pow, Nat.testBit_and, testBit_mask]
  by_cases hlow : 12 ≤ i
  · rw [Nat.testBit_div_two_pow, Nat.sub_add_cancel hlow]
    by_cases hhigh : i < 64
    · simp [hlow, hhigh]
    · have hpow : 2 ^ 64 ≤ 2 ^ i := Nat.pow_le_pow_right Nat.two_pos (not_lt.mp hhigh)
      rw [Nat.testBit_lt_two_pow (hword.trans_le hpow)]
      simp
  · have hinside : i < 12 := not_le.mp hlow
    simp [hlow, hinside]

theorem isAligned_iff_and (x : Nat) : IsAligned x ↔ x &&& (size - 1) = 0 := by
  have hsize : size = 2 ^ 12 := rfl
  rw [hsize, Nat.and_two_pow_sub_one_eq_mod]
  exact Iff.rfl

end Masks

theorem isGreatest_floor (x : Nat) : IsGreatest {y | IsAligned y ∧ y ≤ x} (floor x) := by
  constructor
  · exact ⟨isAligned_floor x, Nat.div_mul_le_self x size⟩
  · intro y ⟨haligned, hle⟩
    unfold IsAligned at haligned
    unfold floor
    unfold size at *
    omega

theorem isLeast_ceil (h : ceil x = .ok y) : IsLeast {z | IsAligned z ∧ x ≤ z} y := by
  obtain ⟨hle, hlt, haligned⟩ := ceil_spec h
  constructor
  · exact ⟨haligned, hle⟩
  · intro z ⟨hz, hxz⟩
    unfold IsAligned at *
    unfold size at *
    omega

/-- The last boundary is a page below the end of the range of words. -/
theorem le_of_isAligned_of_lt (haligned : IsAligned y) (h : y < Word.limit) :
    y + size ≤ Word.limit := by
  have hlimit : Word.limit = 2 ^ 64 := rfl
  unfold IsAligned at haligned
  unfold size at *
  omega

theorem ceil_eq_ok_iff_isLeast : ceil x = .ok y ↔
    IsLeast {z | IsAligned z ∧ x ≤ z} y ∧ y < Word.limit ∧ x + size ≠ Word.limit := by
  constructor
  · intro h
    have hfits := (ceil_eq_ok_iff.mp h).1
    have hlt := (ceil_spec h).2.1
    exact ⟨isLeast_ceil h, hlt.trans hfits, hfits.ne⟩
  · intro ⟨hleast, hword, hne⟩
    obtain ⟨haligned, hle⟩ := hleast.1
    have hlast := le_of_isAligned_of_lt haligned hword
    have hfits : x + size < Word.limit := by omega
    obtain ⟨z, hz⟩ := ceil_isOk hfits
    rw [hz, (isLeast_ceil hz).unique hleast]

theorem ceil_of_last (h : x + size = Word.limit) : ceil x = .error (.overflow .add) := by
  cases hx : ceil x with
  | ok y => exact absurd h (ceil_eq_ok_iff_isLeast.mp hx).2.2
  | error f => rw [ceil_eq_error hx]

theorem isAligned_iff_floor : IsAligned x ↔ floor x = x := by
  unfold IsAligned floor size
  omega

theorem isAligned_iff_ceil (hword : x < Word.limit) (hne : x + size ≠ Word.limit) :
    IsAligned x ↔ ceil x = .ok x := by
  constructor
  · intro haligned
    have hleast : IsLeast {z | IsAligned z ∧ x ≤ z} x := ⟨⟨haligned, le_refl x⟩, fun z hz => hz.2⟩
    exact ceil_eq_ok_iff_isLeast.mpr ⟨hleast, hword, hne⟩
  · intro h
    exact (isLeast_ceil h).1.1

theorem floor_mono (h : x ≤ y) : floor x ≤ floor y :=
  Nat.mul_le_mul_right size (Nat.div_le_div_right h)

theorem ceil_mono {u v : Nat} (h : x ≤ y) (hu : ceil x = .ok u) (hv : ceil y = .ok v) : u ≤ v := by
  obtain ⟨haligned, hle⟩ := (isLeast_ceil hv).1
  exact (isLeast_ceil hu).2 ⟨haligned, h.trans hle⟩

theorem ceil_idem {u v : Nat} (hu : ceil x = .ok u) (hv : ceil u = .ok v) : v = u := by
  have haligned := (isLeast_ceil hu).1.1
  exact le_antisymm ((isLeast_ceil hv).2 ⟨haligned, le_refl u⟩) (isLeast_ceil hv).1.2

/-- An address is rounded down to the greatest boundary not above it, and up to the least one not
below it, if that is a word and the address is not the last boundary itself. -/
theorem rounds_to_boundaries (x : Nat) :
    IsGreatest {y | IsAligned y ∧ y ≤ x} (floor x) ∧
    (∀ y, ceil x = .ok y ↔
      IsLeast {z | IsAligned z ∧ x ≤ z} y ∧ y < Word.limit ∧ x + size ≠ Word.limit) ∧
    (x + size = Word.limit → ceil x = .error (.overflow .add)) ∧
    (IsAligned x ↔ floor x = x) ∧
    (x < Word.limit → x + size ≠ Word.limit → (IsAligned x ↔ ceil x = .ok x)) ∧
    (∀ y, x ≤ y → floor x ≤ floor y) ∧ floor (floor x) = floor x ∧
    (∀ y u v, x ≤ y → ceil x = .ok u → ceil y = .ok v → u ≤ v) ∧
    (∀ u v, ceil x = .ok u → ceil u = .ok v → v = u) ∧
    (x < Word.limit → floor x = x &&& mask) ∧
    (∀ y, ceil x = .ok y → y = (x + size - 1) &&& mask) ∧
    (IsAligned x ↔ x &&& (size - 1) = 0) := by
  have hidem : floor (floor x) = floor x := isAligned_iff_floor.mp (isAligned_floor x)
  have hmask : ∀ y, ceil x = .ok y → y = (x + size - 1) &&& mask := by
    intro y h
    obtain ⟨hfits, hy⟩ := ceil_eq_ok_iff.mp h
    rw [hy, floor_eq_and_mask (by omega)]
  exact ⟨isGreatest_floor x, fun _ => ceil_eq_ok_iff_isLeast, ceil_of_last, isAligned_iff_floor,
    isAligned_iff_ceil, fun _ => floor_mono, hidem, fun _ _ _ => ceil_mono, fun _ _ => ceil_idem,
    floor_eq_and_mask, hmask, isAligned_iff_and x⟩

/-- The address before the last boundary is rounded up to it, and the boundary itself faults. -/
theorem rounds_to_boundaries_last :
    ceil (2 ^ 64 - size - 1) = .ok (2 ^ 64 - size) ∧
    IsAligned (2 ^ 64 - size) ∧ ceil (2 ^ 64 - size) = .error (.overflow .add) := by
  have hleast : IsLeast {z | IsAligned z ∧ 2 ^ 64 - size - 1 ≤ z} (2 ^ 64 - size) := by
    constructor
    · decide
    · intro z ⟨haligned, hle⟩
      unfold IsAligned at haligned
      unfold size at *
      omega
  have hbefore := (rounds_to_boundaries (2 ^ 64 - size - 1)).2.1 (2 ^ 64 - size)
  have hlast := (rounds_to_boundaries (2 ^ 64 - size)).2.2.1
  exact ⟨hbefore.mpr ⟨hleast, by decide, by decide⟩, by decide, hlast rfl⟩

end Rewind.Page
