import Mathlib.Tactic
import Rewind.Proofs.Act
import Rewind.Private.Array

/-! Capacity of growable arrays: what growing keeps, how far it goes, and when it cannot fail. -/
namespace Rewind

theorem Page.ceil_spec {x y : Nat} (h : ceil x = .ok y) :
    x ≤ y ∧ y < x + size ∧ IsAligned y := by
  obtain ⟨_, rfl⟩ := ceil_eq_ok_iff.mp h
  refine ⟨?_, ?_, isAligned_floor _⟩ <;> simp only [floor, size] <;> omega

theorem Page.ceil_isOk {x : Nat} (h : x + size < Word.limit) : ∃ y, ceil x = .ok y :=
  ⟨_, ceil_eq_ok_iff.mpr ⟨h, rfl⟩⟩

namespace Mapping

/-- A mapping is made of whole pages without a guard, or refused, or its size is no word. -/
theorem new_eq (refusal : Refusal) (length : Nat) :
    Mapping.new refusal length = match Page.ceil (max length 1) with
      | .error f => .error (.fault f)
      | .ok total => match refusal total with
        | some errno => .error (.error errno)
        | none => .ok ⟨total, 0⟩ := by
  unfold Mapping.new
  cases Page.ceil (max length 1) <;> rfl

theorem new_spec {refusal : Refusal} {length : Nat} {m : Mapping}
    (h : Mapping.new refusal length = .ok m) :
    length ≤ m.total ∧ Page.ceil (max length 1) = .ok m.total ∧ refusal m.total = none := by
  rw [new_eq] at h
  split at h
  · cases h
  · next total hc =>
    split at h
    · cases h
    · next hr =>
      obtain rfl := Except.ok.inj h
      exact ⟨(le_max_left _ _).trans (Page.ceil_spec hc).1, hc, hr⟩

/-- Mapping fails only by a refusal, unless the length is next to the largest word. -/
theorem new_refused {refusal : Refusal} {length : Nat} {e : Trouble Errno}
    (h : Mapping.new refusal length = .error e) (hl : max length 1 + Page.size < Word.limit) :
    ∃ errno total, e = .error errno ∧ refusal total = some errno ∧ 0 < total ∧
      total < max length 1 + Page.size := by
  obtain ⟨total, hc⟩ := Page.ceil_isOk hl
  obtain ⟨h1, h2, _⟩ := Page.ceil_spec hc
  simp only [new_eq, hc] at h
  split at h
  · next errno hr => exact ⟨errno, total, (Except.error.inj h).symm, hr, by omega, h2⟩
  · cases h

theorem refusal_eq_none {length : Nat} (h0 : 0 < length) (h : length ≤ limit) :
    refusal length = none := by simp [refusal, h0.ne', h]

theorem le_of_refusal_eq_none {length : Nat} (h : refusal length = none) : length ≤ limit := by
  unfold refusal at h
  split at h
  · simp at h
  · split at h
    · simp at h
    · omega

end Mapping

namespace PrivateArray

variable {α : Type} {width : Nat}

theorem doubleUntil_spec {needed capacity r : Nat} (h : doubleUntil needed capacity = .ok r)
    (hc : 0 < capacity) : needed ≤ r ∧ capacity ≤ r ∧ (r = capacity ∨ r < 2 * needed) := by
  fun_induction doubleUntil needed capacity with
  | case1 capacity hlt hword ih =>
    obtain ⟨h1, h2, h3⟩ := ih h (by omega)
    omega
  | case2 => simp at h
  | case3 capacity hge =>
    simp only [Except.ok.injEq] at h
    omega

theorem doubleUntil_isOk {needed : Nat} (capacity : Nat) (h : 2 * needed < Word.limit) :
    ∃ r, doubleUntil needed capacity = .ok r := by
  fun_induction doubleUntil needed capacity with
  | case1 capacity hlt hword ih => exact ih
  | case2 capacity hlt hword => omega
  | case3 capacity => exact ⟨capacity, rfl⟩

/-- The steps of choosing a capacity: double, round the bytes up to pages, fill the pages. -/
theorem nextCapacity_eq_ok_iff {capacity needed r : Nat} :
    nextCapacity width capacity needed = .ok r ↔
      ∃ enough bytes, doubleUntil needed (max capacity (max (Page.size / width) 1)) = .ok enough ∧
        enough * width < Word.limit ∧ Page.ceil (enough * width) = .ok bytes ∧
          r = bytes / width := by
  unfold nextCapacity
  cases doubleUntil needed (max capacity (max (Page.size / width) 1)) with
  | error e => simp [bind, Except.bind]
  | ok enough =>
    cases hm : Word.mul enough width with
    | error e =>
      simp only [Word.mul] at hm
      split at hm
      · simp at hm
      · simp [bind, Except.bind, Word.mul, *]
    | ok product =>
      obtain ⟨hw, rfl⟩ := Word.mul_eq_ok_iff.mp hm
      cases hc : Page.ceil (enough * width) with
      | error e => simp [bind, Except.bind, hm, hc]
      | ok bytes => simp [bind, Except.bind, pure, Except.pure, hm, hc, hw, eq_comm]

theorem le_nextCapacity (hw : 0 < width) {capacity needed r : Nat}
    (h : nextCapacity width capacity needed = .ok r) : needed ≤ r ∧ capacity ≤ r := by
  obtain ⟨enough, bytes, hd, _, hc, rfl⟩ := nextCapacity_eq_ok_iff.mp h
  obtain ⟨h1, h2, _⟩ := doubleUntil_spec hd (by omega)
  have hle : enough ≤ bytes / width := (Nat.le_div_iff_mul_le hw).mpr (Page.ceil_spec hc).1
  omega

/-- Elements are in the capacity, and the capacity is in the memory that the kernel gives. -/
structure Fits (v : PrivateArray α width) : Prop where
  size_le : v.size ≤ v.capacity
  bytes_le : v.capacity * width ≤ Mapping.limit

theorem fits_empty : (empty : PrivateArray α width).Fits :=
  ⟨Nat.le_refl 0, by simp [empty]⟩

theorem Fits.clear {v : PrivateArray α width} (h : v.Fits) : v.clear.Fits :=
  ⟨by simp [size], h.bytes_le⟩

theorem get_eq_ok {v : PrivateArray α width} {i : Nat} {x : α} :
    v.get i = .ok x ↔ v.items[i]? = some x := by
  unfold get
  split <;> simp_all

/-- Growing raises no fault while twice what is needed can be counted in bytes. -/
theorem nextCapacity_isOk (hw : 0 < width) (capacity : Nat) {needed : Nat}
    (hc : capacity ≤ 2 * needed) (hn : 0 < needed)
    (h : 2 * needed * width + 3 * Page.size < Word.limit) :
    ∃ r, nextCapacity width capacity needed = .ok r ∧ 0 < r ∧
      r * width ≤ 2 * needed * width + 2 * Page.size := by
  have hn' : needed ≤ needed * width := Nat.le_mul_of_pos_right _ hw
  have hassoc : 2 * needed * width = 2 * (needed * width) := Nat.mul_assoc 2 needed width
  obtain ⟨enough, hd⟩ := doubleUntil_isOk (max capacity (max (Page.size / width) 1))
    (show 2 * needed < Word.limit by omega)
  obtain ⟨h1, _, h3⟩ := doubleUntil_spec hd (by omega)
  have hpage : Page.size / width * width ≤ Page.size := Nat.div_mul_le_self _ _
  have hbound : enough * width ≤ 2 * needed * width + Page.size := by
    have hle : enough ≤ max (2 * needed) (max (Page.size / width) 1) := by omega
    calc enough * width ≤ max (2 * needed) (max (Page.size / width) 1) * width :=
          Nat.mul_le_mul_right _ hle
      _ ≤ 2 * needed * width + Page.size := by
          rcases le_total (2 * needed) (max (Page.size / width) 1) with hm | hm
          · rw [max_eq_right hm]
            rcases le_total (Page.size / width) 1 with hk | hk
            · rw [max_eq_right hk]; omega
            · rw [max_eq_left hk]; omega
          · rw [max_eq_left hm]; omega
  obtain ⟨bytes, hb⟩ := Page.ceil_isOk (x := enough * width) (by omega)
  obtain ⟨hb1, hb2, _⟩ := Page.ceil_spec hb
  have hle : enough ≤ bytes / width := (Nat.le_div_iff_mul_le hw).mpr hb1
  refine ⟨bytes / width, nextCapacity_eq_ok_iff.mpr ⟨enough, bytes, hd, by omega, hb, rfl⟩,
    by omega, ?_⟩
  have := Nat.div_mul_le_self bytes width
  omega

/-- What growing by `k` elements does: nothing where there is room, and else a move to a mapping
for at least twice as many elements. -/
inductive Grown (refusal : Refusal) (k : Nat) (v : PrivateArray α width) :
    PrivateArray α width → Prop
  | stays : v.size + k ≤ v.capacity → Grown refusal k v v
  | moves {capacity : Nat} {m : Mapping} : v.capacity < v.size + k → v.size + k ≤ capacity →
      v.capacity * 2 ≤ capacity → Mapping.new refusal (capacity * width) = .ok m →
      Grown refusal k v { v with capacity := capacity, mapping := some m }

/-- An array that cannot grow stays as it was. -/
theorem reserve_grown_meets (hw : 0 < width) (refusal : Refusal) (v : PrivateArray α width)
    (k : Nat) : (reserve refusal k).Meets v (fun _ v' => Grown refusal k v v')
      (fun _ v' => v' = v) := by
  simp only [reserve, Act.meets_bind, Act.meets_get, Act.meets_faulty, Act.meets_ite,
    Act.meets_outcome, Act.meets_modify, Act.meets_pure, Word.add_eq_ok_iff, Word.mul_eq_ok_iff]
  refine ⟨?_, fun _ _ => trivial⟩
  rintro needed ⟨_, rfl⟩
  refine ⟨fun hlt => ⟨?_, fun _ _ => trivial⟩, fun hle => .stays (by omega)⟩
  rintro doubled ⟨_, rfl⟩
  refine ⟨fun capacity hc => ⟨?_, fun _ _ => trivial⟩, fun _ _ => trivial⟩
  rintro bytes ⟨_, rfl⟩
  refine ⟨fun mapping hm => ?_, fun _ _ => trivial⟩
  obtain ⟨h1, h2⟩ := le_nextCapacity hw hc
  exact .moves hlt h1 h2 hm

/-- Growing keeps the elements, gives room, never shrinks, and does nothing where there is room
already. -/
theorem reserve_meets (hw : 0 < width) {v : PrivateArray α width} (hv : v.Fits) (k : Nat) :
    (reserve Mapping.refusal k).Meets v
      (fun _ v' => v'.items = v.items ∧ v.size + k ≤ v'.capacity ∧ v.capacity ≤ v'.capacity ∧
        v'.Fits ∧ (v.size + k ≤ v.capacity → v' = v))
      (fun _ v' => v' = v) := by
  apply (reserve_grown_meets hw Mapping.refusal v k).mono
  · intro _ v' hpost
    cases hpost with
    | stays hroom => exact ⟨rfl, hroom, le_rfl, hv, fun _ => rfl⟩
    | @moves capacity m hlt hroom hdouble hm =>
      obtain ⟨hl, _, hr⟩ := Mapping.new_spec hm
      have hcap : v.capacity ≤ capacity := by omega
      have hfits : capacity * width ≤ Mapping.limit := hl.trans (Mapping.le_of_refusal_eq_none hr)
      exact ⟨rfl, hroom, hcap, ⟨(Nat.le_add_right v.size k).trans hroom, hfits⟩,
        fun hle => absurd hle (by omega)⟩
  · exact fun _ _ h => h

/-- Growing fails only by the refusal of a mapping not much larger than twice what is needed,
as long as that can be counted in bytes. -/
theorem reserve_refused_meets (hw : 0 < width) (refusal : Refusal) {v : PrivateArray α width}
    {k : Nat} (h : 2 * (v.size + k) * width + 3 * Page.size < Word.limit) :
    (reserve refusal k).Meets v (fun _ _ => True) fun e _ =>
      ∃ errno total, e = .error errno ∧ refusal total = some errno ∧ 0 < total ∧
        total < 2 * (v.size + k) * width + 3 * Page.size := by
  have hle : v.size + k ≤ (v.size + k) * width := Nat.le_mul_of_pos_right _ hw
  have hassoc : 2 * (v.size + k) * width = 2 * ((v.size + k) * width) := Nat.mul_assoc _ _ _
  have hadd : Word.add v.size k = .ok (v.size + k) := Word.add_eq_ok_iff.mpr ⟨by omega, rfl⟩
  by_cases hroom : v.size + k ≤ v.capacity
  · simp [reserve, hadd, hroom.not_gt]
  have hdouble : Word.mul v.capacity 2 = .ok (v.capacity * 2) :=
    Word.mul_eq_ok_iff.mpr ⟨by omega, rfl⟩
  obtain ⟨capacity, hcap, hpos, hbytes⟩ := nextCapacity_isOk hw (v.capacity * 2)
    (show v.capacity * 2 ≤ 2 * (v.size + k) by omega) (by omega) h
  have hmul : Word.mul capacity width = .ok (capacity * width) :=
    Word.mul_eq_ok_iff.mpr ⟨by omega, rfl⟩
  have h1 : 1 ≤ capacity * width := Nat.mul_pos hpos hw
  simp only [reserve, Act.meets_bind, Act.meets_get, hadd, hdouble, hcap, hmul, Act.meets_faulty,
    Act.meets_ite, Act.meets_outcome, Act.meets_modify, Act.meets_pure, Except.ok.injEq, forall_eq',
    reduceCtorEq, false_implies, implies_true, and_true, true_and]
  intro _ e he
  obtain ⟨errno, total, rfl, hr, hpos', ht⟩ := Mapping.new_refused he (by omega)
  exact ⟨errno, total, rfl, hr, hpos', by omega⟩

theorem reserve_isOk (hw : 0 < width) {v : PrivateArray α width} {k : Nat}
    (h : 2 * (v.size + k) * width + 3 * Page.size ≤ Mapping.limit) :
    (reserve Mapping.refusal k).Meets v (fun _ _ => True) fun _ _ => False := by
  have hlimit : Mapping.limit < Word.limit := by decide
  refine (reserve_refused_meets hw Mapping.refusal (h.trans_lt hlimit)).mono (fun _ _ h => h) ?_
  intro _ _ hpost
  obtain ⟨errno, total, rfl, hr, hpos, ht⟩ := hpost
  rw [Mapping.refusal_eq_none hpos (by omega)] at hr
  cases hr

theorem extend_meets (hw : 0 < width) {v : PrivateArray α width} (hv : v.Fits) (xs : Array α) :
    (extend Mapping.refusal xs).Meets v
      (fun _ v' => v'.items = v.items ++ xs ∧ v.capacity ≤ v'.capacity ∧ v'.Fits ∧
        (v.size + xs.size ≤ v.capacity → v'.capacity = v.capacity))
      (fun _ v' => v' = v) := by
  simp only [extend, Act.meets_bind, Act.meets_modify]
  refine (reserve_meets hw hv xs.size).mono ?_ fun _ _ h => h
  intro _ v' hpost
  obtain ⟨hi, hroom, hcap, hfit, hsame⟩ := hpost
  refine ⟨by rw [hi], hcap, ⟨?_, hfit.bytes_le⟩, fun h => by rw [hsame h]⟩
  simpa [size, hi] using hroom

theorem extend_isOk (hw : 0 < width) (v : PrivateArray α width)
    (xs : Array α) (h : 2 * (v.size + xs.size) * width + 3 * Page.size ≤ Mapping.limit) :
    (extend Mapping.refusal xs).Meets v (fun _ _ => True) fun _ _ => False := by
  simp only [extend, Act.meets_bind, Act.meets_modify]
  exact reserve_isOk hw h

theorem push_meets (hw : 0 < width) {v : PrivateArray α width} (hv : v.Fits) (x : α) :
    (push Mapping.refusal x).Meets v
      (fun _ v' => v'.items = v.items.push x ∧ v.capacity ≤ v'.capacity ∧ v'.Fits ∧
        (v.size < v.capacity → v'.capacity = v.capacity))
      (fun _ v' => v' = v) := by
  have hsize := hv.size_le
  simp only [push, Act.meets_bind, Act.meets_get, Act.meets_ite, Act.meets_modify]
  constructor
  · intro hfull
    refine (reserve_meets hw hv 1).mono ?_ fun _ _ h => h
    intro _ v' hpost
    obtain ⟨hi, hroom, hcap, hfit, -⟩ := hpost
    refine ⟨by rw [hi], hcap, ⟨?_, hfit.bytes_le⟩, fun h => absurd h (by omega)⟩
    simpa [size, hi] using hroom
  · intro hroom
    refine ⟨trivial, le_rfl, ⟨?_, hv.bytes_le⟩, fun _ => trivial⟩
    simp only [size, Array.size_push] at *
    omega

theorem push_isOk (refusal : Refusal) {v : PrivateArray α width} (h : v.size < v.capacity) (x : α) :
    (push refusal x).on v = (.ok (), { v with items := v.items.push x }) := by
  simp [Act.on_eq_ok_iff, push, h.ne]

theorem pushAll_isOk (refusal : Refusal) {v : PrivateArray α width} (xs : List α)
    (h : v.size + xs.length ≤ v.capacity) :
    (pushAll refusal xs).on v = (.ok (), { v with items := v.items ++ xs.toArray }) := by
  induction xs generalizing v with
  | nil => simp [pushAll, Act.on_pure]
  | cons x xs ih =>
    rw [List.length_cons] at h
    have hroom : v.size < v.capacity := by omega
    have hrest := ih (v := { v with items := v.items.push x }) (by
      simp only [size, Array.size_push] at h ⊢
      omega)
    rw [pushAll, Act.on_bind, push_isOk refusal hroom x]
    simpa using hrest

end Rewind.PrivateArray
