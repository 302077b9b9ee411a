import Mathlib.Data.List.Sort
import Mathlib.Tactic
import Rewind.Demo.Sorting

/-! Medians: the sorting routine prints the element of the middle rank of what was generated, and
its data starts with another element afterwards, since the one it started with was not the least. -/
namespace Rewind.Demo

section Ranks

variable {k : Nat} {l l' : List UInt64} {x y : UInt64}

/-- An element of a rank, counted from zero: at most that many are less than it, and more are no
greater. -/
structure Ranked (k : Nat) (l : List UInt64) (x : UInt64) : Prop where
  mem : x ∈ l
  below : l.countP (· < x) ≤ k
  upto : k < l.countP (· ≤ x)

theorem Ranked.of_perm (h : Ranked k l x) (hl : l.Perm l') : Ranked k l' x :=
  ⟨hl.mem_iff.mp h.mem, hl.countP_eq _ ▸ h.below, hl.countP_eq _ ▸ h.upto⟩

theorem Ranked.not_lt (hx : Ranked k l x) (hy : Ranked k l y) : ¬x < y := by
  intro hlt
  have hle : l.countP (· ≤ x) ≤ l.countP (· < y) := by
    apply List.countP_mono_left
    intro z _ hz
    exact decide_eq_true (UInt64.lt_of_le_of_lt (of_decide_eq_true hz) hlt)
  have hlow := hx.upto
  have hhigh := hy.below
  omega

theorem Ranked.unique (hx : Ranked k l x) (hy : Ranked k l y) : x = y :=
  UInt64.le_antisymm (UInt64.not_lt.mp (hy.not_lt hx)) (UInt64.not_lt.mp (hx.not_lt hy))

theorem ranked_middle (h : (l ++ x :: l').Pairwise (· ≤ ·)) : Ranked l.length (l ++ x :: l') x := by
  obtain ⟨-, hright, hleft⟩ := List.pairwise_append.mp h
  have hbehind : ∀ z ∈ x :: l', x ≤ z := by
    intro z hz
    rcases List.mem_cons.mp hz with rfl | hz
    · exact UInt64.le_refl z
    · exact List.rel_of_pairwise_cons hright hz
  constructor
  · simp
  · have hnone : (x :: l').countP (· < x) = 0 := by
      apply List.countP_eq_zero.mpr
      intro z hz hlt
      exact UInt64.not_lt.mpr (hbehind z hz) (of_decide_eq_true hlt)
    rw [List.countP_append, hnone]
    exact List.countP_le_length
  · have hall : l.countP (· ≤ x) = l.length := by
      apply List.countP_eq_length.mpr
      intro z hz
      exact decide_eq_true (hleft z hz x List.mem_cons_self)
    have hself : 0 < (x :: l').countP (· ≤ x) :=
      List.countP_pos_iff.mpr ⟨x, List.mem_cons_self, decide_eq_true (UInt64.le_refl x)⟩
    rw [List.countP_append, hall]
    omega

/-- The elements of a sorted list stand at their ranks. -/
theorem ranked_getElem (h : l.Pairwise (· ≤ ·)) (hk : k < l.length) : Ranked k l l[k] := by
  have hparts : l.take k ++ l[k] :: l.drop (k + 1) = l := by
    rw [List.getElem_cons_drop, List.take_append_drop]
  have hranked : Ranked (l.take k).length (l.take k ++ l[k] :: l.drop (k + 1)) l[k] :=
    ranked_middle (by rwa [hparts])
  rwa [hparts, List.length_take_of_le hk.le] at hranked

end Ranks

namespace Sorting

variable {data generated : List UInt64} {i j : Nat} {x : UInt64} {s : Sorting}

theorem item_eq_ok_iff : item data i = .ok x ↔ data[i]? = some x := by
  unfold item
  cases data[i]? <;> simp

theorem pairwise_mergeSort (data : List UInt64) : data.mergeSort.Pairwise (· ≤ ·) :=
  List.pairwise_mergeSort' (fun x y : UInt64 => x ≤ y) data

theorem ascends_of_pairwise (h : data.Pairwise (· ≤ ·)) : ascends data = true := by
  fun_induction ascends data with
  | case1 x y rest ih =>
    obtain ⟨hx, hrest⟩ := List.pairwise_cons.mp h
    simp [hx y List.mem_cons_self, ih hrest]
  | case2 => rfl

section Setup

theorem swap_eq (hi : i < data.length) (hj : j < data.length) :
    swap data i j = .ok ((data.set i data[j]).set j data[i]) := by
  simp only [swap, item, List.getElem?_eq_getElem hi, List.getElem?_eq_getElem hj]
  rfl

theorem exists_least (h : data ≠ []) : ∃ least, data.min? = some least ∧ least ∈ data ∧
    ∀ x ∈ data, least ≤ x := by
  cases hmin : data.min? with
  | none => exact absurd (List.min?_eq_none_iff.mp hmin) h
  | some least => exact ⟨least, rfl, List.min?_eq_some_iff.mp hmin⟩

theorem leastIndex?_eq_zero_iff (h : data ≠ []) :
    leastIndex? data = some 0 ↔ ∀ x ∈ data, data.head h ≤ x := by
  obtain ⟨least, hmin, hmem, hle⟩ := exists_least h
  have hindex : leastIndex? data = some 0 ↔ data.head h = least := by
    cases data with
    | nil => exact absurd rfl h
    | cons x rest => simp [leastIndex?, hmin, List.findIdx_eq]
  rw [hindex]
  constructor
  · intro heq
    rwa [heq]
  · intro hhead
    exact UInt64.le_antisymm (hhead least hmem) (hle _ (List.head_mem h))

/-- Arranged data has the last of the generated elements in front if the first one is the least. -/
theorem exists_arrange (h : generated ≠ []) :
    ∃ front rest, arrange generated = .ok (front :: rest) ∧ (front :: rest).Perm generated ∧
      ((∀ x ∈ generated, generated.head h ≤ x) ∧ front = generated.getLast h ∨
        (¬∀ x ∈ generated, generated.head h ≤ x) ∧ front = generated.head h) := by
  have hpos : 0 < generated.length := List.length_pos_of_ne_nil h
  unfold arrange
  by_cases hleast : ∀ x ∈ generated, generated.head h ≤ x
  · have hend : generated.length - 1 < generated.length := by omega
    have hperm := List.set_set_perm hpos hend
    have hfront : ((generated.set 0 generated[generated.length - 1]).set (generated.length - 1)
        generated[0])[0]? = some (generated.getLast h) := by
      rw [List.getLast_eq_getElem, List.getElem?_set]
      split
      · next hone => simp [hone, h]
      · simp [hpos]
    rw [if_pos ((leastIndex?_eq_zero_iff h).mpr hleast), swap_eq hpos hend]
    generalize (generated.set 0 _).set _ _ = data at *
    cases data with
    | nil => simp at hfront
    | cons front rest =>
      exact ⟨front, rest, rfl, hperm, .inl ⟨hleast, Option.some.inj hfront⟩⟩
  · rw [if_neg (mt (leastIndex?_eq_zero_iff h).mp hleast)]
    cases generated with
    | nil => exact absurd rfl h
    | cons front rest => exact ⟨front, rest, rfl, .refl _, .inr ⟨hleast, rfl⟩⟩

theorem prepare_eq {front : UInt64} {rest : List UInt64}
    (h : arrange generated = .ok (front :: rest)) :
    prepare generated = if front = (front :: rest).min?.getD 0 then .error (.error .allEqual)
      else .ok ⟨front :: rest, front⟩ := by
  rw [prepare, h]
  rfl

/-- The data is set up: the first element is remembered, and there is a smaller one. -/
structure Prepared (s : Sorting) : Prop where
  front : s.data[0]? = some s.first
  lower : ∃ x ∈ s.data, x < s.first

/-- Setting up is refused only if both the first and the last of the generated elements are least;
the others may well be greater. -/
theorem prepare_spec (h : generated ≠ []) :
    (∃ s, prepare generated = .ok s ∧ s.data.Perm generated ∧ s.Prepared) ∨
      prepare generated = .error (.error .allEqual) ∧
        ∀ x ∈ generated, generated.head h ≤ x ∧ generated.getLast h ≤ x := by
  obtain ⟨front, rest, hdata, hperm, hfront⟩ := exists_arrange h
  obtain ⟨least, hmin, hmem, hle⟩ := exists_least (List.cons_ne_nil front rest)
  rw [prepare_eq hdata, hmin, Option.getD_some]
  by_cases heq : front = least
  · right
    constructor
    · exact if_pos heq
    · have hall : ∀ x ∈ generated, front ≤ x := by
        intro x hx
        rw [heq]
        exact hle x (hperm.mem_iff.mpr hx)
      rcases hfront with ⟨hhead, hlast⟩ | ⟨hhead, hfirst⟩
      · intro x hx
        exact ⟨hhead x hx, hlast ▸ hall x hx⟩
      · exact absurd (hfirst ▸ hall) hhead
  · left
    have hlower : least < front :=
      UInt64.lt_of_le_of_ne (hle front List.mem_cons_self) (Ne.symm heq)
    exact ⟨_, if_neg heq, hperm, rfl, least, hmem, hlower⟩

variable {generate : UInt64 → Nat → List UInt64} {args : List String}

theorem build_of_arguments {count seed : Nat} (hcount : argument args 0 100000 = .ok count)
    (hseed : argument args 1 1 = .ok seed) :
    build generate args =
      if count < 2 then .error (.error .tooFew)
      else if largestObject < count * 8 then .error (.fault .capacity)
      else prepare (generate (UInt64.ofNat seed) count) := by
  rw [build, hcount, hseed]
  exact ite_congr rfl (fun _ => rfl) fun _ => allocation_bind _ _

theorem exists_arguments_of_fault {cause : Fault}
    (h : build generate args = .error (.fault cause)) :
    ∃ count seed, argument args 0 100000 = .ok count ∧ argument args 1 1 = .ok seed := by
  cases hcount : argument args 0 100000 with
  | error trouble =>
    rw [build, hcount] at h
    cases h
    exact absurd hcount (argument_ne_fault args 0 100000 cause)
  | ok count =>
    cases hseed : argument args 1 1 with
    | error trouble =>
      rw [build, hcount, hseed] at h
      cases h
      exact absurd hseed (argument_ne_fault args 1 1 cause)
    | ok seed => exact ⟨count, seed, rfl, rfl⟩

/-- Setting up gives up only on data larger than an object can be. -/
theorem build_eq_fault_iff (hgenerate : ∀ seed count, (generate seed count).length = count)
    {cause : Fault} :
    build generate args = .error (.fault cause) ↔ cause = .capacity ∧
      ∃ count seed, argument args 0 100000 = .ok count ∧ argument args 1 1 = .ok seed ∧
        largestObject < count * 8 := by
  constructor
  · intro h
    obtain ⟨count, seed, hcount, hseed⟩ := exists_arguments_of_fault h
    rw [build_of_arguments hcount hseed] at h
    split at h
    · cases h
    next hmany =>
    split at h
    · next hlarge =>
      cases h
      exact ⟨rfl, count, seed, hcount, hseed, hlarge⟩
    · have hlength := hgenerate (UInt64.ofNat seed) count
      have hne : generate (UInt64.ofNat seed) count ≠ [] := List.ne_nil_of_length_pos (by omega)
      rcases prepare_spec hne with ⟨s, hs, -⟩ | ⟨hrefused, -⟩
      · cases h.symm.trans hs
      · cases h.symm.trans hrefused
  · intro ⟨hcause, count, seed, hcount, hseed, hlarge⟩
    have htwo : 2 * 8 ≤ largestObject := by decide
    rw [build_of_arguments hcount hseed, if_neg (by omega), if_pos hlarge, hcause]

end Setup

section Run

variable {console : Console}

/-- What a run leaves of data that it finds as it was set up. -/
def sorted (s : Sorting) : Sorting := { s with data := s.data.mergeSort }

theorem run_of_front (hfront : s.data[0]? = some s.first)
    (hx : s.data.mergeSort[s.data.length / 2]? = some x) (hfull : console.full = false) :
    s.run console =
      (s.sorted, .completed, { console with printed := console.printed ++ report x }) := by
  have hascends : ascends s.data.mergeSort = true := ascends_of_pairwise (pairwise_mergeSort _)
  have hmedian : median s.data.mergeSort = .ok x := by
    rw [median, List.length_mergeSort]
    exact item_eq_ok_iff.mpr hx
  simp [run, item_eq_ok_iff.mpr hfront, hascends, hmedian, Console.print?, hfull, sorted]

theorem run_of_front_ne (hx : s.data[0]? = some x) (hne : x ≠ s.first) :
    s.run console = (s, .failed dirtyStart, console) := by
  simp [run, item_eq_ok_iff.mpr hx, hne]

theorem Prepared.run_sorted (h : s.Prepared) (console : Console) :
    s.sorted.run console = (s.sorted, .failed dirtyStart, console) := by
  obtain ⟨x, hmem, hx⟩ := h.lower
  have hmem : x ∈ s.sorted.data := List.mem_mergeSort.mpr hmem
  have hsorted : s.sorted.data.Pairwise (· ≤ ·) := pairwise_mergeSort s.data
  cases hdata : s.sorted.data with
  | nil => simp [hdata] at hmem
  | cons y rest =>
    rw [hdata] at hmem hsorted
    have hy : y ≤ x := by
      rcases List.mem_cons.mp hmem with rfl | hmem
      · exact UInt64.le_refl x
      · exact List.rel_of_pairwise_cons hsorted hmem
    have hlt : y < s.first := UInt64.lt_of_le_of_lt hy hx
    exact run_of_front_ne (by rw [hdata]; rfl) (UInt64.ne_of_lt hlt)

end Run

end Sorting
end Rewind.Demo
