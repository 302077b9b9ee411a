import Mathlib.Data.List.Sort
import Mathlib.Data.Rat.Sqrt
import Mathlib.Tactic
import Rewind.Report.Summary

/-! Statistics of a run. The sorted times are the same for all orders in which the samples were
taken, and everything that is reckoned from times is reckoned from the sorted ones. The counters do
not depend on the order either: a sum of words leaves their range somewhere on the way if and only
if the whole sum lies outside of it. -/
namespace Rewind.Report

variable {R : Type} {a : Arithmetic R} {samples samples' : List Sample}

section Times

namespace Arithmetic

/-- Numbers that the comparison puts in a total order. -/
structure Orders (a : Arithmetic R) (xs : List R) : Prop where
  total : ∀ x ∈ xs, ∀ y ∈ xs, a.le x y = true ∨ a.le y x = true
  trans : ∀ x ∈ xs, ∀ y ∈ xs, ∀ z ∈ xs, a.le x y = true → a.le y z = true → a.le x z = true
  antisymm : ∀ x ∈ xs, ∀ y ∈ xs, a.le x y = true → a.le y x = true → x = y

/-- Numbers of which none is greater than a later one. -/
def Ascends (a : Arithmetic R) (xs : List R) : Prop := xs.Pairwise fun x y => a.le x y = true

variable {xs ys : List R} {x : R}

theorem Orders.refl (h : a.Orders xs) (hx : x ∈ xs) : a.le x x = true := by
  cases h.total x hx x hx <;> assumption

theorem Orders.perm (h : a.Orders xs) (hperm : ys.Perm xs) : a.Orders ys := by
  constructor
  · intro x hx y hy
    exact h.total x (hperm.mem_iff.mp hx) y (hperm.mem_iff.mp hy)
  · intro x hx y hy z hz
    exact h.trans x (hperm.mem_iff.mp hx) y (hperm.mem_iff.mp hy) z (hperm.mem_iff.mp hz)
  · intro x hx y hy
    exact h.antisymm x (hperm.mem_iff.mp hx) y (hperm.mem_iff.mp hy)

theorem Orders.ascends_mergeSort (h : a.Orders xs) : a.Ascends (xs.mergeSort a.le) := by
  -- The comparison is an order on the members of the list, and nothing is known of other numbers.
  have hmembers : (xs.attach.mergeSort fun x y => a.le x.1 y.1).map Subtype.val =
      xs.mergeSort a.le := by
    rw [List.map_mergeSort (f := Subtype.val) (s := a.le) fun _ _ _ _ => rfl,
      List.attach_map_subtype_val]
  unfold Ascends
  rw [← hmembers, List.pairwise_map]
  apply List.pairwise_mergeSort
  · intro x y z
    exact h.trans x.1 x.2 y.1 y.2 z.1 z.2
  · intro x y
    rw [Bool.or_eq_true]
    exact h.total x.1 x.2 y.1 y.2

/-- Numbers in a total order ascend in one way only. -/
theorem Orders.eq_of_ascends (h : a.Orders xs) (hperm : ys.Perm xs) (hxs : a.Ascends xs)
    (hys : a.Ascends ys) : ys = xs := by
  apply hperm.eq_of_pairwise _ hys hxs
  intro x y hx hy
  exact h.antisymm x (hperm.mem_iff.mp hx) y hy

theorem Ascends.le_of_head? (h : a.Ascends xs) (hxs : a.Orders xs) (hx : xs.head? = some x) :
    ∀ y ∈ xs, a.le x y = true := by
  cases xs with
  | nil => cases hx
  | cons z zs =>
    cases hx
    intro y hy
    cases hy with
    | head => exact hxs.refl List.mem_cons_self
    | tail _ hy => exact List.rel_of_pairwise_cons h hy

theorem Ascends.le_of_getLast? (h : a.Ascends xs) (hxs : a.Orders xs)
    (hx : xs.getLast? = some x) : ∀ y ∈ xs, a.le y x = true := by
  obtain ⟨front, rfl⟩ := List.getLast?_eq_some_iff.mp hx
  intro y hy
  rcases List.mem_append.mp hy with hfront | hlast
  · exact (List.pairwise_append.mp h).2.2 y hfront x List.mem_cons_self
  · rw [List.mem_singleton.mp hlast]
    exact hxs.refl (List.mem_append_right front List.mem_cons_self)

end Arithmetic

/-- The times of samples, in the order in which they were taken. -/
def taken (a : Arithmetic R) (samples : List Sample) : List R :=
  samples.map fun s => a.ofDuration s.duration

theorem length_taken (a : Arithmetic R) (samples : List Sample) :
    (taken a samples).length = samples.length := List.length_map _

theorem times_perm_taken (a : Arithmetic R) (samples : List Sample) :
    (times a samples).Perm (taken a samples) := List.mergeSort_perm _ _

theorem ascends_times (h : a.Orders (taken a samples)) : a.Ascends (times a samples) :=
  h.ascends_mergeSort

theorem eq_times_of_ascends (h : a.Orders (taken a samples)) {sorted : List R}
    (hperm : sorted.Perm (taken a samples)) (hsorted : a.Ascends sorted) :
    sorted = times a samples := by
  have htimes := times_perm_taken a samples
  exact (h.perm htimes).eq_of_ascends (hperm.trans htimes.symm) (ascends_times h) hsorted

theorem times_eq_of_perm (h : a.Orders (taken a samples)) (hperm : samples'.Perm samples) :
    times a samples' = times a samples := by
  have htaken : (taken a samples').Perm (taken a samples) := hperm.map _
  exact eq_times_of_ascends h ((times_perm_taken a samples').trans htaken)
    (ascends_times (h.perm htaken))

end Times

section Counters

/-- The pages that all samples restored together. -/
def pagesOf (samples : List Sample) : Nat := (samples.map Sample.pagesRestored).sum

theorem add_of_overflow {x y : Nat} (h : Word.limit ≤ x + y) :
    Word.add x y = .error (.overflow .add) := by
  unfold Word.add
  rw [if_neg (not_lt.mpr h)]

/-- Words are added one by one if and only if they can be added all at once. -/
theorem foldlM_add (samples : List Sample) {total : Nat} (h : total < Word.limit) :
    samples.foldlM (fun total s => Word.add total s.pagesRestored) total =
      Word.add total (pagesOf samples) := by
  induction samples generalizing total with
  | nil =>
    have hnone : Word.add total (pagesOf []) = .ok total :=
      Word.add_eq_ok_iff.mpr ⟨h, (Nat.add_zero total).symm⟩
    rw [List.foldlM_nil, hnone]
    rfl
  | cons s samples ih =>
    have hpages : pagesOf (s :: samples) = s.pagesRestored + pagesOf samples := rfl
    rw [List.foldlM_cons, hpages]
    by_cases hfits : total + s.pagesRestored < Word.limit
    · rw [Word.add_eq_ok_iff.mpr ⟨hfits, rfl⟩]
      show List.foldlM _ (total + s.pagesRestored) samples = _
      rw [ih hfits]
      unfold Word.add
      rw [Nat.add_assoc]
    · have hmore : Word.limit ≤ total + (s.pagesRestored + pagesOf samples) := by omega
      rw [add_of_overflow (not_lt.mp hfits), add_of_overflow hmore]
      rfl

theorem pagesRestored_eq (samples : List Sample) :
    pagesRestored samples = Word.add 0 (pagesOf samples) := foldlM_add samples (by decide)

theorem pagesOf_eq_of_perm (h : samples'.Perm samples) : pagesOf samples' = pagesOf samples :=
  (h.map Sample.pagesRestored).sum_eq

end Counters

theorem summarize_eq_of_perm (h : a.Orders (taken a samples)) (hperm : samples'.Perm samples)
    (aborted : Option String) :
    summarize a samples' aborted = summarize a samples aborted := by
  have hfailures : failuresIn samples' = failuresIn samples := hperm.countP_eq _
  unfold summarize
  rw [times_eq_of_perm h hperm, pagesRestored_eq, pagesRestored_eq, pagesOf_eq_of_perm hperm,
    hperm.length_eq, hfailures]

/-- What a summary says of samples. It says nothing of the least, the greatest and the middle time
where there is none. -/
structure Summary.Describes (s : Summary R) (a : Arithmetic R) (samples : List Sample) : Prop where
  iterations : s.iterations = samples.length
  failures : ∀ cause, s.failures = (Series.mk samples cause).failures
  completed : s.failures + samples.countP (fun s => s.ending = .completed) = samples.length
  pages : s.pagesRestored = pagesOf samples
  least : samples ≠ [] →
    s.min ∈ taken a samples ∧ ∀ t ∈ taken a samples, a.le s.min t = true
  greatest : samples ≠ [] →
    s.max ∈ taken a samples ∧ ∀ t ∈ taken a samples, a.le t s.max = true
  middle : samples.length % 2 = 1 → ∀ sorted : List R, sorted.Perm (taken a samples) →
    a.Ascends sorted → sorted[samples.length / 2]? = some s.median
  middles : samples ≠ [] → samples.length % 2 = 0 → ∀ sorted : List R,
    sorted.Perm (taken a samples) → a.Ascends sorted → ∃ x y,
      sorted[samples.length / 2 - 1]? = some x ∧ sorted[samples.length / 2]? = some y ∧
        s.median = a.div (a.add x y) (a.ofCount 2)

section Figures

variable {xs : List R}

theorem getD_of_lt {i : Nat} (h : i < xs.length) (d : R) : xs[i]? = some (xs.getD i d) := by
  simp [h]

theorem median_of_odd (h : xs.length % 2 = 1) :
    xs[xs.length / 2]? = some (a.median xs) := by
  unfold Arithmetic.median
  rw [if_neg (by omega), if_pos h]
  exact getD_of_lt (by omega) a.zero

theorem median_of_even (hne : xs ≠ []) (h : xs.length % 2 = 0) :
    ∃ x y, xs[xs.length / 2 - 1]? = some x ∧ xs[xs.length / 2]? = some y ∧
      a.median xs = a.div (a.add x y) (a.ofCount 2) := by
  have hpos : 0 < xs.length := List.length_pos_of_ne_nil hne
  refine ⟨xs.getD (xs.length / 2 - 1) a.zero, xs.getD (xs.length / 2) a.zero,
    getD_of_lt (by omega) a.zero, getD_of_lt (by omega) a.zero, ?_⟩
  unfold Arithmetic.median
  rw [if_neg (by omega), if_neg (by omega)]

theorem completed_add_failures (samples : List Sample) :
    failuresIn samples + samples.countP (fun s => s.ending = .completed) = samples.length := by
  have hsplit := List.length_eq_countP_add_countP (l := samples) fun s => s.ending = .completed
  have hfailures : samples.countP (fun s => ¬(decide (s.ending = .completed)) = true) =
      failuresIn samples := by
    unfold failuresIn
    simp
  rw [hsplit, hfailures, Nat.add_comm]

end Figures

theorem exists_summary (h : a.Orders (taken a samples)) (aborted : Option String)
    (hpages : pagesOf samples < Word.limit) :
    ∃ s, summarize a samples aborted = .ok s ∧ s.Describes a samples := by
  have hperm := times_perm_taken a samples
  have hordered := h.perm hperm
  have hascends := ascends_times h
  have hlength : (times a samples).length = samples.length :=
    hperm.length_eq.trans (length_taken a samples)
  have hsum : pagesRestored samples = .ok (pagesOf samples) := by
    rw [pagesRestored_eq]
    exact Word.add_eq_ok_iff.mpr ⟨by omega, by omega⟩
  have hinhabited : samples ≠ [] → times a samples ≠ [] := by
    intro hne hnil
    rw [hnil] at hlength
    exact hne (List.length_eq_zero_iff.mp hlength.symm)
  unfold summarize
  rw [hsum]
  refine ⟨_, rfl, ?_⟩
  constructor
  case iterations => rfl
  case failures => exact fun _ => rfl
  case completed => exact completed_add_failures samples
  case pages => rfl
  case least =>
    intro hne
    have hhead := List.head?_eq_some_head (hinhabited hne)
    have hle := hascends.le_of_head? hordered hhead
    show (times a samples).head?.getD a.zero ∈ _ ∧ _
    rw [hhead]
    exact ⟨hperm.mem_iff.mp (List.head_mem _), fun t ht => hle t (hperm.mem_iff.mpr ht)⟩
  case greatest =>
    intro hne
    have hlast := List.getLast?_eq_some_getLast (hinhabited hne)
    have hle := hascends.le_of_getLast? hordered hlast
    show (times a samples).getLast?.getD a.zero ∈ _ ∧ _
    rw [hlast]
    exact ⟨hperm.mem_iff.mp (List.getLast_mem _), fun t ht => hle t (hperm.mem_iff.mpr ht)⟩
  case middle =>
    intro hodd sorted hsorted hasc
    rw [eq_times_of_ascends h hsorted hasc, ← hlength]
    exact median_of_odd (by rwa [hlength])
  case middles =>
    intro hne heven sorted hsorted hasc
    rw [eq_times_of_ascends h hsorted hasc, ← hlength]
    exact median_of_even (hinhabited hne) (by rwa [hlength])

/-- Samples are summarized in the same way in whatever order they were taken, with a fault if and
only if the restored pages cannot be counted, and else as their sorted times tell. -/
theorem summarize_of_orders (h : a.Orders (taken a samples)) (aborted : Option String) :
    (∀ samples', samples'.Perm samples →
      summarize a samples' aborted = summarize a samples aborted) ∧
    (Word.limit ≤ pagesOf samples → summarize a samples aborted = .error (.overflow .add)) ∧
    (pagesOf samples < Word.limit →
      ∃ s, summarize a samples aborted = .ok s ∧ s.Describes a samples) := by
  constructor
  · exact fun samples' hperm => summarize_eq_of_perm h hperm aborted
  · constructor
    · intro hpages
      unfold summarize
      rw [pagesRestored_eq, add_of_overflow (by omega)]
      rfl
    · exact exists_summary h aborted

/-- Times as exact fractions. Roots are exact as far as they are fractions. -/
def rational : Arithmetic ℚ where
  ofDuration d := d.seconds * 1000000 + d.nanos / 1000
  ofCount n := n
  zero := 0
  add := (· + ·)
  sub := (· - ·)
  div := (· / ·)
  square x := x * x
  sqrt := Rat.sqrt
  le x y := decide (x ≤ y)

theorem orders_rational (xs : List ℚ) : rational.Orders xs := by
  constructor
  all_goals simp only [rational, decide_eq_true_eq]
  · exact fun x _ y _ => le_total x y
  · exact fun x _ y _ z _ => le_trans
  · exact fun x _ y _ => le_antisymm

/-- Three samples that were not taken in the order of their times. -/
def threeSamples : List Sample :=
  [⟨⟨3, 0⟩, .completed, 2⟩, ⟨⟨1, 0⟩, .failed 3, 0⟩, ⟨⟨2, 0⟩, .completed, 1⟩]

theorem summarize_of_orders_threeSamples :
    rational.Orders (taken rational threeSamples) ∧
    summarize rational threeSamples.reverse none = summarize rational threeSamples none ∧
    ∃ s, summarize rational threeSamples none = .ok s ∧ s.failures = 1 ∧ s.pagesRestored = 3 ∧
      s.min = 1000000 ∧ s.median = 2000000 ∧ s.max = 3000000 := by
  have horders := orders_rational (taken rational threeSamples)
  obtain ⟨hperm, -, hsummary⟩ := summarize_of_orders horders none
  have htaken : taken rational threeSamples = [3000000, 1000000, 2000000] := by
    norm_num [taken, rational, threeSamples]
  have hsorted : rational.Ascends [1000000, 2000000, 3000000] := by
    norm_num [Arithmetic.Ascends, rational]
  have hpermuted : [1000000, 2000000, 3000000].Perm (taken rational threeSamples) := by
    rw [htaken]
    decide
  obtain ⟨s, hs, hd⟩ := hsummary (by decide)
  have hmin : s.min = 1000000 := by
    obtain ⟨hmem, hle⟩ := hd.least (by decide)
    have hlow : s.min ≤ 1000000 := of_decide_eq_true (hle 1000000 (by simp [htaken]))
    simp only [htaken, List.mem_cons, List.not_mem_nil, or_false] at hmem
    rcases hmem with h | h | h <;> linarith
  have hmax : s.max = 3000000 := by
    obtain ⟨hmem, hle⟩ := hd.greatest (by decide)
    have hhigh : 3000000 ≤ s.max := of_decide_eq_true (hle 3000000 (by simp [htaken]))
    simp only [htaken, List.mem_cons, List.not_mem_nil, or_false] at hmem
    rcases hmem with h | h | h <;> linarith
  have hmedian : s.median = 2000000 :=
    (Option.some.inj (hd.middle (by decide) _ hpermuted hsorted)).symm
  exact ⟨horders, hperm _ (List.reverse_perm _), s, hs, hd.failures none, hd.pages, hmin, hmedian,
    hmax⟩

end Rewind.Report
