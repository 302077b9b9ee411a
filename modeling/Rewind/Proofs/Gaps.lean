import Rewind.Proofs.Courses

/-! The gap that is left when captured pages are not guarded again. A page is brought back once, at
the end of the iteration that first writes to it; all later writes to it stay. -/
namespace Rewind

/-- Attended pages lie in the usable address space. -/
theorem Watch.Rests.finite_pages {pages : Nat → Prop} {base : Memory} {w : Watch}
    (h : w.Rests pages base) : {p | pages p}.Finite := by
  apply (Set.finite_le_nat Mapping.limit).subset
  intro p hp
  have hlow := h.baselined.low p hp
  simp only [Page.size, Set.mem_ofPred_eq] at hlow ⊢
  omega

namespace Bench

open Watch (Rests Open Untouched touched)
/-- The page is open to writes and not captured, and has the bytes that it has in this memory. -/
def Leaked (m : Memory) (w : Watch) (n : Nat) : Prop :=
  w.memory.isGuarded n = false ∧ n * Page.size ∉ w.monitor.snapshot.addresses.items ∧
    ∀ x, Page.number x = n → w.memory.byte x = m.byte x

variable {σ : Type} {pages : Nat → Prop} {r : Job σ} {series : Series} {b' : Bench σ}

/-- What a run that does not guard captured pages again comes to. Up to the iteration that first
writes to it a page stays as it was at the start of the run, to which it is also brought back at the
end of that iteration; from then on it is not captured again, and holds what all later iterations
wrote to it. Each sample counts the pages that its iteration was the first to write to. -/
structure Gap (pages : Nat → Prop) (r : Job σ) (series : Series) : Prop where
  reached : ∀ k ≤ r.count, (r.upTo k).on r.bench = (.ok (), r.start k)
  fresh : ∀ k ≤ r.count, ∀ p, pages p → r.Fresh k p →
    Untouched r.bench.memory (r.start k).toWatch p
  leaked : ∀ j k, j < k → k ≤ r.count → ∀ p, pages p → r.First j p →
    Leaked (r.bench.memory.writeAll ((List.range' (j + 1) (k - (j + 1))).flatMap r.writes))
      (r.start k).toWatch p
  captures : ∀ k < r.count, ∃ conclusion c,
    (call r.target r.args).on (r.start k) = (.ok conclusion, c) ∧
      ∀ p, p * Page.size ∈ c.monitor.snapshot.addresses.items ↔ pages p ∧ r.First k p
  length : series.samples.length = r.count
  sample : ∀ k < r.count,
    series.samples[k]?.map (·.pagesRestored) = some (Set.ncard {p | pages p ∧ r.First k p})
  total : (series.samples.map (·.pagesRestored)).sum =
    Set.ncard {p | pages p ∧ ∃ k < r.count, r.Touches k p}
  bounded : (series.samples.map (·.pagesRestored)).sum ≤ Set.ncard {p | pages p}

namespace Job

theorem attends_iff (hoff : r.options.rearm = false) {k p : Nat} :
    r.Attends pages k p ↔ pages p ∧ r.Fresh k p := by simp [Attends, hoff]

theorem reaches_iff (hoff : r.options.rearm = false) {k p : Nat} :
    r.Attends pages k p ∧ r.Touches k p ↔ pages p ∧ r.First k p := by
  rw [attends_iff hoff, and_assoc, First, and_comm (a := r.Fresh k p)]

theorem finite_touches (r : Job σ) (n : Nat) : {p | ∃ k < n, r.Touches k p}.Finite := by
  apply (List.finite_toSet ((List.range n).flatMap fun k => touched (r.writes k))).subset
  rintro p ⟨k, hk, hp⟩
  exact List.mem_flatMap.mpr ⟨k, List.mem_range.mpr hk, hp⟩

/-- Each page is counted once, in the iteration that first writes to it. -/
theorem sum_first (pages : Nat → Prop) (r : Job σ) (n : Nat) :
    ((List.range n).map fun k => Set.ncard {p | pages p ∧ r.First k p}).sum =
      Set.ncard {p | pages p ∧ ∃ k < n, r.Touches k p} := by
  induction n with
  | zero => simp
  | succ n ih =>
    have hold : {p | pages p ∧ ∃ k < n, r.Touches k p}.Finite :=
      (r.finite_touches n).subset fun p hp => hp.2
    have hnew : {p | pages p ∧ r.First n p}.Finite :=
      (r.finite_touches (n + 1)).subset fun p hp => ⟨n, Nat.lt_succ_self n, hp.2.1⟩
    have hdisjoint : Disjoint {p | pages p ∧ ∃ k < n, r.Touches k p}
        {p | pages p ∧ r.First n p} := by
      rw [Set.disjoint_left]
      rintro p ⟨-, k, hk, hp⟩ ⟨-, -, hfresh⟩
      exact hfresh k hk hp
    have hunion : {p | pages p ∧ ∃ k < n + 1, r.Touches k p} =
        {p | pages p ∧ ∃ k < n, r.Touches k p} ∪ {p | pages p ∧ r.First n p} := by
      ext p
      simp only [Set.mem_union, Set.mem_ofPred_eq, Nat.exists_lt_succ_right, First, Fresh]
      by_cases hp : ∃ k < n, r.Touches k p <;> grind
    rw [List.range_succ, List.map_append, List.sum_append, ih, hunion,
      Set.ncard_union_eq hdisjoint hold hnew]
    simp

/-- A run of a routine that is not given up leaves the gap, if captured pages are not guarded
again. -/
theorem gap_of_run {base : Memory} (hoff : r.options.rearm = false)
    (h : r.bench.toWatch.Rests pages base) (ho : Open pages r.bench.toWatch)
    (hs : r.bench.scheduler.samples.Fits) (hc : r.bench.scheduler.checksums.Fits)
    (hrun : r.run.on r.bench = (.ok series, b')) (ha : series.aborted = none) :
    Gap pages r series := by
  obtain ⟨hreached, hend, hseries⟩ := upTo_of_run hrun ha
  have hcourse (k : Nat) (hk : k ≤ r.count) : Course pages r k :=
    ((upTo_meets h ho hs hc hk).ok (hreached k hk)).2
  have hsamples : series.samples = (List.range r.count).map (r.row pages) := by
    rw [hseries, hend, (hcourse r.count le_rfl).rows]
  have hrestored : series.samples.map (·.pagesRestored) =
      (List.range r.count).map fun k => Set.ncard {p | pages p ∧ r.First k p} := by
    rw [hsamples, List.map_map]
    apply List.map_congr_left
    intro k _
    simp only [Function.comp_apply, row, reaches_iff hoff]
  have htotal : (series.samples.map (·.pagesRestored)).sum =
      Set.ncard {p | pages p ∧ ∃ k < r.count, r.Touches k p} := by
    rw [hrestored, sum_first]
  constructor
  · exact hreached
  · intro k hk p hp hfresh
    have hattends : r.Attends pages k p := (attends_iff hoff).mpr ⟨hp, hfresh⟩
    refine ⟨(hcourse k hk).parted.pristine.guarded hattends,
      (hcourse k hk).parted.pristine.not_mem _, ?_⟩
    rintro x rfl
    rw [Memory.byte_eq, Memory.byte_eq, (hcourse k hk).restored _ hattends]
  · intro j k hj hk p hp hfirst
    have hnot : ¬r.Attends pages k p := fun hattends =>
      ((attends_iff hoff).mp hattends).2 j hj hfirst.1
    refine ⟨(hcourse k hk).parted.opened p hnot, (hcourse k hk).parted.pristine.not_mem _, ?_⟩
    rintro x rfl
    rw [Memory.byte_eq, Memory.byte_eq, (hcourse k hk).leaked hoff j hj _ hp hfirst]
  · intro k hk
    obtain ⟨conclusion, c, hon, hmem⟩ := (hcourse (k + 1) hk).captures k (Nat.lt_succ_self k)
    exact ⟨conclusion, c, hon, fun p => (hmem p).trans (reaches_iff hoff)⟩
  · rw [hsamples, List.length_map, List.length_range]
  · intro k hk
    rw [← List.getElem?_map, hrestored, List.getElem?_map, List.getElem?_range hk, Option.map_some]
  · exact htotal
  · rw [htotal]
    exact Set.ncard_le_ncard (fun p hp => hp.1) h.finite_pages

end Job

end Bench

end Rewind
