import Rewind.Proofs.Pieces

/-! Classification of regions: the pieces of each region, as regions again. Only a region that
starts inside a page can fall into pieces that are no whole pages, and then classification gives
up. -/
namespace Rewind

namespace Region

variable {r : Region} {part : Span}

/-- How far the file offset moves along with a start. -/
def shift (r : Region) (start : Nat) : Nat :=
  if r.device.isReal = true then start - r.start else 0

/-- A region has everything from a larger one but its place, which the file offset goes with. -/
structure PartOf (r q : Region) : Prop where
  backing : q.backing = r.backing
  access : q.access = r.access
  shared : q.shared = r.shared
  device : q.device = r.device
  inode : q.inode = r.inode
  offset : q.offset.toNat = r.offset.toNat + r.shift q.start

theorem partOf_self (r : Region) : r.PartOf r := by
  constructor <;> simp [shift]

theorem aligned_shift {start : Nat} (h : Page.IsAligned (start - r.start)) :
    Page.IsAligned (r.offset.toNat + r.shift start) := by
  have := r.alignedOffset
  unfold shift Page.IsAligned Page.size at *
  split <;> omega

theorem shift_le {start : Nat} (h : start ≤ r.stop) : r.shift start ≤ r.size := by
  have hsize : start - r.start ≤ r.size := Nat.sub_le_sub_right h _
  unfold shift
  split <;> omega

/-- Whole pages at a distance of whole pages from the start are a region of their own. -/
theorem subregion_isOk (hin : r.span.contains part = true) (hsize : Page.IsAligned part.size)
    (hstart : Page.IsAligned (part.start - r.start))
    (hoff : r.offset.toNat + r.size < Word.limit) :
    ∃ q, r.subregion part = .ok q ∧ q.span = part ∧ r.PartOf q := by
  have hstop : part.start ≤ r.stop := part.ordered.trans (Span.contains_iff.mp hin).2
  have hsum : r.offset.toNat + r.shift part.start < Word.limit := by
    have := shift_le hstop
    omega
  have hadd : Word.add r.offset.toNat (r.shift part.start) =
      .ok (r.offset.toNat + r.shift part.start) := Word.add_eq_ok_iff.mpr ⟨hsum, rfl⟩
  have hword : (UInt64.ofNat (r.offset.toNat + r.shift part.start)).toNat =
      r.offset.toNat + r.shift part.start := UInt64.toNat_ofNat_of_lt' hsum
  have haligned : Page.IsAligned (UInt64.ofNat (r.offset.toNat + r.shift part.start)).toNat :=
    hword.symm ▸ aligned_shift hstart
  refine ⟨⟨part, r.access, r.shared, _, r.device, r.inode, r.backing, hsize, haligned⟩,
    ?_, rfl, ?_⟩
  · show (if _ then _ else _) = _
    rw [if_pos hin]
    show (Word.add r.offset.toNat (r.shift part.start) >>= _) = _
    rw [hadd]
    show make _ _ _ _ _ _ _ = _
    rw [make, dif_pos hsize, dif_pos haligned]
  · constructor <;> first | rfl | exact hword

theorem subregion_self (r : Region) : r.subregion r.span = .ok r := by
  have hadd : Word.add r.offset.toNat (r.shift r.span.start) = .ok r.offset.toNat := by
    rw [Word.add_eq_ok_iff, shift, start, Nat.sub_self, ite_self]
    exact ⟨r.offset.toNat_lt, rfl⟩
  show (if _ then _ else _) = _
  rw [if_pos (Span.contains_refl _)]
  show (Word.add r.offset.toNat (r.shift r.span.start) >>= _) = _
  rw [hadd]
  show make _ _ _ _ _ _ _ = _
  rw [UInt64.ofNat_toNat, make, dif_pos r.wholePages, dif_pos r.alignedOffset]

/-- A part from the very start on has to be whole pages. -/
theorem subregion_torn (hin : r.span.contains part = true) (hstart : part.start = r.start)
    (hsize : ¬Page.IsAligned part.size) (hoff : r.offset.toNat + r.size < Word.limit) :
    r.subregion part = .error (.broken .wholePages) := by
  have hadd : Word.add r.offset.toNat (r.shift part.start) = .ok r.offset.toNat := by
    rw [Word.add_eq_ok_iff, shift, hstart, Nat.sub_self, ite_self]
    omega
  show (if _ then _ else _) = _
  rw [if_pos hin]
  show (Word.add r.offset.toNat (r.shift part.start) >>= _) = _
  rw [hadd]
  show make _ _ _ _ _ _ _ = _
  rw [make, dif_neg hsize]

end Region

/-- Where every step gives a result that it can be told from, all steps together do. -/
theorem exists_mapM_ok {ε α β : Type} {f : α → Except ε β} {g : β → α} {Q : β → Prop} {l : List α}
    (h : ∀ a ∈ l, ∃ b, f a = .ok b ∧ g b = a ∧ Q b) :
    ∃ bs, l.mapM f = .ok bs ∧ bs.map g = l ∧ ∀ b ∈ bs, Q b := by
  induction l with
  | nil => exact ⟨[], rfl, rfl, by simp⟩
  | cons a l ih =>
    obtain ⟨⟨b, hb, rfl, hQ⟩, hl⟩ := List.forall_mem_cons.mp h
    obtain ⟨bs, hbs, hmap, hall⟩ := ih hl
    refine ⟨b :: bs, ?_, by rw [List.map_cons, hmap], List.forall_mem_cons.mpr ⟨hQ, hall⟩⟩
    rw [List.mapM_cons, hb, hbs]
    rfl

namespace Policy

open Exclusion (Covers Drops)

variable {p : Policy} {r : Region}

/-- What becomes of one region: pieces that partition it, each with the region's own attributes,
and the verdicts in the order in which the rules apply. -/
structure Partitions (p : Policy) (r : Region) (out : List (Region × Verdict)) : Prop where
  parts : ∀ q ∈ out, r.PartOf q.1
  inhabited : r.start < r.stop → ∀ q ∈ out, q.1.start < q.1.stop
  ascending : r.start < r.stop → out.Pairwise fun a b => a.1.stop ≤ b.1.start
  covers : ∀ x, x ∈ r.span ↔ ∃ q ∈ out, x ∈ q.1.span
  pseudo : r.isPseudo = true → out = [(r, .pseudo)]
  noAccess : r.isPseudo = false → r.access.isNone = true → out = [(r, .noAccess)]
  dropped : r.isPseudo = false → r.access.isNone = false →
    ∀ e, First (Drops r.span) p.exclusions e → out = [(r, .excluded e.reason)]
  judged : r.isPseudo = false → r.access.isNone = false →
    (∀ e ∈ p.exclusions, ¬e.Drops r.span) → ∀ q ∈ out, ∀ x ∈ q.1.span, Judged p.exclusions x q.2

/-- A region that no rule takes as a whole, that starts inside a page and is split. -/
structure Tears (p : Policy) (r : Region) : Prop where
  real : r.isPseudo = false
  access : r.access.isNone = false
  kept : ∀ e ∈ p.exclusions, ¬e.Drops r.span
  start : ¬Page.IsAligned r.start
  splits : Splits p.exclusions r.span

theorem wholeReason_of_first {s : Span} {e : Exclusion} (h : First (Drops s) p.exclusions e) :
    p.wholeReason s = some e.reason := by
  obtain ⟨before, after, heq, he, hbefore⟩ := h
  refine List.findSome?_eq_some_iff.mpr ⟨before, e, after, heq, ?_, ?_⟩
  · cases e with
    | span => exact he.elim
    | holding address reason =>
      have hmem : address ∈ s := he
      simp [hmem, Exclusion.reason]
  · intro d hd
    cases d with
    | span => rfl
    | holding address reason =>
      have hmem : address ∉ s := hbefore _ hd
      simp [hmem]

theorem wholeReason_eq_none_iff {s : Span} :
    p.wholeReason s = none ↔ ∀ e ∈ p.exclusions, ¬e.Drops s := by
  rw [wholeReason, List.findSome?_eq_none_iff]
  refine forall₂_congr fun e _ => ?_
  cases e with
  | span => simp [Drops]
  | holding address reason =>
    show _ ↔ address ∉ s
    simp

/-- The rest of the classification: no rule takes the region as a whole. -/
theorem classifyRegion_of_kept (hr : r.isPseudo = false) (ha : r.access.isNone = false)
    (hk : ∀ e ∈ p.exclusions, ¬e.Drops r.span) :
    p.classifyRegion r = (p.pieces r.span).mapM fun piece => do
      let part ← r.subregion piece.1
      return (part, piece.2) := by
  simp [classifyRegion, hr, ha, wholeReason_eq_none_iff.mpr hk]

/-- A region that is one single piece is partitioned by it. -/
theorem partitions_single {v : Verdict}
    (hpseudo : r.isPseudo = true → v = .pseudo)
    (hnone : r.isPseudo = false → r.access.isNone = true → v = .noAccess)
    (hdrop : r.isPseudo = false → r.access.isNone = false →
      ∀ e, First (Drops r.span) p.exclusions e → v = .excluded e.reason)
    (hjudged : r.isPseudo = false → r.access.isNone = false →
      (∀ e ∈ p.exclusions, ¬e.Drops r.span) → ∀ x ∈ r.span, Judged p.exclusions x v) :
    Partitions p r [(r, v)] := by
  constructor
  · simp [Region.partOf_self]
  · simp
  · simp
  · simp
  · exact fun h => by rw [hpseudo h]
  · exact fun h h' => by rw [hnone h h']
  · exact fun h h' e he => by rw [hdrop h h' e he]
  · intro h h' hk q hq
    rw [List.mem_singleton.mp hq]
    exact hjudged h h' hk

/-- Regions on the pieces of a span partition it. -/
theorem partitions_of_divides {out : List (Region × Verdict)} (hr : r.isPseudo = false)
    (ha : r.access.isNone = false) (hk : ∀ e ∈ p.exclusions, ¬e.Drops r.span)
    (hdiv : Divides r.span p.exclusions (out.map fun q => (q.1.span, q.2)))
    (hsorted : (out.map fun q => (q.1.span, q.2)).Pairwise fun a b => a.1.start ≤ b.1.start)
    (hparts : ∀ q ∈ out, r.PartOf q.1) : Partitions p r out := by
  have hmem : ∀ q ∈ out, (q.1.span, q.2) ∈ out.map fun q => (q.1.span, q.2) := fun q hq =>
    List.mem_map.mpr ⟨q, hq, rfl⟩
  constructor
  · exact hparts
  · exact fun _ q hq => hdiv.inhabited _ (hmem q hq)
  · exact fun _ => List.pairwise_map.mp (hdiv.ascending hsorted)
  · intro x
    rw [hdiv.covers x]
    constructor
    · rintro ⟨_, hp, hx⟩
      obtain ⟨q, hq, rfl⟩ := List.mem_map.mp hp
      exact ⟨q, hq, hx⟩
    · rintro ⟨q, hq, hx⟩
      exact ⟨_, hmem q hq, hx⟩
  · exact fun h => absurd h (by simp [hr])
  · exact fun _ h => absurd h (by simp [ha])
  · rintro _ _ e ⟨before, after, heq, he, _⟩
    exact absurd he (hk e (by simp [heq]))
  · exact fun _ _ _ q hq => hdiv.judged _ (hmem q hq)

/-- Where every piece is a region of its own, classification gives them all. -/
theorem classifyRegion_of_parts (hr : r.isPseudo = false) (ha : r.access.isNone = false)
    (hk : ∀ e ∈ p.exclusions, ¬e.Drops r.span) (hpos : r.start < r.stop)
    (hparts : ∀ piece ∈ p.pieces r.span,
      ∃ q, r.subregion piece.1 = .ok q ∧ q.span = piece.1 ∧ r.PartOf q) :
    ∃ out, p.classifyRegion r = .ok out ∧ Partitions p r out := by
  have hsteps : ∀ piece ∈ p.pieces r.span, ∃ q : Region × Verdict,
      (do let part ← r.subregion piece.1
          return (part, piece.2) : Except Fault (Region × Verdict)) = .ok q ∧
        (q.1.span, q.2) = piece ∧ r.PartOf q.1 := by
    intro piece hp
    obtain ⟨q, hq, hspan, hpart⟩ := hparts piece hp
    refine ⟨(q, piece.2), ?_, by rw [hspan], hpart⟩
    rw [hq]
    rfl
  obtain ⟨out, hout, hmap, hall⟩ := exists_mapM_ok hsteps
  refine ⟨out, (classifyRegion_of_kept hr ha hk).trans hout, ?_⟩
  apply partitions_of_divides hr ha hk
  · exact hmap ▸ p.divides_pieces hpos
  · exact hmap ▸ p.pieces_sorted r.span
  · exact hall

/-- A region from a page boundary on falls into whole pages. -/
theorem subregion_of_aligned (hstart : Page.IsAligned r.start) (hcuts : CutsPages p.exclusions)
    (hoff : r.offset.toNat + r.size < Word.limit) {piece : Span × Verdict}
    (hp : piece ∈ p.pieces r.span) :
    ∃ q, r.subregion piece.1 = .ok q ∧ q.span = piece.1 ∧ r.PartOf q := by
  have hin := mem_pieces_within hp
  have hle := Span.contains_iff.mp hin
  have hwhole := r.wholePages
  have hordered := r.span.ordered
  have hends := mem_pieces_ends hcuts hp
  unfold Region.start at hstart
  apply Region.subregion_isOk hin _ _ hoff
  all_goals
    unfold Region.start at *
    simp only [Page.IsAligned, Span.size, Page.size] at *
    omega

/-- A region that is not split, an empty one for instance, is one piece, the region itself. -/
theorem classifyRegion_of_not_splits (hr : r.isPseudo = false) (ha : r.access.isNone = false)
    (hk : ∀ e ∈ p.exclusions, ¬e.Drops r.span) (hsplit : ¬Splits p.exclusions r.span) :
    ∃ out, p.classifyRegion r = .ok out ∧ Partitions p r out := by
  obtain ⟨v, hv⟩ := pieces_of_not_splits hsplit
  refine ⟨[(r, v)], ?_, ?_⟩
  · rw [classifyRegion_of_kept hr ha hk, hv, List.mapM_cons, Region.subregion_self]
    rfl
  · apply partitions_single
    · exact fun h => absurd h (by simp [hr])
    · exact fun _ h => absurd h (by simp [ha])
    · rintro _ _ e ⟨before, after, heq, he, _⟩
      exact absurd he (hk e (by simp [heq]))
    · intro _ _ _ x hx
      have hpos : r.span.start < r.span.stop := hx.1.trans_lt hx.2
      exact (p.divides_pieces hpos).judged (r.span, v) (by simp [hv]) x hx

theorem classifyRegion_of_not_tears (hcuts : CutsPages p.exclusions)
    (hoff : r.offset.toNat + r.size < Word.limit) (ht : ¬p.Tears r) :
    ∃ out, p.classifyRegion r = .ok out ∧ p.Partitions r out := by
  cases hr : r.isPseudo with
  | true =>
    refine ⟨[(r, .pseudo)], by simp [classifyRegion, hr], partitions_single ?_ ?_ ?_ ?_⟩ <;>
      simp [hr]
  | false =>
    cases ha : r.access.isNone with
    | true =>
      refine ⟨[(r, .noAccess)], by simp [classifyRegion, hr, ha],
        partitions_single ?_ ?_ ?_ ?_⟩ <;> simp [hr, ha]
    | false =>
      cases hw : p.wholeReason r.span with
      | some reason =>
        refine ⟨[(r, .excluded reason)], by simp [classifyRegion, hr, ha, hw],
          partitions_single ?_ ?_ ?_ ?_⟩
        · simp [hr]
        · simp [ha]
        · intro _ _ e he
          rw [Option.some.inj (hw.symm.trans (wholeReason_of_first he))]
        · intro _ _ hk
          rw [wholeReason_eq_none_iff.mpr hk] at hw
          cases hw
      | none =>
        have hk := wholeReason_eq_none_iff.mp hw
        by_cases hsplit : Splits p.exclusions r.span
        · have hstart : Page.IsAligned r.start := by_contra fun hs => ht ⟨hr, ha, hk, hs, hsplit⟩
          exact classifyRegion_of_parts hr ha hk hsplit.lt fun piece hp =>
            subregion_of_aligned hstart hcuts hoff hp
        · exact classifyRegion_of_not_splits hr ha hk hsplit

/-- The first piece of a torn region ends at a page boundary and does not start at one. -/
theorem classifyRegion_of_tears (hcuts : CutsPages p.exclusions)
    (hoff : r.offset.toNat + r.size < Word.limit) (ht : p.Tears r) :
    p.classifyRegion r = .error (.broken .wholePages) := by
  have hdiv := p.divides_pieces ht.splits.lt
  have hsorted := p.pieces_sorted r.span
  obtain ⟨first, hfirst, hstart⟩ := (hdiv.covers r.start).mp ⟨le_refl _, ht.splits.lt⟩
  rw [classifyRegion_of_kept ht.real ht.access ht.kept]
  cases hpieces : p.pieces r.span with
  | nil => simp [hpieces] at hfirst
  | cons piece rest =>
    have hp : piece ∈ p.pieces r.span := by simp [hpieces]
    have hin := mem_pieces_within hp
    have hle := Span.contains_iff.mp hin
    have hpstart : piece.1.start = r.start := by
      have hmin : piece.1.start ≤ first.1.start := by
        rw [hpieces] at hfirst hsorted
        rcases List.mem_cons.mp hfirst with rfl | hmem
        · exact le_refl _
        · exact (List.pairwise_cons.mp hsorted).1 first hmem
      exact le_antisymm (hmin.trans hstart.1) hle.1
    have hsize : ¬Page.IsAligned piece.1.size := by
      have hne : piece.1.stop ≠ r.span.stop := by
        intro hstop
        have hwhole : r.span.start = piece.1.start ∧ piece.1.stop = r.span.stop :=
          ⟨hpstart.symm, hstop⟩
        exact ne_of_splits ht.splits hp
          (Span.contains_antisymm (Span.contains_iff.mpr ⟨hwhole.1.ge, hwhole.2.ge⟩) hin)
      have hstop : Page.IsAligned piece.1.stop :=
        (mem_pieces_ends hcuts hp).2.resolve_left hne
      have hpos := hdiv.inhabited piece hp
      have hoffset := ht.start
      rw [← hpstart] at hoffset
      simp only [Page.IsAligned, Span.size, Page.size] at *
      omega
    rw [List.mapM_cons, Region.subregion_torn hin hpstart hsize hoff]
    rfl

theorem classify_cons_ok {rs : List Region} {first others : List (Region × Verdict)}
    (hfirst : p.classifyRegion r = .ok first) (hothers : p.classify rs = .ok others) :
    p.classify (r :: rs) = .ok (first ++ others) := by
  rw [classify, hfirst, hothers]
  rfl

theorem classify_cons_error {rs : List Region} {f : Fault}
    (hfirst : p.classifyRegion r = .error f) : p.classify (r :: rs) = .error f := by
  rw [classify, hfirst]
  rfl

theorem classify_cons_error_of_ok {rs : List Region} {first : List (Region × Verdict)} {f : Fault}
    (hfirst : p.classifyRegion r = .ok first) (hothers : p.classify rs = .error f) :
    p.classify (r :: rs) = .error f := by
  rw [classify, hfirst, hothers]
  rfl

/-- Classification partitions every region, in the order of the regions, unless it would have to
tear one: it gives up exactly then. -/
theorem classify_partitions (p : Policy) (regions : List Region)
    (hoff : ∀ r ∈ regions, r.offset.toNat + r.size < Word.limit)
    (hcuts : CutsPages p.exclusions) :
    ((∀ r ∈ regions, ¬p.Tears r) →
      ∃ outs, p.classify regions = .ok outs.flatten ∧ List.Forall₂ p.Partitions regions outs) ∧
    ((∃ r ∈ regions, p.Tears r) → p.classify regions = .error (.broken .wholePages)) := by
  induction regions with
  | nil => exact ⟨fun _ => ⟨[], rfl, .nil⟩, by simp⟩
  | cons r rs ih =>
    obtain ⟨hr, hrs⟩ := List.forall_mem_cons.mp hoff
    obtain ⟨hsound, hgives⟩ := ih hrs
    constructor
    · intro h
      obtain ⟨htear, htears⟩ := List.forall_mem_cons.mp h
      obtain ⟨first, hfirst, hpart⟩ := classifyRegion_of_not_tears hcuts hr htear
      obtain ⟨outs, houts, hall⟩ := hsound htears
      exact ⟨first :: outs, classify_cons_ok hfirst houts, .cons hpart hall⟩
    · intro h
      by_cases htear : p.Tears r
      · exact classify_cons_error (classifyRegion_of_tears hcuts hr htear)
      · obtain ⟨first, hfirst, _⟩ := classifyRegion_of_not_tears hcuts hr htear
        exact classify_cons_error_of_ok hfirst (hgives (by simpa [htear] using h))

/-- A policy that excludes the second page and, with its region, the start of the ninth one. -/
def secondPage : Policy :=
  (empty.excludeSpan ⟨0x1000, 0x2000, by decide, by decide⟩ .ownMemory).excludeHolding 0x8000
    .ownStack

/-- The first four pages, mapped from the second page of a file. -/
def fourPages : Region :=
  ⟨⟨0, 0x4000, by decide, by decide⟩, .readWrite, false, 0x1000, ⟨1⟩, 7, .file "data", by decide,
    by decide⟩

/-- As many bytes as a page has, from the middle of the first page on. -/
def halfWay : Region :=
  ⟨⟨0x800, 0x1800, by decide, by decide⟩, .readWrite, false, 0, .none, 0, .anonymous, by decide,
    Nat.zero_mod _⟩

theorem exclusions_secondPage : secondPage.exclusions =
    [.span ⟨0x1000, 0x2000, by decide, by decide⟩ .ownMemory, .holding 0x8000 .ownStack] := by
  decide

theorem cutsPages_secondPage : CutsPages secondPage.exclusions := by
  intro cut reason hmem
  simp only [exclusions_secondPage, List.mem_cons, List.not_mem_nil, or_false,
    Exclusion.span.injEq, reduceCtorEq] at hmem
  obtain ⟨rfl, rfl⟩ := hmem
  decide

theorem tears_halfWay : secondPage.Tears halfWay := by
  constructor
  · decide
  · decide
  · rw [exclusions_secondPage]
    simp [Drops, Span.mem_def, halfWay]
  · decide
  · rw [exclusions_secondPage]
    refine ⟨_, ⟨[], _, rfl, ?_, by simp⟩, ?_⟩
    · show halfWay.span.intersects _ = true
      decide
    · show ¬Span.contains _ halfWay.span = true
      decide

theorem classify_partitions_secondPage :
    (∃ outs, secondPage.classify [fourPages] = .ok outs.flatten ∧
      List.Forall₂ secondPage.Partitions [fourPages] outs) ∧
    secondPage.classify [fourPages, halfWay] = .error (.broken .wholePages) := by
  constructor
  · apply (classify_partitions secondPage [fourPages] (by decide) cutsPages_secondPage).1
    intro r hr ht
    rw [List.mem_singleton.mp hr] at ht
    exact ht.start (by decide)
  · exact (classify_partitions secondPage [fourPages, halfWay] (by decide)
      cutsPages_secondPage).2 ⟨halfWay, by simp, tears_halfWay⟩

/-- A region that is valid and starts inside a page is cut into what is no region. -/
theorem not_partitions_halfWay :
    (∀ r ∈ [halfWay], r.offset.toNat + r.size < Word.limit) ∧ CutsPages secondPage.exclusions ∧
      ¬∃ outs, secondPage.classify [halfWay] = .ok outs.flatten ∧
        List.Forall₂ secondPage.Partitions [halfWay] outs := by
  refine ⟨by decide, cutsPages_secondPage, ?_⟩
  rintro ⟨outs, houts, -⟩
  rw [classify_cons_error (classifyRegion_of_tears cutsPages_secondPage (by decide)
    tears_halfWay)] at houts
  cases houts

end Policy
end Rewind
