import Rewind.Proofs.Classification

/-! Selection of what is monitored. The pieces that are left of a region are the largest spans in it
that no exclusion covers, so they are the same in whatever order, and however often, the exclusions
were made. Only whether a region is torn depends on the order. -/
namespace Rewind

namespace Span

variable {s t u : Span} {x : Nat}

theorem mem_of_contains (h : s.contains t = true) (hx : x ∈ t) : x ∈ s := by
  rw [contains_iff] at h
  rw [mem_def] at *
  omega

/-- The least span that encloses two spans. -/
def hull (s t : Span) : Span where
  start := min s.start t.start
  stop := max s.stop t.stop
  ordered := by have := s.ordered; omega
  bounded := by have := s.bounded; have := t.bounded; omega

theorem contains_hull_left : (s.hull t).contains s = true := by
  rw [contains_iff]
  exact ⟨min_le_left _ _, le_max_left _ _⟩

theorem contains_hull_right : (s.hull t).contains t = true := by
  rw [contains_iff]
  exact ⟨min_le_right _ _, le_max_right _ _⟩

theorem hull_within (hs : u.contains s = true) (ht : u.contains t = true) :
    u.contains (s.hull t) = true := by
  rw [contains_iff] at *
  exact ⟨le_min hs.1 ht.1, max_le hs.2 ht.2⟩

/-- Spans with an address in common leave no gap between them. -/
theorem mem_hull {y : Nat} (hs : x ∈ s) (ht : x ∈ t) : y ∈ s.hull t ↔ y ∈ s ∨ y ∈ t := by
  simp only [mem_def, hull] at *
  omega

end Span

namespace Region

variable {r q q' : Region} {part : Span}

theorem of_make {span : Span} {access : Access} {shared : Bool} {offset inode : UInt64}
    {device : Device} {backing : Backing}
    (h : make span access shared offset device inode backing = .ok q) :
    q.span = span ∧ q.access = access ∧ q.backing = backing := by
  unfold make at h
  split_ifs at h
  cases h
  exact ⟨rfl, rfl, rfl⟩

theorem of_subregion (h : r.subregion part = .ok q) :
    q.span = part ∧ q.access = r.access ∧ q.backing = r.backing := by
  have hdef : r.subregion part = if r.span.contains part = true then
      Word.add r.offset.toNat (r.shift part.start) >>= fun offset =>
        make part r.access r.shared (UInt64.ofNat offset) r.device r.inode r.backing
      else .error (.broken .inside) := rfl
  rw [hdef] at h
  split_ifs at h
  obtain ⟨offset, _, hmake⟩ := bind_eq_ok_iff.mp h
  exact of_make hmake

/-- Parts of one region are told apart by where they are. -/
theorem PartOf.eq_of_span (h : r.PartOf q) (h' : r.PartOf q') (hspan : q.span = q'.span) :
    q = q' := by
  have hoffset : q.offset = q'.offset := by
    apply UInt64.toNat_inj.mp
    rw [h.offset, h'.offset, start, start, hspan]
  cases q
  cases q'
  simp only [mk.injEq]
  exact ⟨hspan, h.access.trans h'.access.symm, h.shared.trans h'.shared.symm, hoffset,
    h.device.trans h'.device.symm, h.inode.trans h'.inode.symm, h.backing.trans h'.backing.symm⟩

/-- Regions in ascending order are determined by which they are. -/
theorem eq_of_ascending {l l' : List Region} (hl : l.Pairwise fun a b => a.start < b.start)
    (hl' : l'.Pairwise fun a b => a.start < b.start) (h : ∀ q, q ∈ l ↔ q ∈ l') : l = l' := by
  have hnodup : ∀ l : List Region, (l.Pairwise fun a b => a.start < b.start) → l.Nodup :=
    fun l hl => hl.imp fun hab heq => (lt_irrefl _ (heq ▸ hab)).elim
  have hperm := (List.perm_ext_iff_of_nodup (hnodup l hl) (hnodup l' hl')).mpr h
  exact hperm.eq_of_pairwise (fun a b _ _ hab hba => (lt_asymm hab hba).elim) hl hl'

end Region

theorem map_of_mapM_ok {ε α β : Type} {f : α → Except ε β} {g : β → α} {l : List α} {bs : List β}
    (hg : ∀ a b, f a = .ok b → g b = a) (h : l.mapM f = .ok bs) : bs.map g = l := by
  induction l generalizing bs with
  | nil =>
    cases h
    rfl
  | cons a l ih =>
    rw [List.mapM_cons] at h
    obtain ⟨b, hb, hrest⟩ := bind_eq_ok_iff.mp h
    obtain ⟨others, hothers, hcons⟩ := bind_eq_ok_iff.mp hrest
    cases hcons
    rw [List.map_cons, hg a b hb, ih hothers]

namespace Policy

variable {p p' : Policy} {s t u : Span} {es es' : List Exclusion} {x : Nat}

/-- No exclusion covers the address. -/
def Free (es : List Exclusion) (x : Nat) : Prop := ∀ e ∈ es, ¬e.Covers x

/-- A largest span of free addresses in a span. -/
structure Clearing (es : List Exclusion) (s t : Span) : Prop where
  inhabited : t.start < t.stop
  within : s.contains t = true
  free : ∀ x ∈ t, Free es x
  maximal : ∀ u, s.contains u = true → (∀ x ∈ u, Free es x) → u.contains t = true → u = t

theorem Clearing.of_same (h : Clearing es s t) (hsame : ∀ e, e ∈ es ↔ e ∈ es') :
    Clearing es' s t := by
  have hfree : ∀ x, Free es x ↔ Free es' x := fun x => by simp only [Free, hsame]
  constructor
  · exact h.inhabited
  · exact h.within
  · exact fun x hx => (hfree x).mp (h.free x hx)
  · exact fun u hu hfu => h.maximal u hu fun x hx => (hfree x).mpr (hfu x hx)

/-- Clearings with an address in common are the same. -/
theorem Clearing.eq_of_mem (ht : Clearing es s t) (hu : Clearing es s u) (hxt : x ∈ t)
    (hxu : x ∈ u) : t = u := by
  have hwithin : s.contains (t.hull u) = true := Span.hull_within ht.within hu.within
  have hfree : ∀ y ∈ t.hull u, Free es y := by
    intro y hy
    rcases (Span.mem_hull hxt hxu).mp hy with hy | hy
    · exact ht.free y hy
    · exact hu.free y hy
  calc t = t.hull u := (ht.maximal _ hwithin hfree Span.contains_hull_left).symm
    _ = u := hu.maximal _ hwithin hfree Span.contains_hull_right

/-- A place where pieces may end: the span ends there, or a covered address is next to it. -/
def Edge (es : List Exclusion) (s : Span) (x : Nat) : Prop :=
  x = s.start ∨ x = s.stop ∨ ∃ e ∈ es, e.Covers x ∨ e.Covers (x - 1)

theorem edge_cut {cut : Span} {reason : Reason} (hmem : .span cut reason ∈ es)
    (hpos : cut.start < cut.stop) : Edge es s cut.start ∧ Edge es s cut.stop := by
  have hstart : cut.start ∈ cut := ⟨le_refl _, hpos⟩
  have hstop : cut.stop - 1 ∈ cut := ⟨by omega, by omega⟩
  exact ⟨.inr (.inr ⟨_, hmem, .inl hstart⟩), .inr (.inr ⟨_, hmem, .inr hstop⟩)⟩

theorem mem_pieces_edge {piece : Span × Verdict} (hp : piece ∈ p.pieces s) :
    Edge p.exclusions s piece.1.start ∧ Edge p.exclusions s piece.1.stop := by
  refine forall_mem_foldl (Q := fun t => Edge p.exclusions s t.start ∧ Edge p.exclusions s t.stop)
    (by simp [Edge]) ?_ piece ((p.pieces_perm s).mem_iff.mp hp)
  intro cut reason hmem t ⟨hstart, hstop⟩ hi
  have hlt := Span.intersects_iff.mp hi
  obtain ⟨hlow, hhigh⟩ := edge_cut (s := s) hmem (by omega)
  constructor
  · intro q hq
    rw [Span.subtract, if_pos hi, List.mem_append] at hq
    rcases hq with hq | hq <;> split at hq
    · rw [List.mem_singleton.mp hq]
      exact ⟨hstart, hlow⟩
    · simp at hq
    · rw [List.mem_singleton.mp hq]
      exact ⟨hhigh, hstop⟩
    · simp at hq
  · simp only [Span.intersect, max_eq_right hlt.le]
    constructor
    · rcases max_choice t.start cut.start with h | h <;> rwa [h]
    · rcases min_choice t.stop cut.stop with h | h <;> rwa [h]

/-- Pieces do not end inside a span of free addresses. -/
theorem not_edge_of_free (hu : s.contains u = true) (hfree : ∀ y ∈ u, Free es y)
    (hlow : u.start < x) (hhigh : x < u.stop) : ¬Edge es s x := by
  rw [Span.contains_iff] at hu
  intro hedge
  rcases hedge with hx | hx | ⟨e, he, hcovers | hcovers⟩
  · omega
  · omega
  · exact hfree x ⟨by omega, by omega⟩ e he hcovers
  · exact hfree (x - 1) ⟨by omega, by omega⟩ e he hcovers

theorem free_of_judged (h : Judged es x .monitored) : Free es x := by
  cases h with
  | monitored h => exact h

theorem eq_monitored_of_judged {v : Verdict} (h : Judged es x v) (hfree : Free es x) :
    v = .monitored := by
  cases h with
  | excluded h =>
    obtain ⟨before, after, heq, he, _⟩ := h
    exact absurd he (hfree _ (by simp [heq]))
  | monitored => rfl

/-- A monitored piece cannot be widened: beside it the span ends or an address is covered. -/
theorem clearing_of_mem_pieces (hs : s.start < s.stop) (hp : (t, .monitored) ∈ p.pieces s) :
    Clearing p.exclusions s t := by
  have hdiv := p.divides_pieces hs
  have hpos : t.start < t.stop := hdiv.inhabited _ hp
  refine ⟨hpos, mem_pieces_within hp, fun x hx => free_of_judged (hdiv.judged _ hp x hx), ?_⟩
  intro u hu hfree hut
  have hedges : Edge p.exclusions s t.start ∧ Edge p.exclusions s t.stop := mem_pieces_edge hp
  have hle := Span.contains_iff.mp hut
  have hlow : t.start ≤ u.start := by
    by_contra hlt
    exact not_edge_of_free hu hfree (by omega) (by omega) hedges.1
  have hhigh : u.stop ≤ t.stop := by
    by_contra hlt
    exact not_edge_of_free hu hfree (by omega) (by omega) hedges.2
  exact Span.contains_antisymm hut (Span.contains_iff.mpr ⟨hlow, hhigh⟩)

/-- The monitored pieces of a span are its clearings. -/
theorem mem_pieces_monitored_iff (hs : s.start < s.stop) :
    (t, .monitored) ∈ p.pieces s ↔ Clearing p.exclusions s t := by
  refine ⟨clearing_of_mem_pieces hs, fun ht => ?_⟩
  have hdiv := p.divides_pieces hs
  have hmem : t.start ∈ t := ⟨le_refl _, ht.inhabited⟩
  obtain ⟨⟨u, v⟩, hp, hu⟩ := (hdiv.covers t.start).mp (Span.mem_of_contains ht.within hmem)
  obtain rfl : v = .monitored :=
    eq_monitored_of_judged (hdiv.judged _ hp t.start hu) (ht.free _ hmem)
  rwa [ht.eq_of_mem (clearing_of_mem_pieces hs hp) hmem hu]

variable {r : Region} {out out' : List Region}

/-- A rule takes the region as a whole. -/
def Skips (p : Policy) (r : Region) : Prop :=
  r.isPseudo = true ∨ r.access.isNone = true ∨ ∃ e ∈ p.exclusions, e.Drops r.span

/-- What is selected of one region: nothing if a rule takes it as a whole, else its clearings, in
address order and with the region's own attributes. -/
structure Selects (p : Policy) (r : Region) (out : List Region) : Prop where
  parts : ∀ q ∈ out, r.PartOf q
  ascending : out.Pairwise fun a b => a.start < b.start
  skipped : p.Skips r → out = []
  clearings : ¬p.Skips r → ∀ t, (∃ q ∈ out, q.span = t) ↔ Clearing p.exclusions r.span t

theorem Selects.mem_of_same (h : p.Selects r out) (h' : p'.Selects r out')
    (hsame : ∀ e, e ∈ p.exclusions ↔ e ∈ p'.exclusions) (hs : ¬p.Skips r) {q : Region}
    (hq : q ∈ out) : q ∈ out' := by
  have hs' : ¬p'.Skips r := by simpa only [Skips, hsame] using hs
  have hclearing : Clearing p.exclusions r.span q.span := (h.clearings hs _).mp ⟨q, hq, rfl⟩
  obtain ⟨q', hq', hspan⟩ := (h'.clearings hs' _).mpr (hclearing.of_same hsame)
  rwa [(h.parts q hq).eq_of_span (h'.parts q' hq') hspan.symm]

/-- Exclusions that are the same but for order and repetition select the same. -/
theorem Selects.eq_of_same (h : p.Selects r out) (h' : p'.Selects r out')
    (hsame : ∀ e, e ∈ p.exclusions ↔ e ∈ p'.exclusions) : out = out' := by
  have hskips : p.Skips r ↔ p'.Skips r := by simp only [Skips, hsame]
  by_cases hs : p.Skips r
  · rw [h.skipped hs, h'.skipped (hskips.mp hs)]
  · apply Region.eq_of_ascending h.ascending h'.ascending
    exact fun q => ⟨h.mem_of_same h' hsame hs,
      h'.mem_of_same h (fun e => (hsame e).symm) (mt hskips.mpr hs)⟩

theorem mem_monitoredOf {classified : List (Region × Verdict)} {q : Region} :
    q ∈ monitoredOf classified ↔ (q, .monitored) ∈ classified := by
  simp [monitoredOf]

theorem map_classifyRegion {classified : List (Region × Verdict)} (hs : ¬p.Skips r)
    (h : p.classifyRegion r = .ok classified) :
    classified.map (fun q => (q.1.span, q.2)) = p.pieces r.span := by
  simp only [Skips, not_or, not_exists, not_and, Bool.not_eq_true] at hs
  rw [classifyRegion_of_kept hs.1 hs.2.1 hs.2.2] at h
  apply map_of_mapM_ok _ h
  intro piece q hq
  obtain ⟨part, hpart, hpair⟩ := bind_eq_ok_iff.mp hq
  cases hpair
  rw [(Region.of_subregion hpart).1]

/-- The monitored pieces of a region that is not torn. -/
theorem selects_of_partitions {classified : List (Region × Verdict)} (hpos : r.start < r.stop)
    (h : p.classifyRegion r = .ok classified) (hpart : p.Partitions r classified) :
    p.Selects r (monitoredOf classified) := by
  constructor
  · exact fun q hq => hpart.parts _ (mem_monitoredOf.mp hq)
  · have hascending := (hpart.ascending hpos).imp_of_mem fun {a b} ha _ hab =>
      (hpart.inhabited hpos a ha).trans_le hab
    exact List.pairwise_map.mpr (hascending.filter _)
  · intro hs
    cases hpseudo : r.isPseudo with
    | true =>
      rw [hpart.pseudo hpseudo]
      rfl
    | false =>
      cases hnone : r.access.isNone with
      | true =>
        rw [hpart.noAccess hpseudo hnone]
        rfl
      | false =>
        simp only [Skips, hpseudo, hnone, Bool.false_eq_true, false_or] at hs
        obtain ⟨e, he⟩ := exists_first hs
        rw [hpart.dropped hpseudo hnone e he]
        rfl
  · intro hs t
    rw [← mem_pieces_monitored_iff hpos, ← map_classifyRegion hs h, List.mem_map]
    constructor
    · intro ⟨q, hq, hspan⟩
      exact ⟨(q, .monitored), mem_monitoredOf.mp hq, by rw [hspan]⟩
    · intro ⟨⟨q, v⟩, hq, heq⟩
      obtain ⟨hspan, rfl⟩ := Prod.mk.inj heq
      exact ⟨q, mem_monitoredOf.mpr hq, hspan⟩

theorem select_cons {rs : List Region} {classified : List (Region × Verdict)}
    (h : p.classifyRegion r = .ok classified) :
    p.select (r :: rs) = (p.select rs).map (monitoredOf classified ++ ·) := by
  rw [select, classify, h, select]
  cases p.classify rs with
  | error fault => rfl
  | ok others =>
    show Except.ok (monitoredOf (classified ++ others)) = _
    rw [monitoredOf, List.filter_append, List.map_append]
    rfl

theorem select_cons_error {rs : List Region} {fault : Fault}
    (h : p.classifyRegion r = .error fault) : p.select (r :: rs) = .error fault := by
  rw [select, classify, h]
  rfl

variable {regions : List Region}

/-- Where no region is torn, something is selected of each. -/
theorem exists_selects (hpos : ∀ r ∈ regions, r.start < r.stop)
    (hoff : ∀ r ∈ regions, r.offset.toNat + r.size < Word.limit) (hcuts : CutsPages p.exclusions)
    (ht : ∀ r ∈ regions, ¬p.Tears r) :
    ∃ outs, p.select regions = .ok outs.flatten ∧ List.Forall₂ p.Selects regions outs := by
  induction regions with
  | nil => exact ⟨[], rfl, .nil⟩
  | cons r rs ih =>
    rw [List.forall_mem_cons] at hpos hoff ht
    obtain ⟨classified, hclassified, hpart⟩ := classifyRegion_of_not_tears hcuts hoff.1 ht.1
    obtain ⟨outs, houts, hall⟩ := ih hpos.2 hoff.2 ht.2
    refine ⟨monitoredOf classified :: outs, ?_, ?_⟩
    · rw [select_cons hclassified, houts]
      rfl
    · exact .cons (selects_of_partitions hpos.1 hclassified hpart) hall

theorem select_of_tears (hoff : ∀ r ∈ regions, r.offset.toNat + r.size < Word.limit)
    (hcuts : CutsPages p.exclusions) (ht : ∃ r ∈ regions, p.Tears r) :
    p.select regions = .error (.broken .wholePages) := by
  induction regions with
  | nil => simp at ht
  | cons r rs ih =>
    rw [List.forall_mem_cons] at hoff
    by_cases hr : p.Tears r
    · exact select_cons_error (classifyRegion_of_tears hcuts hoff.1 hr)
    · obtain ⟨classified, hclassified, _⟩ := classifyRegion_of_not_tears hcuts hoff.1 hr
      rw [select_cons hclassified, ih hoff.2 (by simpa [hr] using ht)]
      rfl

theorem forall₂_eq_of_same (hsame : ∀ e, e ∈ p.exclusions ↔ e ∈ p'.exclusions)
    {outs outs' : List (List Region)} (h : List.Forall₂ p.Selects regions outs)
    (h' : List.Forall₂ p'.Selects regions outs') : outs = outs' := by
  induction h generalizing outs' with
  | nil =>
    cases h'
    rfl
  | cons hr _ ih =>
    cases h' with
    | cons hr' hrs' => rw [hr.eq_of_same hr' hsame, ih hrs']

/-- Exclusions made in another order, or more than once, select the same of regions that are torn
under neither: of each region its clearings. Where a region is torn, nothing is selected. -/
theorem select_eq_of_same (p p' : Policy) (regions : List Region)
    (hsame : ∀ e, e ∈ p.exclusions ↔ e ∈ p'.exclusions)
    (hpos : ∀ r ∈ regions, r.start < r.stop)
    (hoff : ∀ r ∈ regions, r.offset.toNat + r.size < Word.limit)
    (hcuts : CutsPages p.exclusions) :
    ((∀ r ∈ regions, ¬p.Tears r ∧ ¬p'.Tears r) →
      ∃ outs, p.select regions = .ok outs.flatten ∧ p'.select regions = .ok outs.flatten ∧
        List.Forall₂ p.Selects regions outs) ∧
    ((∃ r ∈ regions, p.Tears r) → p.select regions = .error (.broken .wholePages)) := by
  refine ⟨fun ht => ?_, select_of_tears hoff hcuts⟩
  have hcuts' : CutsPages p'.exclusions :=
    fun cut reason hmem => hcuts cut reason ((hsame _).mpr hmem)
  obtain ⟨outs, houts, hall⟩ := exists_selects hpos hoff hcuts fun r hr => (ht r hr).1
  obtain ⟨outs', houts', hall'⟩ := exists_selects hpos hoff hcuts' fun r hr => (ht r hr).2
  obtain rfl := forall₂_eq_of_same hsame hall hall'
  exact ⟨outs, houts, houts', hall⟩

/-- Like `secondPage`, with every exclusion made once more and the first one last. -/
def secondPageAgain : Policy := ⟨secondPage.exclusions.reverse ++ secondPage.exclusions.reverse⟩

theorem select_eq_of_same_secondPage :
    (∃ outs, secondPage.select [fourPages] = .ok outs.flatten ∧
      secondPageAgain.select [fourPages] = .ok outs.flatten ∧
      List.Forall₂ secondPage.Selects [fourPages] outs) ∧
    secondPage.select [fourPages, halfWay] = .error (.broken .wholePages) := by
  have hsame : ∀ e, e ∈ secondPage.exclusions ↔ e ∈ secondPageAgain.exclusions := by
    simp [secondPageAgain]
  constructor
  · apply (select_eq_of_same secondPage secondPageAgain [fourPages] hsame (by decide) (by decide)
      cutsPages_secondPage).1
    intro r hr
    rw [List.mem_singleton.mp hr]
    exact ⟨fun ht => ht.start (by decide), fun ht => ht.start (by decide)⟩
  · exact (select_eq_of_same secondPage secondPageAgain [fourPages, halfWay] hsame (by decide)
      (by decide) cutsPages_secondPage).2 ⟨halfWay, by simp, tears_halfWay⟩

/-- A policy that excludes the second to the fifth page and then the first five. -/
def partFirst : Policy :=
  (empty.excludeSpan ⟨0x1000, 0x5000, by decide, by decide⟩ .ownMemory).excludeSpan
    ⟨0, 0x5000, by decide, by decide⟩ .ownMemory

/-- A policy that excludes the first five pages and then the last four of them. -/
def wholeFirst : Policy :=
  (empty.excludeSpan ⟨0, 0x5000, by decide, by decide⟩ .ownMemory).excludeSpan
    ⟨0x1000, 0x5000, by decide, by decide⟩ .ownMemory

theorem exclusions_partFirst : partFirst.exclusions =
    [.span ⟨0x1000, 0x5000, by decide, by decide⟩ .ownMemory,
      .span ⟨0, 0x5000, by decide, by decide⟩ .ownMemory] := by
  decide

theorem exclusions_wholeFirst : wholeFirst.exclusions =
    [.span ⟨0, 0x5000, by decide, by decide⟩ .ownMemory,
      .span ⟨0x1000, 0x5000, by decide, by decide⟩ .ownMemory] := by
  decide

theorem tears_partFirst : partFirst.Tears halfWay := by
  constructor
  · decide
  · decide
  · rw [exclusions_partFirst]
    simp [Exclusion.Drops]
  · decide
  · rw [exclusions_partFirst]
    refine ⟨_, ⟨[], _, rfl, ?_, by simp⟩, ?_⟩
    · show halfWay.span.intersects _ = true
      decide
    · show ¬Span.contains _ halfWay.span = true
      decide

theorem cutsPages_partFirst : CutsPages partFirst.exclusions := by
  intro cut reason hmem
  simp only [exclusions_partFirst, List.mem_cons, List.not_mem_nil, or_false,
    Exclusion.span.injEq] at hmem
  rcases hmem with ⟨rfl, rfl⟩ | ⟨rfl, rfl⟩ <;> decide

/-- The region is one piece, which the first cut excludes. -/
theorem classifyRegion_wholeFirst :
    wholeFirst.classifyRegion halfWay = .ok [(halfWay, .excluded .ownMemory)] := by
  have hkept : ∀ e ∈ wholeFirst.exclusions, ¬e.Drops halfWay.span := by
    rw [exclusions_wholeFirst]
    simp [Exclusion.Drops]
  have hpieces : wholeFirst.pieces halfWay.span = [(halfWay.span, .excluded .ownMemory)] :=
    List.mergeSort_singleton _
  rw [classifyRegion_of_kept (by decide) (by decide) hkept, hpieces, List.mapM_cons,
    Region.subregion_self]
  rfl

/-- A region that is torn under one order of the exclusions and dropped under the other. -/
theorem select_ne_halfWay :
    partFirst.exclusions.Perm wholeFirst.exclusions ∧ halfWay.start < halfWay.stop ∧
      halfWay.offset.toNat + halfWay.size < Word.limit ∧ CutsPages partFirst.exclusions ∧
      partFirst.select [halfWay] = .error (.broken .wholePages) ∧
      wholeFirst.select [halfWay] = .ok [] := by
  refine ⟨?_, by decide, by decide, cutsPages_partFirst, ?_, ?_⟩
  · rw [exclusions_partFirst, exclusions_wholeFirst]
    exact List.Perm.swap _ _ _
  · exact select_cons_error (classifyRegion_of_tears cutsPages_partFirst (by decide)
      tears_partFirst)
  · rw [select_cons classifyRegion_wholeFirst]
    rfl

end Policy
end Rewind
