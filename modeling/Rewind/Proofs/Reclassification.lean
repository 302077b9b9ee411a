import Rewind.Proofs.Selection

/-! Classification is stable: a piece is treated as one by all exclusions, so no rule and no cut
acts on it a second time. -/
namespace Rewind

namespace Span

variable {s t u : Span}

/-- What meets a part meets the whole. -/
theorem intersects_of_contains (h : s.contains t = true) (hi : t.intersects u = true) :
    s.intersects u = true := by
  rw [contains_iff] at h
  rw [intersects_iff] at *
  omega

theorem intersects_intersect (hi : s.intersects t = true) :
    (s.intersect t).intersects t = true := by
  rw [intersects_iff] at *
  simp only [intersect]
  omega

theorem contains_intersect_right (hi : s.intersects t = true) :
    t.contains (s.intersect t) = true := by
  rw [intersects_iff] at hi
  simp only [contains_iff, intersect]
  omega

/-- What is left when a span is cut out does not meet it any more. -/
theorem not_intersects_of_mem_subtract (hu : u ∈ s.subtract t) : ¬u.intersects t = true := by
  intro hi
  rw [intersects_iff] at hi
  have hleft : max u.start t.start ∈ u := ⟨le_max_left _ _, by omega⟩
  have hcut : max u.start t.start ∈ t := ⟨le_max_right _ _, by omega⟩
  exact (mem_subtract.mp ⟨u, hu, hleft⟩).2 hcut

end Span

/-- Results that are had together are had one by one. -/
theorem exists_of_mem_mapM {ε α β : Type} {f : α → Except ε β} {l : List α} {bs : List β} {b : β}
    (h : l.mapM f = .ok bs) (hb : b ∈ bs) : ∃ a ∈ l, f a = .ok b := by
  induction l generalizing bs with
  | nil =>
    cases h
    simp at hb
  | cons a l ih =>
    rw [List.mapM_cons] at h
    obtain ⟨b', hb', hrest⟩ := bind_eq_ok_iff.mp h
    obtain ⟨others, hothers, hcons⟩ := bind_eq_ok_iff.mp hrest
    cases hcons
    rcases List.mem_cons.mp hb with rfl | hb
    · exact ⟨a, by simp, hb'⟩
    · obtain ⟨a', ha', heq⟩ := ih hothers hb
      exact ⟨a', by simp [ha'], heq⟩

namespace Policy

open Exclusion (Drops Meets Encloses)

variable {p : Policy} {s t : Span} {es : List Exclusion} {e : Exclusion} {v : Verdict}

theorem Uniform.append_of_excluded {reason : Reason} (h : Uniform es s (.excluded reason)) :
    Uniform (es ++ [e]) s (.excluded reason) := by
  cases h with
  | excluded h henc => exact .excluded (h.append [e]) henc

theorem Uniform.append_of_not_meets (h : Uniform es s v) (he : ¬e.Meets s) :
    Uniform (es ++ [e]) s v := by
  cases h with
  | excluded h henc => exact .excluded (h.append [e]) henc
  | monitored h =>
    apply Uniform.monitored
    intro d hd
    rcases List.mem_append.mp hd with hd | hd
    · exact h d hd
    · rwa [List.mem_singleton.mp hd]

theorem Uniform.append_of_encloses (h : Uniform es s .monitored) (he : e.Meets s)
    (henc : e.Encloses s) : Uniform (es ++ [e]) s (.excluded e.reason) := by
  cases h with
  | monitored h => exact .excluded ⟨es, [], rfl, he, h⟩ henc

/-- A part of what is monitored is monitored. -/
theorem Uniform.part (h : Uniform es s .monitored) (hst : s.contains t = true) :
    Uniform es t .monitored := by
  cases h with
  | monitored h =>
    apply Uniform.monitored
    intro e he hmeets
    apply h e he
    cases e with
    | span cut reason => exact Span.intersects_of_contains hst hmeets
    | holding address reason => exact hmeets

/-- One more cut leaves pieces that all exclusions so far treat as one. -/
theorem uniform_of_mem_cutPiece {cut : Span} {reason : Reason} {piece q : Span × Verdict}
    (h : Uniform es piece.1 piece.2) (hq : q ∈ cutPiece cut reason piece) :
    Uniform (es ++ [.span cut reason]) q.1 q.2 := by
  obtain ⟨s, v⟩ := piece
  unfold cutPiece at hq
  split at hq
  · next hcut =>
    obtain ⟨rfl : v = .monitored, hi⟩ := hcut
    rcases List.mem_append.mp hq with hq | hq
    · obtain ⟨t, ht, rfl⟩ := List.mem_map.mp hq
      have hpart : Uniform es t .monitored := h.part (Span.contains_of_mem_subtract ht)
      exact hpart.append_of_not_meets (Span.not_intersects_of_mem_subtract ht)
    · rw [List.mem_singleton.mp hq]
      have hpart : Uniform es (s.intersect cut) .monitored := h.part (Span.contains_intersect hi)
      exact hpart.append_of_encloses (e := .span cut reason) (Span.intersects_intersect hi)
        (Span.contains_intersect_right hi)
  · next hcut =>
    rw [List.mem_singleton.mp hq]
    cases v with
    | monitored => exact h.append_of_not_meets fun hi => hcut ⟨rfl, hi⟩
    | excluded r => exact h.append_of_excluded
    -- No exclusion gives another verdict.
    | pseudo => cases h
    | noAccess => cases h

theorem uniform_of_mem_foldl {piece : Span × Verdict}
    (hp : piece ∈ es.foldl applyTo [(s, .monitored)]) : Uniform es piece.1 piece.2 := by
  induction es using List.reverseRecOn generalizing piece with
  | nil =>
    rw [List.mem_singleton.mp hp]
    exact .monitored (by simp)
  | append_singleton es e ih =>
    rw [List.foldl_concat] at hp
    cases e with
    | span cut reason =>
      obtain ⟨whole, hwhole, hpart⟩ := List.mem_flatMap.mp hp
      exact uniform_of_mem_cutPiece (ih hwhole) hpart
    | holding address reason => exact (ih hp).append_of_not_meets id

/-- A piece falls into no further pieces and keeps its verdict. -/
theorem pieces_of_mem_pieces {piece : Span × Verdict} (hp : piece ∈ p.pieces s) :
    p.pieces piece.1 = [piece] :=
  pieces_of_uniform (uniform_of_mem_foldl ((p.pieces_perm s).mem_iff.mp hp))

variable {r : Region} {out : List (Region × Verdict)} {q : Region × Verdict}

theorem classifyRegion_of_kept_mem (hr : r.isPseudo = false) (ha : r.access.isNone = false)
    (hk : ∀ e ∈ p.exclusions, ¬e.Drops r.span) (h : p.classifyRegion r = .ok out) (hq : q ∈ out) :
    p.classifyRegion q.1 = .ok [q] := by
  rw [classifyRegion_of_kept hr ha hk] at h
  obtain ⟨piece, hp, hstep⟩ := exists_of_mem_mapM h hq
  obtain ⟨part, hpart, hpair⟩ := bind_eq_ok_iff.mp hstep
  cases hpair
  obtain ⟨hspan, haccess, hbacking⟩ := Region.of_subregion hpart
  have hreal : part.isPseudo = false := by rwa [Region.isPseudo, hbacking]
  have hkept : ∀ e ∈ p.exclusions, ¬e.Drops part.span := by
    intro e he hdrops
    apply hk e he
    cases e with
    | span cut reason => exact hdrops
    | holding address reason =>
      exact Span.mem_of_contains (mem_pieces_within hp) (hspan ▸ hdrops)
  have hone : p.pieces part.span = [(part.span, piece.2)] := by
    rw [hspan]
    exact pieces_of_mem_pieces hp
  rw [classifyRegion_of_kept hreal (haccess ▸ ha) hkept, hone, List.mapM_cons,
    Region.subregion_self]
  rfl

/-- No rule acts a second time on what it has made of a region. -/
theorem classifyRegion_of_mem (h : p.classifyRegion r = .ok out) (hq : q ∈ out) :
    p.classifyRegion q.1 = .ok [q] := by
  have hwhole : ∀ v, out = [(r, v)] → p.classifyRegion q.1 = .ok [q] := by
    intro v hout
    subst hout
    rw [List.mem_singleton.mp hq]
    exact h
  cases hr : r.isPseudo with
  | true => exact hwhole .pseudo (by simpa [classifyRegion, hr] using h.symm)
  | false =>
    cases ha : r.access.isNone with
    | true => exact hwhole .noAccess (by simpa [classifyRegion, hr, ha] using h.symm)
    | false =>
      cases hw : p.wholeReason r.span with
      | some reason =>
        exact hwhole (.excluded reason) (by simpa [classifyRegion, hr, ha, hw] using h.symm)
      | none => exact classifyRegion_of_kept_mem hr ha (wholeReason_eq_none_iff.mp hw) h hq

theorem classify_cons_eq_ok_iff {rs : List Region} :
    p.classify (r :: rs) = .ok out ↔ ∃ first others, p.classifyRegion r = .ok first ∧
      p.classify rs = .ok others ∧ first ++ others = out := by
  have hdef : p.classify (r :: rs) = p.classifyRegion r >>= fun first =>
    p.classify rs >>= fun others => .ok (first ++ others) := rfl
  rw [hdef, bind_eq_ok_iff]
  constructor
  · rintro ⟨first, hfirst, hrest⟩
    obtain ⟨others, hothers, hsum⟩ := bind_eq_ok_iff.mp hrest
    exact ⟨first, others, hfirst, hothers, Except.ok.inj hsum⟩
  · rintro ⟨first, others, hfirst, hothers, hsum⟩
    exact ⟨first, hfirst, bind_eq_ok_iff.mpr ⟨others, hothers, by rw [hsum]⟩⟩

variable {regions : List Region}

theorem classifyRegion_of_mem_classify (h : p.classify regions = .ok out) (hq : q ∈ out) :
    p.classifyRegion q.1 = .ok [q] := by
  induction regions generalizing out with
  | nil =>
    cases h
    simp at hq
  | cons r rs ih =>
    obtain ⟨first, others, hfirst, hothers, rfl⟩ := classify_cons_eq_ok_iff.mp h
    rcases List.mem_append.mp hq with hq | hq
    · exact classifyRegion_of_mem hfirst hq
    · exact ih hothers hq

theorem classify_of_forall (h : ∀ q ∈ out, p.classifyRegion q.1 = .ok [q]) :
    p.classify (out.map (·.1)) = .ok out := by
  induction out with
  | nil => rfl
  | cons q out ih =>
    obtain ⟨hq, hout⟩ := List.forall_mem_cons.mp h
    exact classify_cons_eq_ok_iff.mpr ⟨[q], out, hq, ih hout, rfl⟩

theorem exists_classify_iff (hoff : ∀ r ∈ regions, r.offset.toNat + r.size < Word.limit)
    (hcuts : CutsPages p.exclusions) :
    (∃ out, p.classify regions = .ok out) ↔ ∀ r ∈ regions, ¬p.Tears r := by
  induction regions with
  | nil => simp [classify]
  | cons r rs ih =>
    rw [List.forall_mem_cons] at hoff
    rw [List.forall_mem_cons, ← ih hoff.2]
    constructor
    · rintro ⟨out, hout⟩
      obtain ⟨first, others, hfirst, hothers, -⟩ := classify_cons_eq_ok_iff.mp hout
      refine ⟨fun ht => ?_, others, hothers⟩
      rw [classifyRegion_of_tears hcuts hoff.1 ht] at hfirst
      cases hfirst
    · rintro ⟨ht, others, hothers⟩
      obtain ⟨first, hfirst, -⟩ := classifyRegion_of_not_tears hcuts hoff.1 ht
      exact ⟨first ++ others, classify_cons_eq_ok_iff.mpr ⟨first, others, hfirst, hothers, rfl⟩⟩

/-- Classifying again what classification gave changes nothing, and it gave something unless it
would have had to tear a region. -/
theorem classify_stable (p : Policy) (regions : List Region)
    (hoff : ∀ r ∈ regions, r.offset.toNat + r.size < Word.limit)
    (hcuts : CutsPages p.exclusions) :
    (∀ out, p.classify regions = .ok out → p.classify (out.map (·.1)) = .ok out) ∧
      ((∃ out, p.classify regions = .ok out) ↔ ∀ r ∈ regions, ¬p.Tears r) := by
  constructor
  · intro out hout
    exact classify_of_forall fun q hq => classifyRegion_of_mem_classify hout hq
  · exact exists_classify_iff hoff hcuts

/-- The second page is cut out for one reason, and the first four for another. -/
def overlapping : Policy := secondPage.excludeSpan fourPages.span .ownCode

theorem cutsPages_overlapping : CutsPages overlapping.exclusions := by
  have hdef : overlapping.exclusions =
      secondPage.exclusions ++ [.span fourPages.span .ownCode] := by
    decide
  rw [hdef]
  intro cut reason hmem
  rcases List.mem_append.mp hmem with hmem | hmem
  · exact cutsPages_secondPage cut reason hmem
  · cases List.mem_singleton.mp hmem
    decide

theorem classify_stable_overlapping :
    ∃ out, overlapping.classify [fourPages] = .ok out ∧
      overlapping.classify (out.map (·.1)) = .ok out := by
  obtain ⟨hstable, hexists⟩ :=
    classify_stable overlapping [fourPages] (by decide) cutsPages_overlapping
  have htears : ∀ r ∈ [fourPages], ¬overlapping.Tears r := by
    intro r hr
    rw [List.mem_singleton.mp hr]
    exact fun ht => ht.start (by decide)
  obtain ⟨out, hout⟩ := hexists.mpr htears
  exact ⟨out, hout, hstable out hout⟩

end Policy
end Rewind
