import Rewind.Policy
import Rewind.Proofs.Spans

/-! Pieces of spans: the spans that a policy excludes cut a span into pieces that cover it exactly,
each with the verdict that the first exclusion of its addresses gives. -/
namespace Rewind

/-- The first element of a list that has a property. -/
def First {α : Type} (P : α → Prop) (l : List α) (a : α) : Prop :=
  ∃ before after, l = before ++ a :: after ∧ P a ∧ ∀ b ∈ before, ¬P b

theorem exists_first {α : Type} {P : α → Prop} {l : List α} (h : ∃ a ∈ l, P a) :
    ∃ a, First P l a := by
  induction l with
  | nil => simp at h
  | cons b l ih =>
    by_cases hb : P b
    · exact ⟨b, [], l, rfl, hb, by simp⟩
    · obtain ⟨a, before, after, rfl, ha, hbefore⟩ := ih (by simpa [hb] using h)
      exact ⟨a, b :: before, after, rfl, ha, by simpa [hb] using hbefore⟩

theorem First.append {α : Type} {P : α → Prop} {l : List α} {a : α} (h : First P l a)
    (l' : List α) : First P (l ++ l') a := by
  obtain ⟨before, after, rfl, ha, hbefore⟩ := h
  exact ⟨before, after ++ l', by simp, ha, hbefore⟩

namespace Exclusion

/-- The address lies in the span that is excluded. -/
def Covers (x : Nat) : Exclusion → Prop
  | .span cut _ => x ∈ cut
  | .holding .. => False

/-- The span is dropped as a whole, for an address in it. -/
def Drops (s : Span) : Exclusion → Prop
  | .span .. => False
  | .holding address _ => address ∈ s

/-- The excluded span and this one have an address in common. -/
def Meets (s : Span) : Exclusion → Prop
  | .span cut _ => s.intersects cut = true
  | .holding .. => False

/-- The excluded span encloses this one. -/
def Encloses (s : Span) : Exclusion → Prop
  | .span cut _ => cut.contains s = true
  | .holding .. => False

def reason : Exclusion → Reason
  | .span _ reason => reason
  | .holding _ reason => reason

end Exclusion

namespace Policy

open Exclusion (Covers Drops Meets Encloses)

variable {p : Policy} {s : Span} {es : List Exclusion} {e : Exclusion}
  {pieces pieces' : List (Span × Verdict)}

/-- The verdict on an address: the first exclusion that covers it gives the reason, and without
one it is monitored. -/
inductive Judged (es : List Exclusion) (x : Nat) : Verdict → Prop
  | excluded {e : Exclusion} : First (Covers x) es e → Judged es x (.excluded e.reason)
  | monitored : (∀ e ∈ es, ¬e.Covers x) → Judged es x .monitored

/-- Pieces with verdicts into which a span falls under some exclusions, in any order. -/
structure Divides (s : Span) (es : List Exclusion) (pieces : List (Span × Verdict)) : Prop where
  inhabited : ∀ piece ∈ pieces, piece.1.start < piece.1.stop
  apart : pieces.Pairwise fun a b => a.1.Apart b.1
  covers : ∀ x, x ∈ s ↔ ∃ piece ∈ pieces, x ∈ piece.1
  judged : ∀ piece ∈ pieces, ∀ x ∈ piece.1, Judged es x piece.2

theorem Judged.append_of_excluded {x : Nat} {reason : Reason}
    (h : Judged es x (.excluded reason)) : Judged (es ++ [e]) x (.excluded reason) := by
  cases h with
  | excluded h => exact .excluded (h.append [e])

theorem Judged.append_of_not_covers {x : Nat} {v : Verdict} (h : Judged es x v)
    (he : ¬e.Covers x) : Judged (es ++ [e]) x v := by
  cases h with
  | excluded h => exact .excluded (h.append [e])
  | monitored h =>
    refine .monitored fun d hd => ?_
    rcases List.mem_append.mp hd with hd | hd
    · exact h d hd
    · rwa [List.mem_singleton.mp hd]

theorem Judged.append_of_covers {x : Nat} (h : Judged es x .monitored) (he : e.Covers x) :
    Judged (es ++ [e]) x (.excluded e.reason) := by
  cases h with
  | monitored h => exact .excluded ⟨es, [], rfl, he, h⟩

theorem divides_singleton {v : Verdict} (hs : s.start < s.stop)
    (hj : ∀ x ∈ s, Judged es x v) : Divides s es [(s, v)] := by
  constructor
  · simpa using hs
  · exact List.pairwise_singleton _ _
  · simp
  · intro piece hp
    rw [List.mem_singleton.mp hp]
    exact hj

/-- A span that meets a monitored one divides it into the common part and what is left. -/
theorem divides_cut {cut : Span} (reason : Reason) (hs : s.start < s.stop)
    (hi : s.intersects cut = true) (hj : ∀ x ∈ s, Judged es x .monitored) :
    Divides s (es ++ [.span cut reason])
      ((s.subtract cut).map (·, .monitored) ++ [(s.intersect cut, .excluded reason)]) := by
  have hmem : ∀ piece : Span × Verdict,
      piece ∈ (s.subtract cut).map (·, Verdict.monitored) ++
          [(s.intersect cut, .excluded reason)] ↔
        (∃ t ∈ s.subtract cut, (t, .monitored) = piece) ∨
          piece = (s.intersect cut, .excluded reason) := by simp
  constructor
  · intro piece hp
    rcases (hmem piece).mp hp with ⟨t, ht, rfl⟩ | rfl
    · exact Span.subtract_inhabited hs t ht
    · rw [Span.intersects_iff] at hi
      show max s.start cut.start < max (max s.start cut.start) (min s.stop cut.stop)
      omega
  · rw [List.pairwise_append]
    refine ⟨List.pairwise_map.mpr Span.subtract_pairwise_apart, List.pairwise_singleton _ _, ?_⟩
    intro piece hp last hl x hx hlast
    obtain ⟨t, ht, rfl⟩ := List.mem_map.mp hp
    rw [List.mem_singleton.mp hl, Span.mem_intersect] at hlast
    exact (Span.mem_subtract.mp ⟨t, ht, hx⟩).2 hlast.2
  · intro x
    constructor
    · intro hx
      by_cases hc : x ∈ cut
      · exact ⟨_, (hmem _).mpr (.inr rfl), Span.mem_intersect.mpr ⟨hx, hc⟩⟩
      · obtain ⟨t, ht, hxt⟩ := Span.mem_subtract.mpr ⟨hx, hc⟩
        exact ⟨_, (hmem _).mpr (.inl ⟨t, ht, rfl⟩), hxt⟩
    · rintro ⟨piece, hp, hx⟩
      rcases (hmem piece).mp hp with ⟨t, ht, rfl⟩ | rfl
      · exact (Span.mem_subtract.mp ⟨t, ht, hx⟩).1
      · exact (Span.mem_intersect.mp hx).1
  · intro piece hp x hx
    rcases (hmem piece).mp hp with ⟨t, ht, rfl⟩ | rfl
    · obtain ⟨hxs, hxc⟩ := Span.mem_subtract.mp ⟨t, ht, hx⟩
      exact (hj x hxs).append_of_not_covers hxc
    · obtain ⟨hxs, hxc⟩ := Span.mem_intersect.mp hx
      exact (hj x hxs).append_of_covers (e := .span cut reason) hxc

/-- One cut divides a piece that was judged already. -/
theorem divides_cutPiece (cut : Span) (reason : Reason) {piece : Span × Verdict}
    (hpos : piece.1.start < piece.1.stop) (hj : ∀ x ∈ piece.1, Judged es x piece.2) :
    Divides piece.1 (es ++ [.span cut reason]) (cutPiece cut reason piece) := by
  obtain ⟨s, v⟩ := piece
  unfold cutPiece
  split
  · next h =>
    obtain ⟨rfl : v = .monitored, hi⟩ := h
    exact divides_cut reason hpos hi hj
  · next h =>
    apply divides_singleton hpos
    intro x hx
    cases v with
    | monitored =>
      have hi : ¬s.intersects cut = true := fun hi => h ⟨rfl, hi⟩
      exact (hj x hx).append_of_not_covers (Span.not_mem_of_not_intersects hi hx)
    | excluded r => exact (hj x hx).append_of_excluded
    -- No address is judged to be anything else.
    | pseudo => cases hj x hx
    | noAccess => cases hj x hx

/-- Dividing every piece of a division gives a division. -/
theorem Divides.flatMap {es' : List Exclusion} (h : Divides s es pieces)
    {f : Span × Verdict → List (Span × Verdict)}
    (hf : ∀ piece ∈ pieces, Divides piece.1 es' (f piece)) :
    Divides s es' (pieces.flatMap f) := by
  constructor
  · intro q hq
    obtain ⟨piece, hp, hq⟩ := List.mem_flatMap.mp hq
    exact (hf piece hp).inhabited q hq
  · rw [List.pairwise_flatMap]
    constructor
    · exact fun piece hp => (hf piece hp).apart
    · refine h.apart.imp_of_mem fun ha hb hapart q hq d hd x hxq hxd => ?_
      exact hapart x (((hf _ ha).covers x).mpr ⟨q, hq, hxq⟩) (((hf _ hb).covers x).mpr ⟨d, hd, hxd⟩)
  · intro x
    constructor
    · intro hx
      obtain ⟨piece, hp, hxp⟩ := (h.covers x).mp hx
      obtain ⟨q, hq, hxq⟩ := ((hf piece hp).covers x).mp hxp
      exact ⟨q, List.mem_flatMap.mpr ⟨piece, hp, hq⟩, hxq⟩
    · rintro ⟨q, hq, hxq⟩
      obtain ⟨piece, hp, hq⟩ := List.mem_flatMap.mp hq
      exact (h.covers x).mpr ⟨piece, hp, ((hf piece hp).covers x).mpr ⟨q, hq, hxq⟩⟩
  · intro q hq
    obtain ⟨piece, hp, hq⟩ := List.mem_flatMap.mp hq
    exact (hf piece hp).judged q hq

theorem Divides.applyTo (h : Divides s es pieces) (e : Exclusion) :
    Divides s (es ++ [e]) (applyTo pieces e) := by
  cases e with
  | span cut reason =>
    exact h.flatMap fun piece hp =>
      divides_cutPiece cut reason (h.inhabited piece hp) (h.judged piece hp)
  | holding address reason =>
    constructor
    · exact h.inhabited
    · exact h.apart
    · exact h.covers
    · exact fun piece hp x hx => (h.judged piece hp x hx).append_of_not_covers id

theorem divides_foldl (hs : s.start < s.stop) (es : List Exclusion) :
    Divides s es (es.foldl applyTo [(s, .monitored)]) := by
  induction es using List.reverseRecOn with
  | nil => exact divides_singleton hs fun x _ => .monitored (by simp)
  | append_singleton es e ih =>
    rw [List.foldl_concat]
    exact ih.applyTo e

theorem Divides.perm (h : Divides s es pieces) (hp : pieces'.Perm pieces) :
    Divides s es pieces' := by
  constructor
  · exact fun q hq => h.inhabited q (hp.mem_iff.mp hq)
  · exact (hp.pairwise_iff fun h => h.symm).mpr h.apart
  · intro x
    simp only [h.covers x, hp.mem_iff]
  · exact fun q hq => h.judged q (hp.mem_iff.mp hq)

/-- Pieces in the order of their starts lie one behind the other. -/
theorem Divides.ascending (h : Divides s es pieces)
    (hs : pieces.Pairwise fun a b => a.1.start ≤ b.1.start) :
    pieces.Pairwise fun a b => a.1.stop ≤ b.1.start := by
  refine (hs.and h.apart).imp_of_mem fun {a b} _ hb hab => ?_
  have hpos := h.inhabited b hb
  have hout : b.1.start ∉ a.1 := fun hm => hab.2 _ hm ⟨le_refl _, hpos⟩
  rw [Span.mem_def] at hout
  have := hab.1
  omega

theorem pieces_perm (p : Policy) (s : Span) :
    (p.pieces s).Perm (p.exclusions.foldl applyTo [(s, .monitored)]) := List.mergeSort_perm _ _

theorem pieces_sorted (p : Policy) (s : Span) :
    (p.pieces s).Pairwise fun a b => a.1.start ≤ b.1.start := by
  have h := @List.pairwise_mergeSort _ (fun a b : Span × Verdict => decide (a.1.start ≤ b.1.start))
    (fun a b c hab hbc => by simp only [decide_eq_true_eq] at *; omega)
    (fun a b => by simp only [Bool.or_eq_true, decide_eq_true_eq]; omega)
    (p.exclusions.foldl Policy.applyTo [(s, .monitored)])
  exact h.imp fun hab => by simpa using hab

theorem divides_pieces (p : Policy) (hs : s.start < s.stop) :
    Divides s p.exclusions (p.pieces s) := (divides_foldl hs _).perm (p.pieces_perm s)

theorem mem_cutPiece {cut : Span} {reason : Reason} {piece q : Span × Verdict} :
    q ∈ cutPiece cut reason piece → q = piece ∨ piece.1.intersects cut = true ∧
      (q.1 ∈ piece.1.subtract cut ∨ q.1 = piece.1.intersect cut) := by
  unfold cutPiece
  split
  · next h =>
    simp only [List.mem_append, List.mem_map, List.mem_singleton]
    rintro (⟨t, ht, rfl⟩ | rfl)
    · exact .inr ⟨h.2, .inl ht⟩
    · exact .inr ⟨h.2, .inr rfl⟩
  · exact fun hq => .inl (List.mem_singleton.mp hq)

/-- What cutting keeps of each span, all exclusions keep of all pieces. -/
theorem forall_mem_foldl {Q : Span → Prop} (hpieces : ∀ piece ∈ pieces, Q piece.1)
    (hcut : ∀ cut reason, .span cut reason ∈ es → ∀ s, Q s → s.intersects cut = true →
      (∀ t ∈ s.subtract cut, Q t) ∧ Q (s.intersect cut)) :
    ∀ q ∈ es.foldl applyTo pieces, Q q.1 := by
  induction es generalizing pieces with
  | nil => exact hpieces
  | cons e es ih =>
    apply ih
    · cases e with
      | holding address reason => exact hpieces
      | span cut reason =>
        intro q hq
        obtain ⟨piece, hp, hq⟩ := List.mem_flatMap.mp hq
        rcases mem_cutPiece hq with rfl | ⟨hi, hq⟩
        · exact hpieces q hp
        · obtain ⟨hsub, hint⟩ := hcut cut reason (by simp) piece.1 (hpieces piece hp) hi
          rcases hq with hq | hq
          · exact hsub q.1 hq
          · exact hq ▸ hint
    · exact fun cut reason hmem => hcut cut reason (by simp [hmem])

/-- Every excluded span covers whole pages. -/
def CutsPages (es : List Exclusion) : Prop :=
  ∀ cut reason, .span cut reason ∈ es → Page.IsAligned cut.start ∧ Page.IsAligned cut.stop

/-- Pieces end where the span ends or at a page boundary. -/
theorem mem_pieces_ends (hcuts : CutsPages p.exclusions) {piece : Span × Verdict}
    (hp : piece ∈ p.pieces s) :
    (piece.1.start = s.start ∨ Page.IsAligned piece.1.start) ∧
      (piece.1.stop = s.stop ∨ Page.IsAligned piece.1.stop) := by
  refine forall_mem_foldl (Q := fun t => (t.start = s.start ∨ Page.IsAligned t.start) ∧
    (t.stop = s.stop ∨ Page.IsAligned t.stop)) (by simp) ?_ piece ((p.pieces_perm s).mem_iff.mp hp)
  intro cut reason hmem t ht hi
  obtain ⟨hstart, hstop⟩ := hcuts cut reason hmem
  constructor
  · intro q hq
    rw [Span.subtract, if_pos hi, List.mem_append] at hq
    rcases hq with hq | hq
    · split at hq
      · rw [List.mem_singleton.mp hq]
        exact ⟨ht.1, .inr hstart⟩
      · simp at hq
    · split at hq
      · rw [List.mem_singleton.mp hq]
        exact ⟨.inr hstop, ht.2⟩
      · simp at hq
  · rw [Span.intersects_iff] at hi
    simp only [Span.intersect]
    constructor
    · rcases max_choice t.start cut.start with h | h
      · rw [h]; exact ht.1
      · rw [h]; exact .inr hstart
    · rw [max_eq_right hi.le]
      rcases min_choice t.stop cut.stop with h | h
      · rw [h]; exact ht.2
      · rw [h]; exact .inr hstop

theorem mem_pieces_within {piece : Span × Verdict} (hp : piece ∈ p.pieces s) :
    s.contains piece.1 = true := by
  refine forall_mem_foldl (Q := fun t => s.contains t = true) (by simp [Span.contains_refl]) ?_
    piece ((p.pieces_perm s).mem_iff.mp hp)
  intro cut reason _ t ht hi
  constructor
  · exact fun q hq => Span.contains_trans ht (Span.contains_of_mem_subtract hq)
  · exact Span.contains_trans ht (Span.contains_intersect hi)

/-- The first excluded span that meets this one leaves a part of it over. -/
def Splits (es : List Exclusion) (s : Span) : Prop :=
  ∃ e, First (Meets s) es e ∧ ¬e.Encloses s

theorem Splits.lt (h : Splits es s) : s.start < s.stop := by
  obtain ⟨e, ⟨_, _, _, hmeets, _⟩, _⟩ := h
  cases e with
  | holding address reason => exact hmeets.elim
  | span cut reason =>
    have hi : s.intersects cut = true := hmeets
    rw [Span.intersects_iff] at hi
    omega

theorem foldl_of_forall_not_meets (h : ∀ e ∈ es, ¬e.Meets s) :
    es.foldl applyTo [(s, .monitored)] = [(s, .monitored)] := by
  induction es with
  | nil => rfl
  | cons e es ih =>
    obtain ⟨he, hes⟩ := List.forall_mem_cons.mp h
    have hstep : applyTo [(s, .monitored)] e = [(s, .monitored)] := by
      cases e with
      | span cut reason =>
        have hi : ¬s.intersects cut = true := he
        simp [applyTo, cutPiece, hi]
      | holding address reason => rfl
    rw [List.foldl_cons, hstep]
    exact ih hes

theorem foldl_of_excluded (es : List Exclusion) (reason : Reason) :
    es.foldl applyTo [(s, .excluded reason)] = [(s, .excluded reason)] := by
  induction es with
  | nil => rfl
  | cons e es ih =>
    rw [List.foldl_cons]
    cases e with
    | span cut reason => simpa [applyTo, cutPiece] using ih
    | holding address reason => exact ih

/-- The exclusions treat a span as one: none meets it, or the first that does encloses it. -/
inductive Uniform (es : List Exclusion) (s : Span) : Verdict → Prop
  | excluded {e : Exclusion} : First (Meets s) es e → e.Encloses s →
      Uniform es s (.excluded e.reason)
  | monitored : (∀ e ∈ es, ¬e.Meets s) → Uniform es s .monitored

theorem foldl_of_uniform {v : Verdict} (h : Uniform es s v) :
    es.foldl applyTo [(s, .monitored)] = [(s, v)] := by
  cases h with
  | monitored h => exact foldl_of_forall_not_meets h
  | @excluded e h henc =>
    obtain ⟨before, after, rfl, hmeets, hbefore⟩ := h
    rw [List.foldl_append, foldl_of_forall_not_meets hbefore, List.foldl_cons]
    cases e with
    | holding address reason => exact hmeets.elim
    | span cut reason =>
      have hi : s.intersects cut = true := hmeets
      have hstep : applyTo [(s, .monitored)] (.span cut reason) = [(s, .excluded reason)] := by
        simp [applyTo, cutPiece, hi, Span.subtract_eq_nil hi henc, Span.intersect_eq_self henc]
      rw [hstep]
      exact foldl_of_excluded after reason

theorem pieces_of_uniform {v : Verdict} (h : Uniform p.exclusions s v) :
    p.pieces s = [(s, v)] :=
  List.perm_singleton.mp (foldl_of_uniform h ▸ p.pieces_perm s)

theorem exists_uniform (h : ¬Splits es s) : ∃ v, Uniform es s v := by
  by_cases hm : ∃ e ∈ es, e.Meets s
  · obtain ⟨e, he⟩ := exists_first hm
    have henc : e.Encloses s := by_contra fun hn => h ⟨e, he, hn⟩
    exact ⟨_, .excluded he henc⟩
  · exact ⟨.monitored, .monitored (by simpa using hm)⟩

/-- A span that is not split is one piece. -/
theorem pieces_of_not_splits (h : ¬Splits p.exclusions s) : ∃ v, p.pieces s = [(s, v)] := by
  obtain ⟨v, hv⟩ := exists_uniform h
  exact ⟨v, pieces_of_uniform hv⟩

/-- No piece of a span that is split is the whole span. -/
theorem ne_of_splits (h : Splits p.exclusions s) {piece : Span × Verdict}
    (hp : piece ∈ p.pieces s) : piece.1 ≠ s := by
  obtain ⟨e, ⟨before, after, heq, hmeets, hbefore⟩, henc⟩ := h
  have hmem := (p.pieces_perm s).mem_iff.mp hp
  rw [heq, List.foldl_append, foldl_of_forall_not_meets hbefore, List.foldl_cons] at hmem
  -- What is smaller than the whole stays so under every later cut.
  refine (forall_mem_foldl (Q := fun t => s.contains t = true ∧ t ≠ s) ?_ ?_ piece hmem).2
  · cases e with
    | holding address reason => exact hmeets.elim
    | span cut reason =>
      have hi : s.intersects cut = true := hmeets
      intro q hq
      simp only [applyTo, cutPiece, hi, List.flatMap_cons, List.flatMap_nil, List.append_nil,
        and_self, if_true, List.mem_append, List.mem_map, List.mem_singleton] at hq
      rcases hq with ⟨t, ht, rfl⟩ | rfl
      · exact ⟨Span.contains_of_mem_subtract ht, Span.ne_of_mem_subtract hi ht⟩
      · exact ⟨Span.contains_intersect hi,
          fun hs => henc (Span.contains_of_intersect_eq_self hs hi)⟩
  · intro cut reason _ t ht hi
    have hpart : ∀ q : Span, t.contains q = true → s.contains q = true ∧ q ≠ s := by
      intro q hq
      refine ⟨Span.contains_trans ht.1 hq, fun hs => ht.2 ?_⟩
      exact (Span.contains_antisymm ht.1 (hs ▸ hq)).symm
    constructor
    · exact fun q hq => hpart q (Span.contains_of_mem_subtract hq)
    · exact hpart _ (Span.contains_intersect hi)

end Policy

end Rewind
