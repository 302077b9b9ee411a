import Mathlib.Tactic
import Rewind.Maps.Reader

/-! Line feeds in file names, escaped and read back. The escaped name always tells which line feeds
it stands for, but the reader takes three characters behind a backslash at once, so a line feed
that close behind one is lost to it. -/
namespace Rewind.Maps

/-- A line feed as it is written in a file name. -/
def lineFeed : List Char := ['\\', '0', '1', '2']

/-- A file name as it is written: every line feed is escaped, and nothing else. -/
def escape (name : List Char) : List Char :=
  name.flatMap fun c => if c = '\n' then lineFeed else [c]

@[simp] theorem escape_nil : escape [] = [] := rfl

@[simp] theorem escape_lineFeed (s : List Char) : escape ('\n' :: s) = lineFeed ++ escape s := rfl

theorem escape_cons {c : Char} (hc : c ≠ '\n') (s : List Char) :
    escape (c :: s) = c :: escape s := by simp [escape, hc]

theorem escape_append (s t : List Char) : escape (s ++ t) = escape s ++ escape t := by
  simp [escape]

theorem escape_eq_self {s : List Char} (h : '\n' ∉ s) : escape s = s := by
  induction s with
  | nil => rfl
  | cons c s ih =>
    rw [List.mem_cons, not_or] at h
    rw [escape_cons (Ne.symm h.1), ih h.2]

section Unescape

variable {a b c : Char} {s : List Char}

@[simp] theorem unescape_nil : unescape [] = [] := rfl

@[simp] theorem unescape_lineFeed (s : List Char) :
    unescape (lineFeed ++ s) = '\n' :: unescape s := rfl

theorem unescape_cons (hc : c ≠ '\\') (s : List Char) :
    unescape (c :: s) = c :: unescape s := by
  rw [unescape] <;> simp [hc]

/-- Three characters behind a backslash stand for themselves if they are no escape. -/
theorem unescape_backslash (h : ['\\', a, b, c] ≠ lineFeed) (s : List Char) :
    unescape ('\\' :: a :: b :: c :: s) = '\\' :: a :: b :: c :: unescape s := by
  rw [unescape]
  rintro rfl rfl rfl
  exact h rfl

/-- Fewer than three characters behind a backslash stand for themselves. -/
theorem unescape_short (h : s.length < 3) : unescape ('\\' :: s) = '\\' :: s := by
  have hne : ∀ a b c rest, s ≠ a :: b :: c :: rest := by
    intro a b c rest hs
    rw [hs] at h
    simp only [List.length_cons] at h
    omega
  rw [unescape]
  · exact fun rest => hne '0' '1' '2' rest
  · exact hne

/-- A text without escapes stands for itself. -/
theorem unescape_eq_self (h : ¬lineFeed <:+: s) : unescape s = s := by
  fun_induction unescape s with
  | case1 rest => exact absurd (List.infix_append [] lineFeed rest) h
  | case2 a b c rest hne ih =>
    rw [ih fun hr => h (hr.trans (List.suffix_append ['\\', a, b, c] rest).isInfix)]
  | case3 rest => rfl
  | case4 c rest hc hc' hc'' ih =>
    rw [ih fun hr => h (hr.trans (List.suffix_cons c rest).isInfix)]
  | case5 => rfl

end Unescape

/-- A line feed among three characters behind a backslash is not read back: its escape is cut. -/
theorem unescape_escape_ne {s : List Char} (t : List Char) (hs : s.length ≤ 3) (hn : '\n' ∈ s) :
    unescape (escape ('\\' :: s ++ t)) ≠ '\\' :: s ++ t := by
  obtain ⟨before, after, rfl, hbefore⟩ := List.eq_append_cons_of_mem hn
  have hescape : escape ('\\' :: (before ++ '\n' :: after) ++ t) =
      '\\' :: (before ++ lineFeed ++ escape (after ++ t)) := by
    simp [escape_cons, escape_append, escape_eq_self hbefore]
  rw [hescape]
  -- The reader takes the backslash of the escape for one of the three characters.
  match before with
  | [] | [_] | [_, _] =>
    simp only [lineFeed, List.nil_append, List.cons_append]
    rw [unescape_backslash (by simp [lineFeed])]
    simp
  | _ :: _ :: _ :: _ =>
    simp only [List.length_append, List.length_cons] at hs
    omega

/-- No line feed stands close behind a backslash: the text falls into plain characters and into
backslashes with three characters behind them, or what is left, and these hold no line feed. -/
def Clear : List Char → Prop
  | '\\' :: a :: b :: c :: rest => '\n' ∉ [a, b, c] ∧ Clear rest
  | '\\' :: rest => '\n' ∉ rest
  | _ :: rest => Clear rest
  | [] => True

theorem unescape_escape_eq_iff {s : List Char} (h : ¬lineFeed <:+: s) :
    unescape (escape s) = s ↔ Clear s := by
  -- A text and its escaped form fall into the same pieces up to the first one that is lost.
  fun_induction Clear s with
  | case1 a b c rest ih =>
    by_cases hn : '\n' ∈ [a, b, c]
    · have hne : unescape (escape ('\\' :: a :: b :: c :: rest)) ≠ '\\' :: a :: b :: c :: rest :=
        unescape_escape_ne rest (by simp) hn
      simp only [hne, hn, not_true_eq_false, false_and]
    · have hescape : escape ('\\' :: a :: b :: c :: rest) = '\\' :: a :: b :: c :: escape rest := by
        have happend : escape ('\\' :: a :: b :: c :: rest) =
            escape ['\\', a, b, c] ++ escape rest :=
          escape_append ['\\', a, b, c] rest
        rw [happend, escape_cons (by decide), escape_eq_self hn]
        rfl
      have hplain : ['\\', a, b, c] ≠ lineFeed := fun heq => h ⟨[], rest, by simp [← heq]⟩
      have hrest : ¬lineFeed <:+: rest := fun hr =>
        h (hr.trans (List.suffix_append ['\\', a, b, c] rest).isInfix)
      rw [hescape, unescape_backslash hplain, ← ih hrest]
      simp [hn]
  | case2 rest hshort =>
    have hlen : rest.length < 3 := by
      match rest with
      | [] | [_] | [_, _] => simp
      | a :: b :: c :: rest => exact (hshort a b c rest rfl).elim
    by_cases hn : '\n' ∈ rest
    · have hne := unescape_escape_ne [] hlen.le hn
      rw [List.append_nil] at hne
      simp only [hne, hn, not_true_eq_false]
    · rw [escape_cons (by decide), escape_eq_self hn, unescape_short hlen]
      simp [hn]
  | case3 c rest hc hc' ih =>
    have hrest : ¬lineFeed <:+: rest := fun hr => h (hr.trans (List.suffix_cons c rest).isInfix)
    have hplain : c ≠ '\\' := hc'
    by_cases hn : c = '\n'
    · rw [hn, escape_lineFeed, unescape_lineFeed, List.cons.injEq, ← ih hrest]
      simp
    · rw [escape_cons hn, unescape_cons hplain, List.cons.injEq, ← ih hrest]
      simp
  | case4 => simp

/-- What is no backslash in an escaped name was there before. -/
theorem escape_eq_cons {c : Char} {s t : List Char} (hc : c ≠ '\\') (h : escape s = c :: t) :
    ∃ s', s = c :: s' ∧ escape s' = t := by
  cases s with
  | nil => simp at h
  | cons d s =>
    by_cases hd : d = '\n'
    · rw [hd, escape_lineFeed, lineFeed, List.cons_append, List.cons.injEq] at h
      exact absurd h.1.symm hc
    · rw [escape_cons hd, List.cons.injEq] at h
      exact ⟨s, by rw [h.1], h.2⟩

/-- Every escape in an escaped name comes from a line feed of the name. -/
theorem eq_of_escape_eq_append {s before after : List Char} (h : ¬lineFeed <:+: s)
    (heq : escape s = before ++ (lineFeed ++ after)) :
    ∃ first last, s = first ++ '\n' :: last ∧ escape first = before ∧ escape last = after := by
  induction s generalizing before with
  | nil => simp [lineFeed] at heq
  | cons c s ih =>
    have hs : ¬lineFeed <:+: s := fun hr => h (hr.trans (List.suffix_cons c s).isInfix)
    by_cases hc : c = '\n'
    · rw [hc, escape_lineFeed] at heq
      match before with
      | [] => exact ⟨[], s, by rw [hc, List.nil_append], rfl, List.append_cancel_left heq⟩
      | [_] | [_, _] | [_, _, _] => simp [lineFeed] at heq
      | w :: x :: y :: z :: before =>
        simp only [lineFeed, List.cons_append, List.nil_append, List.cons.injEq] at heq
        obtain ⟨rfl, rfl, rfl, rfl, heq⟩ := heq
        obtain ⟨first, last, hfirst, hbefore, hafter⟩ := ih hs heq
        exact ⟨'\n' :: first, last, by rw [hc, hfirst, List.cons_append],
          by rw [escape_lineFeed, hbefore]; rfl, hafter⟩
    · rw [escape_cons hc] at heq
      cases before with
      | nil =>
        -- The four characters would stand in the name itself.
        simp only [lineFeed, List.nil_append, List.cons_append, List.cons.injEq] at heq
        obtain ⟨t, hs', ht⟩ := escape_eq_cons (by decide) heq.2
        obtain ⟨u, ht', hu⟩ := escape_eq_cons (by decide) ht
        obtain ⟨v, hu', _⟩ := escape_eq_cons (by decide) hu
        rw [heq.1, hs', ht', hu'] at h
        exact absurd (List.prefix_append lineFeed v).isInfix h
      | cons b before =>
        rw [List.cons_append, List.cons.injEq] at heq
        obtain ⟨first, last, hfirst, hbefore, hafter⟩ := ih hs heq.2
        exact ⟨c :: first, last, by rw [hfirst, List.cons_append],
          by rw [escape_cons hc, hbefore, heq.1], hafter⟩

/-- A name that does not hold an escape itself is read back from its escaped form if and only if
no line feed stands close behind a backslash in it; the escaped form is never ambiguous. -/
theorem unescape_escape_iff {s : List Char} (h : ¬lineFeed <:+: s) :
    (unescape (escape s) = s ↔ Clear s) ∧
    ∀ before after, escape s = before ++ (lineFeed ++ after) →
      ∃ first last, s = first ++ '\n' :: last ∧ escape first = before ∧ escape last = after :=
  ⟨unescape_escape_eq_iff h, fun _ _ => eq_of_escape_eq_append h⟩

/-- The line feed right behind the backslash of this name is lost. -/
theorem unescape_escape_iff_backslash : ¬lineFeed <:+: "/tmp/a\\\nb".toList ∧
    unescape (escape "/tmp/a\\\nb".toList) ≠ "/tmp/a\\\nb".toList := by
  have hname : ¬lineFeed <:+: "/tmp/a\\\nb".toList := by decide
  have hclear : ¬Clear "/tmp/a\\\nb".toList := by simp [Clear]
  exact ⟨hname, fun heq => hclear ((unescape_escape_iff hname).1.mp heq)⟩

end Rewind.Maps
