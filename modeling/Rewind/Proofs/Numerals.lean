import Mathlib.Data.Nat.Digits.Defs
import Mathlib.Tactic
import Rewind.Text.Numeral

/-! Numerals as texts: which texts spell which numbers, that exactly these are read, and that a
number written in digits, with zeros in front of it or not, spells itself. -/
namespace Rewind.Text.Numeral

variable {base limit n : Nat} {s : List Char}

/-- Digits, at least one of them and the highest first, and their number. -/
def Figures (base : Nat) (s : List Char) (n : Nat) : Prop :=
  s ≠ [] ∧ ∃ values, List.Forall₂ (fun c d => digit base c = some d) s values ∧
    Nat.ofDigits base values.reverse = n

/-- A text that spells a number: its digits, behind a plus sign or not. -/
inductive Spells (base : Nat) : List Char → Nat → Prop
  | plain {s : List Char} {n : Nat} : Figures base s n → Spells base s n
  | signed {s : List Char} {n : Nat} : Figures base s n → Spells base ('+' :: s) n

/-- What stands for no digit in any base is not in a numeral. -/
theorem Figures.not_mem {c : Char} (h : Figures base s n) (hc : digitValue c = none) : c ∉ s := by
  obtain ⟨-, values, hvalues, -⟩ := h
  intro hmem
  induction hvalues with
  | nil => simp at hmem
  | cons hd _ ih =>
    rcases List.mem_cons.mp hmem with rfl | hmem
    · simp [digit, hc] at hd
    · exact ih hmem

theorem not_figures_plus (t : List Char) : ¬Figures base ('+' :: t) n :=
  fun h => h.not_mem (by decide) List.mem_cons_self

theorem ofDigits_reverse (values : List Nat) :
    Nat.ofDigits base values.reverse = values.foldl (fun acc d => acc * base + d) 0 := by
  rw [Nat.ofDigits_eq_foldr, List.foldr_reverse]
  simp [add_comm, mul_comm]

theorem le_foldl (hbase : 0 < base) (values : List Nat) (acc : Nat) :
    acc ≤ values.foldl (fun acc d => acc * base + d) acc := by
  induction values generalizing acc with
  | nil => rfl
  | cons d values ih =>
    have hstep : acc ≤ acc * base + d :=
      (Nat.le_mul_of_pos_right acc hbase).trans (Nat.le_add_right _ d)
    exact hstep.trans (ih _)

/-- Every number on the way is below the limit if the last one is. -/
theorem readDigits_eq_ok_iff (hbase : 0 < base) {acc : Nat} (hacc : acc < limit) :
    readDigits base limit acc s = .ok n ↔
      ∃ values, List.Forall₂ (fun c d => digit base c = some d) s values ∧
        values.foldl (fun acc d => acc * base + d) acc = n ∧ n < limit := by
  induction s generalizing acc with
  | nil =>
    constructor
    · intro h
      cases h
      exact ⟨[], .nil, rfl, hacc⟩
    · intro ⟨_, hvalues, hfold, _⟩
      cases hvalues
      rw [readDigits, ← hfold]
      rfl
  | cons c s ih =>
    unfold readDigits
    cases hd : digit base c with
    | none =>
      simp only [reduceCtorEq, false_iff]
      intro ⟨_, hvalues, _⟩
      cases hvalues with
      | cons h _ => simp [hd] at h
    | some d =>
      simp only
      constructor
      · intro h
        split at h
        · next hnext =>
          obtain ⟨values, hvalues, hfold, hn⟩ := (ih hnext).mp h
          exact ⟨d :: values, .cons hd hvalues, hfold, hn⟩
        · cases h
      · intro ⟨_, hvalues, hfold, hn⟩
        cases hvalues with
        | @cons _ d' _ values h hvalues =>
          obtain rfl := Option.some.inj (hd.symm.trans h)
          have hle : acc * base + d ≤ n := (le_foldl hbase values _).trans hfold.le
          have hnext : acc * base + d < limit := hle.trans_lt hn
          rw [if_pos hnext]
          exact (ih hnext).mpr ⟨values, hvalues, hfold, hn⟩

theorem readDigits_zero_eq_ok_iff (hbase : 0 < base) (hlimit : 0 < limit) (hs : s ≠ []) :
    readDigits base limit 0 s = .ok n ↔ Figures base s n ∧ n < limit := by
  rw [readDigits_eq_ok_iff hbase hlimit]
  constructor
  · intro ⟨values, hvalues, hfold, hn⟩
    exact ⟨⟨hs, values, hvalues, (ofDigits_reverse values).trans hfold⟩, hn⟩
  · intro ⟨⟨_, values, hvalues, hn⟩, hlt⟩
    exact ⟨values, hvalues, (ofDigits_reverse values).symm.trans hn, hlt⟩

/-- A numeral below the limit is read, and nothing else is. -/
theorem read_eq_ok_iff (hbase : 0 < base) (hlimit : 0 < limit) :
    read base limit s = .ok n ↔ Spells base s n ∧ n < limit := by
  fun_cases read base limit s with
  | case1 =>
    simp only [reduceCtorEq, false_iff]
    intro ⟨h, _⟩
    cases h with
    | plain h => exact h.1 rfl
  | case2 =>
    simp only [reduceCtorEq, false_iff]
    intro ⟨h, _⟩
    cases h with
    | plain h => exact not_figures_plus [] h
    | signed h => exact h.1 rfl
  | case3 c cs =>
    rw [readDigits_zero_eq_ok_iff hbase hlimit (List.cons_ne_nil c cs)]
    constructor
    · intro ⟨h, hn⟩
      exact ⟨.signed h, hn⟩
    · intro ⟨h, hn⟩
      cases h with
      | plain h => exact absurd h (not_figures_plus _)
      | signed h => exact ⟨h, hn⟩
  | case4 cs hnil hplus hsigned =>
    rw [readDigits_zero_eq_ok_iff hbase hlimit hnil]
    constructor
    · intro ⟨h, hn⟩
      exact ⟨.plain h, hn⟩
    · intro ⟨h, hn⟩
      cases h with
      | plain h => exact ⟨h, hn⟩
      | @signed t _ h =>
        match t with
        | [] => exact (hplus rfl).elim
        | c :: t => exact (hsigned c t rfl).elim

section Written

theorem digit_digitChar {d : Nat} (hd : d < base) (hbase : base ≤ 16) :
    digit base d.digitChar = some d := by
  have hvalue : digitValue d.digitChar = some d := by
    have hlt : d < 16 := by omega
    clear hd
    interval_cases d <;> decide
  simp [digit, hvalue, hd]

theorem figures_toDigits (hbase : 1 < base) (hle : base ≤ 16) (n : Nat) :
    Figures base (Nat.toDigits base n) n := by
  induction n using Nat.base_induction base hbase with
  | single d hd =>
    rw [Nat.toDigits_of_lt_base hd]
    exact ⟨by simp, [d], .cons (digit_digitChar hd hle) .nil, by simp⟩
  | digit n d hd hn ih =>
    obtain ⟨_, values, hvalues, hvalue⟩ := ih
    rw [← Nat.toDigits_append_toDigits hbase hn hd, Nat.toDigits_of_lt_base hd]
    refine ⟨by simp, values ++ [d], ?_, ?_⟩
    · exact List.rel_append hvalues (.cons (digit_digitChar hd hle) .nil)
    · rw [List.reverse_concat, Nat.ofDigits_cons, hvalue]
      omega

theorem not_mem_toDigits {c : Char} (hbase : 1 < base) (hle : base ≤ 16)
    (hc : digitValue c = none) (n : Nat) : c ∉ Nat.toDigits base n :=
  (figures_toDigits hbase hle n).not_mem hc

theorem Figures.zero_cons (hbase : 0 < base) (h : Figures base s n) :
    Figures base ('0' :: s) n := by
  obtain ⟨_, values, hvalues, hvalue⟩ := h
  have hzero : digit base '0' = some 0 := by
    have hdigit : digitValue '0' = some 0 := by decide
    simp [digit, hdigit, hbase]
  refine ⟨by simp, 0 :: values, .cons hzero hvalues, ?_⟩
  rw [List.reverse_cons, Nat.ofDigits_append_zero, hvalue]

/-- Zeros in front change nothing. -/
theorem Figures.zeros (hbase : 0 < base) (h : Figures base s n) (k : Nat) :
    Figures base (List.replicate k '0' ++ s) n := by
  induction k with
  | zero => exact h
  | succ k ih => exact ih.zero_cons hbase

end Written

end Rewind.Text.Numeral
