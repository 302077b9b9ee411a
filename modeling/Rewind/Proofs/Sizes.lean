import Mathlib.Data.List.TakeWhile
import Mathlib.Tactic
import Rewind.Proofs.Numerals
import Rewind.Size

/-! Byte counts: which texts give which counts is one grammar, exactly these texts are read, and
every count is read back from its digits, whole or in units that divide it. -/
namespace Rewind

section Trimming

namespace Text

variable {before core after : List Char}

theorem exists_trim (s : List Char) :
    ∃ before after, s = before ++ trim s ++ after ∧ ∀ c ∈ before ++ after, isBlank c = true := by
  have hrest := List.takeWhile_append_dropWhile (p := isBlank) (l := (s.dropWhile isBlank).reverse)
  refine ⟨s.takeWhile isBlank, ((s.dropWhile isBlank).reverse.takeWhile isBlank).reverse, ?_, ?_⟩
  · rw [trim, dropRightWhile, List.append_assoc, ← List.reverse_append, hrest,
      List.reverse_reverse, List.takeWhile_append_dropWhile]
  · intro c hc
    rcases List.mem_append.mp hc with hc | hc
    · exact List.mem_takeWhile_imp hc
    · exact List.mem_takeWhile_imp (List.mem_reverse.mp hc)

theorem dropWhile_isBlank (hbefore : ∀ c ∈ before, isBlank c = true) (hcore : core ≠ [])
    (hhead : isBlank (core.head hcore) = false) : (before ++ core).dropWhile isBlank = core := by
  rw [List.dropWhile_append_of_pos hbefore]
  cases core with
  | nil => exact absurd rfl hcore
  | cons c core => exact List.dropWhile_cons_of_neg (by simpa using hhead)

/-- What is between blanks and neither starts nor ends with one is left. -/
theorem trim_eq (hblank : ∀ c ∈ before ++ after, isBlank c = true) (hcore : core ≠ [])
    (hhead : isBlank (core.head hcore) = false) (hlast : isBlank (core.getLast hcore) = false) :
    trim (before ++ core ++ after) = core := by
  obtain ⟨hbefore, hafter⟩ := List.forall_mem_append.mp hblank
  have hfront : (before ++ (core ++ after)).dropWhile isBlank = core ++ after :=
    dropWhile_isBlank hbefore (List.append_ne_nil_of_left_ne_nil hcore after)
      (by rwa [List.head_append_of_ne_nil hcore])
  have hne : core.reverse ≠ [] := List.reverse_ne_nil_iff.mpr hcore
  have hback : (after.reverse ++ core.reverse).dropWhile isBlank = core.reverse :=
    dropWhile_isBlank (by simpa using hafter) hne (by rwa [List.head_reverse])
  rw [trim, List.append_assoc, hfront, dropRightWhile, List.reverse_append, hback,
    List.reverse_reverse]

end Text

end Trimming

section Decimals

namespace Text.Numeral

variable {c : Char} {s : List Char} {d n : Nat}

theorem isDigit_iff : c.isDigit = true ↔ 48 ≤ c.toNat ∧ c.toNat ≤ 57 := Char.isDigit_iff_toNat

theorem le_char_iff (a c : Char) : a ≤ c ↔ a.toNat ≤ c.toNat := by
  rw [Char.le_def, UInt32.le_iff_toNat_le]
  rfl

theorem digit_ten_eq_some_iff :
    digit 10 c = some d ↔ c.isDigit = true ∧ c.toNat - '0'.toNat = d := by
  have hzero : '0'.toNat = 48 := rfl
  have hnine : '9'.toNat = 57 := rfl
  rw [isDigit_iff]
  unfold digit digitValue
  simp only [le_char_iff, hzero, hnine]
  split
  · next h =>
    simp only [Option.filter_some, h]
    grind
  · next h =>
    -- Letters stand for digits of larger bases only.
    grind

theorem isDigit_of_values {values : List Nat}
    (h : List.Forall₂ (fun c d => digit 10 c = some d) s values) : ∀ c ∈ s, c.isDigit = true := by
  induction h with
  | nil => simp
  | cons hd _ ih => exact List.forall_mem_cons.mpr ⟨(digit_ten_eq_some_iff.mp hd).1, ih⟩

theorem foldl_values {values : List Nat} {acc : Nat}
    (h : List.Forall₂ (fun c d => digit 10 c = some d) s values) :
    values.foldl (fun acc d => acc * 10 + d) acc = Nat.ofDigitChars 10 s acc := by
  induction h generalizing acc with
  | nil => rfl
  | cons hd _ ih =>
    obtain ⟨-, rfl⟩ := digit_ten_eq_some_iff.mp hd
    rw [List.foldl_cons, ih, Nat.ofDigitChars_cons, Nat.mul_comm]

/-- Decimal digits and their number, as the standard library has them. -/
theorem figures_ten_iff :
    Figures 10 s n ↔ s ≠ [] ∧ (∀ c ∈ s, c.isDigit = true) ∧ Nat.ofDigitChars 10 s 0 = n := by
  constructor
  · intro ⟨hne, values, hvalues, hn⟩
    exact ⟨hne, isDigit_of_values hvalues, by rw [← foldl_values hvalues, ← ofDigits_reverse, hn]⟩
  · intro ⟨hne, hdigits, hn⟩
    have hvalues : List.Forall₂ (fun c d => digit 10 c = some d) s
        (s.map fun c => c.toNat - '0'.toNat) := by
      rw [List.forall₂_map_right_iff, List.forall₂_same]
      intro c hc
      exact digit_ten_eq_some_iff.mpr ⟨hdigits c hc, rfl⟩
    exact ⟨hne, _, hvalues, by rw [ofDigits_reverse, foldl_values hvalues, hn]⟩

end Text.Numeral

end Decimals

namespace Size

variable {s digits core suffix : List Char} {n v exponent : Nat}

/-- The ends of a count, and the binary exponents that they stand for. -/
inductive Suffix : List Char → Nat → Prop
  | none : Suffix [] 0
  | kilo {c : Char} : c = 'k' ∨ c = 'K' → Suffix [c] 10
  | mega {c : Char} : c = 'm' ∨ c = 'M' → Suffix [c] 20
  | giga {c : Char} : c = 'g' ∨ c = 'G' → Suffix [c] 30

/-- The texts that give a count, blanks around or not: a plus sign or none, decimal digits, and a
unit or none. The count is positive, and it is a word as the number in front of the unit is. -/
inductive Gives : List Char → Nat → Prop
  | count {before sign digits suffix after : List Char} {exponent : Nat} :
    (∀ c ∈ before ++ after, Text.isBlank c = true) → sign = [] ∨ sign = ['+'] →
    digits ≠ [] → (∀ c ∈ digits, c.isDigit = true) →
    Nat.ofDigitChars 10 digits 0 < Word.limit → Suffix suffix exponent →
    0 < Nat.ofDigitChars 10 digits 0 * 2 ^ exponent →
    Nat.ofDigitChars 10 digits 0 * 2 ^ exponent < Word.limit →
    Gives (before ++ (sign ++ digits ++ suffix) ++ after)
      (Nat.ofDigitChars 10 digits 0 * 2 ^ exponent)

theorem unit?_eq_some_iff {c : Char} : unit? c = some exponent ↔ Suffix [c] exponent := by
  constructor
  · intro h
    unfold unit? at h
    split at h
    · cases h; exact .kilo (.inl rfl)
    · cases h; exact .kilo (.inr rfl)
    · cases h; exact .mega (.inl rfl)
    · cases h; exact .mega (.inr rfl)
    · cases h; exact .giga (.inl rfl)
    · cases h; exact .giga (.inr rfl)
    · cases h
  · intro h
    cases h with
    | kilo h => rcases h with rfl | rfl <;> rfl
    | mega h => rcases h with rfl | rfl <;> rfl
    | giga h => rcases h with rfl | rfl <;> rfl

theorem unit?_eq_none_of_isDigit {c : Char} (h : c.isDigit = true) : unit? c = none := by
  fun_cases unit? c <;> first | rfl | exact absurd h (by decide)

theorem suffix_parts (s : List Char) : ∃ suffix, s = (parts s).1 ++ suffix ∧
    Suffix suffix (parts s).2 := by
  unfold parts
  cases hlast : s.getLast? with
  | none => exact ⟨[], by simp, .none⟩
  | some c =>
    obtain ⟨digits, rfl⟩ := List.getLast?_eq_some_iff.mp hlast
    cases hunit : unit? c with
    | none => exact ⟨[], by simp [hunit], by simpa [hunit] using Suffix.none⟩
    | some exponent =>
      exact ⟨[c], by simp [hunit], by simpa [hunit] using unit?_eq_some_iff.mp hunit⟩

theorem parts_append (hne : digits ≠ []) (hdigit : (digits.getLast hne).isDigit = true)
    (hsuffix : Suffix suffix exponent) : parts (digits ++ suffix) = (digits, exponent) := by
  have hletter : ∀ c, Suffix [c] exponent → parts (digits ++ [c]) = (digits, exponent) := by
    intro c hc
    simp [parts, unit?_eq_some_iff.mpr hc]
  cases hsuffix with
  | none =>
    simp [parts, List.getLast?_eq_some_getLast hne, unit?_eq_none_of_isDigit hdigit]
  | kilo hc => exact hletter _ (.kilo hc)
  | mega hc => exact hletter _ (.mega hc)
  | giga hc => exact hletter _ (.giga hc)

theorem scale_eq_ok_iff :
    scale n exponent = .ok v ↔
      0 < n * 2 ^ exponent ∧ n * 2 ^ exponent < Word.limit ∧ v = n * 2 ^ exponent := by
  simp only [scale, Nat.shiftLeft_eq]
  split
  · simp only [reduceCtorEq, false_iff]
    omega
  · simp only [Except.ok.injEq]
    omega

theorem count_eq_ok_iff :
    count digits exponent = .ok v ↔ ∃ n, (Text.Numeral.Spells 10 digits n ∧ n < Word.limit) ∧
      0 < n * 2 ^ exponent ∧ n * 2 ^ exponent < Word.limit ∧ v = n * 2 ^ exponent := by
  have hread : ∀ n, (Text.Numeral.read 10 Word.limit digits).mapError Error.numeral = .ok n ↔
      Text.Numeral.Spells 10 digits n ∧ n < Word.limit := by
    intro n
    rw [← Text.Numeral.read_eq_ok_iff (by decide) (by decide)]
    cases Text.Numeral.read 10 Word.limit digits <;> simp [Except.mapError]
  simp only [count, bind_eq_ok_iff, hread, scale_eq_ok_iff]

theorem read_eq (s : String) :
    read s = count (parts (Text.trim s.toList)).1 (parts (Text.trim s.toList)).2 := by
  have houtcome := outcome_eq s
  unfold read
  cases hcount : count (parts (Text.trim s.toList)).1 (parts (Text.trim s.toList)).2 with
  | error cause =>
    rw [hcount] at houtcome
    split <;> simp_all [Except.mapError]
  | ok n =>
    rw [hcount] at houtcome
    split <;> simp_all [Except.mapError]

theorem Gives.of_spells {before after : List Char}
    (hblank : ∀ c ∈ before ++ after, Text.isBlank c = true)
    (hspells : Text.Numeral.Spells 10 digits n) (hn : n < Word.limit)
    (hsuffix : Suffix suffix exponent) (hpos : 0 < n * 2 ^ exponent)
    (hlimit : n * 2 ^ exponent < Word.limit) :
    Gives (before ++ (digits ++ suffix) ++ after) (n * 2 ^ exponent) := by
  cases hspells with
  | plain h =>
    obtain ⟨hne, hdigits, rfl⟩ := Text.Numeral.figures_ten_iff.mp h
    change Gives (before ++ ([] ++ digits ++ suffix) ++ after) _
    exact .count hblank (.inl rfl) hne hdigits hn hsuffix hpos hlimit
  | @signed digits _ h =>
    obtain ⟨hne, hdigits, rfl⟩ := Text.Numeral.figures_ten_iff.mp h
    change Gives (before ++ (['+'] ++ digits ++ suffix) ++ after) _
    exact .count hblank (.inr rfl) hne hdigits hn hsuffix hpos hlimit

theorem isBlank_of_isDigit {c : Char} (h : c.isDigit = true) : Text.isBlank c = false := by
  rw [Text.Numeral.isDigit_iff] at h
  simp only [Text.isBlank, Bool.or_eq_false_iff, Bool.and_eq_false_iff, decide_eq_false_iff_not,
    beq_eq_false_iff_ne]
  omega

theorem Suffix.isBlank (h : Suffix suffix exponent) : ∀ c ∈ suffix, Text.isBlank c = false := by
  cases h with
  | none => simp
  | kilo hc => exact List.forall_mem_singleton.mpr (by rcases hc with rfl | rfl <;> rfl)
  | mega hc => exact List.forall_mem_singleton.mpr (by rcases hc with rfl | rfl <;> rfl)
  | giga hc => exact List.forall_mem_singleton.mpr (by rcases hc with rfl | rfl <;> rfl)

/-- A text is read as the count that it gives, and nothing else is read. -/
theorem read_eq_ok_iff {s : String} : read s = .ok v ↔ Gives s.toList v := by
  rw [read_eq, count_eq_ok_iff]
  constructor
  · intro ⟨n, ⟨hspells, hn⟩, hpos, hlimit, hv⟩
    obtain ⟨before, after, hs, hblank⟩ := Text.exists_trim s.toList
    obtain ⟨suffix, htrim, hsuffix⟩ := suffix_parts (Text.trim s.toList)
    rw [hs, htrim, hv]
    exact .of_spells hblank hspells hn hsuffix hpos hlimit
  · intro h
    generalize s.toList = text at h
    cases h with
    | @count before sign digits suffix after exponent hblank hsign hne hdigits hn hsuffix hpos
        hlimit =>
      have hspells : Text.Numeral.Spells 10 (sign ++ digits) (Nat.ofDigitChars 10 digits 0) := by
        have hfigures := Text.Numeral.figures_ten_iff.mpr ⟨hne, hdigits, rfl⟩
        rcases hsign with rfl | rfl
        · exact .plain hfigures
        · exact .signed hfigures
      have hcore : ∀ c ∈ sign ++ digits ++ suffix, Text.isBlank c = false := by
        simp only [List.forall_mem_append]
        refine ⟨⟨?_, fun c hc => isBlank_of_isDigit (hdigits c hc)⟩, hsuffix.isBlank⟩
        rcases hsign with rfl | rfl
        · simp
        · exact List.forall_mem_singleton.mpr rfl
      have hcorene : sign ++ digits ++ suffix ≠ [] := by simp [hne]
      have hsignne : sign ++ digits ≠ [] := by simp [hne]
      have hlast : ((sign ++ digits).getLast hsignne).isDigit = true := by
        rw [List.getLast_append_of_ne_nil _ hne]
        exact hdigits _ (List.getLast_mem hne)
      rw [Text.trim_eq hblank hcorene (hcore _ (List.head_mem hcorene))
        (hcore _ (List.getLast_mem hcorene)), parts_append hsignne hlast hsuffix]
      exact ⟨_, ⟨hspells, hn⟩, hpos, hlimit, rfl⟩

theorem read_toString_append {s : String} (hsuffix : Suffix s.toList exponent)
    (hpos : 0 < n * 2 ^ exponent) (hlimit : n * 2 ^ exponent < Word.limit) :
    read (toString n ++ s) = .ok (n * 2 ^ exponent) := by
  have hn : n < Word.limit := lt_of_le_of_lt (Nat.le_mul_of_pos_right n (by positivity)) hlimit
  have hfigures : Text.Numeral.Figures 10 (Nat.toDigits 10 n) n :=
    Text.Numeral.figures_toDigits (by decide) (by decide) n
  have hgives : Gives ([] ++ (Nat.toDigits 10 n ++ s.toList) ++ []) (n * 2 ^ exponent) :=
    .of_spells (by simp) (.plain hfigures) hn hsuffix hpos hlimit
  rw [read_eq_ok_iff]
  simpa [Nat.toString_eq_repr] using hgives

theorem outcome_eq_read (s : String) : outcome s = (read s).mapError .error := by
  rw [outcome_eq, read_eq]

/-- Reading a byte count never gives up, finds exactly the counts that texts give, and gives every
count back that is written in digits, as a number of bytes or of a unit that divides it. -/
theorem read_counts (s : String) :
    (∀ v, read s = .ok v ↔ Gives s.toList v) ∧
      ((∃ cause, outcome s = .error (.error cause)) ↔ ∀ v, ¬Gives s.toList v) ∧
      (∀ cause, outcome s ≠ .error (.fault cause)) ∧
      (∀ v exponent, 0 < v → v < Word.limit → Suffix s.toList exponent → 2 ^ exponent ∣ v →
        read (toString (v / 2 ^ exponent) ++ s) = .ok v) := by
  refine ⟨fun v => read_eq_ok_iff, ?_, outcome_ne_fault s, ?_⟩
  · simp only [← read_eq_ok_iff, outcome_eq_read]
    cases read s <;> simp [Except.mapError]
  · intro v exponent hpos hlimit hsuffix hdvd
    have hwhole : v / 2 ^ exponent * 2 ^ exponent = v := Nat.div_mul_cancel hdvd
    have hread := read_toString_append (n := v / 2 ^ exponent) hsuffix (by rwa [hwhole])
      (by rwa [hwhole])
    rwa [hwhole] at hread

theorem read_counts_spaced :
    read " +12k\n" = .ok 12288 ∧ read (toString (12288 / 2 ^ 10) ++ "k") = .ok 12288 := by
  obtain ⟨hgives, -⟩ := read_counts " +12k\n"
  obtain ⟨-, -, -, hwritten⟩ := read_counts "k"
  constructor
  · rw [hgives]
    change Gives ([' '] ++ (['+'] ++ ['1', '2'] ++ ['k']) ++ ['\n'])
      (Nat.ofDigitChars 10 ['1', '2'] 0 * 2 ^ 10)
    exact .count (by simp [Text.isBlank]) (.inr rfl) (by simp) (by simp) (by decide)
      (.kilo (.inl rfl)) (by decide) (by decide)
  · exact hwritten 12288 10 (by decide) (by decide) (.kilo (.inl rfl)) (by decide)

end Size
end Rewind
