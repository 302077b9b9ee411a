import Mathlib.Tactic
import Rewind.Monitor.LastWords

/-! The last words of a monitor: their number is the decimal numeral, their buffers are never
overrun, and what is written is the beginning of the whole message. -/
namespace Rewind.Monitor

section Numerals

variable {d n : Nat} {text : List UInt8}

/-- The number that digits stand for, the highest digit first. -/
def valueOf (text : List UInt8) : Nat := text.foldl (fun acc b => acc * 10 + (b.toNat - 48)) 0

/-- A decimal numeral: digits, at least one of them, and a zero in front only where it is all. -/
structure Represents (text : List UInt8) (n : Nat) : Prop where
  digits : ∀ b ∈ text, 48 ≤ b.toNat ∧ b.toNat ≤ 57
  nonempty : text ≠ []
  leading : text.head? = some 48 → text = [48]
  value : valueOf text = n

theorem valueOf_append (text : List UInt8) (b : UInt8) :
    valueOf (text ++ [b]) = valueOf text * 10 + (b.toNat - 48) := by
  rw [valueOf, List.foldl_append]
  rfl

theorem toNat_digit (h : d < 10) : (digit d).toNat = 48 + d := by
  rw [digit, UInt8.toNat_ofNat']
  omega

theorem digit_of_toNat {b : UInt8} (h : 48 ≤ b.toNat) : digit (b.toNat - 48) = b := by
  rw [digit, Nat.add_sub_cancel' h, UInt8.ofNat_toNat]

theorem represents_digit (h : d < 10) : Represents [digit d] d where
  digits := by
    have hbyte := toNat_digit h
    simp only [List.mem_singleton, forall_eq]
    omega
  nonempty := List.cons_ne_nil _ _
  leading := by simp
  value := by
    rw [← List.nil_append [digit d], valueOf_append, toNat_digit h]
    simp [valueOf]

/-- A digit behind a numeral, which may not be the zero alone. -/
theorem Represents.concat (h : Represents text n) (hn : 0 < n) (hd : d < 10) :
    Represents (text ++ [digit d]) (n * 10 + d) where
  digits := by
    intro b hb
    rcases List.mem_append.mp hb with hb | hb
    · exact h.digits b hb
    · exact (represents_digit hd).digits b hb
  nonempty := by simp
  leading := by
    intro hzero
    rw [List.head?_append_of_ne_nil _ h.nonempty] at hzero
    have hvalue := h.value
    rw [h.leading hzero] at hvalue
    exact absurd hvalue.symm hn.ne'
  value := by
    rw [valueOf_append, h.value, toNat_digit hd]
    omega

theorem represents_figures (n : Nat) : Represents (figures n) n := by
  induction n using Nat.strong_induction_on with
  | _ n ih =>
    rcases Nat.lt_or_ge n 10 with hlt | hle
    · rw [figures_of_lt hlt]
      exact represents_digit hlt
    · have hrest := (ih (n / 10) (by omega)).concat (by omega) (Nat.mod_lt n Nat.ofNat_pos)
      rw [Nat.div_add_mod'] at hrest
      rw [figures_of_le hle]
      exact hrest

/-- What stands before the last digit of a numeral is a numeral, and not of zero. -/
theorem Represents.init {b : UInt8} (h : Represents (text ++ [b]) n) (ht : text ≠ []) :
    Represents text (valueOf text) where
  digits := fun c hc => h.digits c (List.mem_append_left _ hc)
  nonempty := ht
  leading := by
    intro hzero
    have hall := h.leading (by rwa [List.head?_append_of_ne_nil _ ht])
    have hlength := congrArg List.length hall
    simp [ht] at hlength
  value := rfl

/-- There is one numeral for each number. -/
theorem Represents.eq_figures (h : Represents text n) : text = figures n := by
  induction text using List.reverseRecOn generalizing n with
  | nil => exact absurd rfl h.nonempty
  | append_singleton text b ih =>
    have hbyte := h.digits b (by simp)
    have hvalue : valueOf text * 10 + (b.toNat - 48) = n := by rw [← valueOf_append, h.value]
    rcases eq_or_ne text [] with rfl | ht
    · have hn : b.toNat - 48 = n := by simpa [valueOf] using hvalue
      rw [figures_of_lt (by omega), ← hn, digit_of_toNat hbyte.1]
      rfl
    · have hinit := ih (h.init ht)
      have hpos : 0 < valueOf text := by
        apply Nat.pos_of_ne_zero
        intro hzero
        have hall : text = [48] := by rw [hinit, hzero]; rfl
        have htwo := h.leading (by rw [hall]; rfl)
        simp [hall] at htwo
      have hdiv : n / 10 = valueOf text := by omega
      have hmod : n % 10 = b.toNat - 48 := by omega
      rw [figures_of_le (by omega), hdiv, hmod, digit_of_toNat hbyte.1, ← hinit]

theorem represents_iff : Represents text n ↔ text = figures n :=
  ⟨Represents.eq_figures, fun h => h ▸ represents_figures n⟩

end Numerals

theorem decimal_eq (n : UInt32) : decimal n = figures n.toNat := by
  have h : (.ok (decimal n) : Except Fault _) = .ok (figures n.toNat) :=
    (ok_assured _).trans (writeDecimal_eq _ n)
  exact Except.ok.inj h

/-- Whatever a buffer of ten bytes holds, the digits of a number are written to its last places, no
write being outside of it, and are the number's only decimal numeral. Whatever failed, with whatever
error number, the message is put together without a write outside of its buffer, and is the first
160 bytes of all its parts one behind another. -/
theorem lastWords_fit (buffer : Buffer 10) (n : UInt32) (what : List UInt8) (code : UInt32) :
    (∃ written first, writeDigits buffer 10 n.toNat = .ok (written, first) ∧
      first + (decimal n).length = 10) ∧
    writeDecimal buffer n = .ok (decimal n) ∧
    (∀ text, Represents text n.toNat ↔ text = decimal n) ∧
    compose what code = .ok (lastWords what code) ∧
    lastWords what code = ("snapbench: protection monitor: ".toUTF8.toList ++ what ++
      " failed: errno ".toUTF8.toList ++ decimal code ++ "\n".toUTF8.toList).take 160 := by
  obtain ⟨written, first, hwrite, hfirst, -⟩ :=
    writeDigits_spec buffer (Nat.le_refl 10) (length_figures_le n)
  have hcompose : .ok (lastWords what code) = compose what code := ok_assured _
  simp only [decimal_eq, writeDecimal_eq, true_and]
  refine ⟨⟨written, first, hwrite, hfirst⟩, fun _ => represents_iff, hcompose.symm, ?_⟩
  exact Except.ok.inj (hcompose.trans (compose_eq what code))

end Rewind.Monitor
