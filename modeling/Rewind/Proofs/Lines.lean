import Mathlib.Data.List.TakeWhile
import Mathlib.Tactic
import Rewind.Text.Lines

/-! Texts cut into lines and lines into fields. A text that was put together from lines or fields
is cut into them again, and a text has the same lines in characters as in the bytes that encode
it. -/
namespace Rewind.Text

section Lines

variable {α : Type} {lf cr c : α} {line rest : List α}

/-- Items before a text, given by its lines, go to the first line. -/
def ahead (items : List α) : List (List α) → List (List α)
  | [] => [items]
  | line :: others => (items ++ line) :: others

theorem ahead_ahead (a b : List α) (lines : List (List α)) :
    ahead a (ahead b lines) = ahead (a ++ b) lines := by
  cases lines with
  | nil => rfl
  | cons line others => simp [ahead]

variable [DecidableEq α]

@[simp] theorem lines_nil : lines lf cr [] = [] := rfl

@[simp] theorem lines_cons_self (rest : List α) :
    lines lf cr (lf :: rest) = [] :: lines lf cr rest := by
  rw [lines, if_pos rfl]

theorem lines_cons_cr (hcr : cr ≠ lf) (h : rest.head? = some lf) :
    lines lf cr (cr :: rest) = lines lf cr rest := by
  rw [lines, if_neg hcr, if_pos ⟨rfl, h⟩]

theorem lines_cons (hlf : c ≠ lf) (hcr : ¬(c = cr ∧ rest.head? = some lf)) :
    lines lf cr (c :: rest) = ahead [c] (lines lf cr rest) := by
  rw [lines, if_neg hlf, if_neg hcr]
  cases lines lf cr rest <;> rfl

theorem lines_append (hne : line ≠ []) (hlf : lf ∉ line) (hcr : cr ∉ line) (rest : List α) :
    lines lf cr (line ++ rest) = ahead line (lines lf cr rest) := by
  induction line with
  | nil => exact absurd rfl hne
  | cons c line ih =>
    rw [List.mem_cons, not_or] at hlf hcr
    rw [List.cons_append, lines_cons (Ne.symm hlf.1) fun h => hcr.1 h.1.symm]
    by_cases hline : line = []
    · rw [hline, List.nil_append]
    · rw [ih hline hlf.2 hcr.2, ahead_ahead]
      rfl

/-- A line that holds no line feed and ends in no carriage return ends where its line feed is. -/
theorem lines_append_cons (hlf : lf ∉ line) (hcr : line.getLast? ≠ some cr) (rest : List α) :
    lines lf cr (line ++ lf :: rest) = line :: lines lf cr rest := by
  induction line with
  | nil => simp
  | cons c line ih =>
    rw [List.mem_cons, not_or] at hlf
    have hend : ¬(c = cr ∧ (line ++ lf :: rest).head? = some lf) := by
      intro ⟨hc, hhead⟩
      cases line with
      | nil => simp [hc] at hcr
      | cons d line =>
        rw [List.cons_append, List.head?_cons, Option.some.injEq] at hhead
        exact hlf.2 (hhead ▸ List.mem_cons_self)
    have hlast : line.getLast? ≠ some cr := by
      cases line with
      | nil => simp
      | cons d line => simpa using hcr
    rw [List.cons_append, lines_cons (Ne.symm hlf.1) hend, ih hlf.2 hlast]
    rfl

theorem lines_ne_nil {s : List α} (h : s ≠ []) : lines lf cr s ≠ [] := by
  induction s with
  | nil => exact absurd rfl h
  | cons c s ih =>
    by_cases hlf : c = lf
    · rw [hlf, lines_cons_self]
      exact List.cons_ne_nil _ _
    · by_cases hend : c = cr ∧ s.head? = some lf
      · have hs : s ≠ [] := by
          intro hnil
          simp [hnil] at hend
        rw [hend.1, lines_cons_cr (hend.1 ▸ hlf) hend.2]
        exact ih hs
      · rw [lines_cons hlf hend]
        cases lines lf cr s <;> exact List.cons_ne_nil _ _

theorem mem_of_mem_lines {s : List α} (hline : line ∈ lines lf cr s) (hc : c ∈ line) : c ∈ s := by
  induction s generalizing line with
  | nil => simp at hline
  | cons d s ih =>
    by_cases hlf : d = lf
    · rw [hlf, lines_cons_self, List.mem_cons] at hline
      rcases hline with rfl | hline
      · simp at hc
      · exact List.mem_cons_of_mem d (ih hline hc)
    · by_cases hend : d = cr ∧ s.head? = some lf
      · rw [hend.1, lines_cons_cr (hend.1 ▸ hlf) hend.2] at hline
        exact List.mem_cons_of_mem d (ih hline hc)
      · rw [lines_cons hlf hend] at hline
        cases hlines : lines lf cr s with
        | nil =>
          rw [hlines, ahead, List.mem_singleton] at hline
          rw [hline] at hc
          exact List.mem_cons.mpr (.inl (List.mem_singleton.mp hc))
        | cons first others =>
          rw [hlines] at ih hline
          rcases List.mem_cons.mp hline with rfl | hothers
          · rcases List.mem_cons.mp hc with rfl | hc
            · exact List.mem_cons_self
            · exact List.mem_cons_of_mem d (ih List.mem_cons_self hc)
          · exact List.mem_cons_of_mem d (ih (List.mem_cons_of_mem first hothers) hc)

theorem not_mem_of_mem_lines {s : List α} (hline : line ∈ lines lf cr s) : lf ∉ line := by
  induction s generalizing line with
  | nil => simp at hline
  | cons d s ih =>
    by_cases hlf : d = lf
    · rw [hlf, lines_cons_self, List.mem_cons] at hline
      rcases hline with rfl | hline
      · exact List.not_mem_nil
      · exact ih hline
    · by_cases hend : d = cr ∧ s.head? = some lf
      · rw [hend.1, lines_cons_cr (hend.1 ▸ hlf) hend.2] at hline
        exact ih hline
      · rw [lines_cons hlf hend] at hline
        cases hlines : lines lf cr s with
        | nil =>
          rw [hlines, ahead, List.mem_singleton] at hline
          simp [hline, Ne.symm hlf]
        | cons first others =>
          rw [hlines] at ih hline
          rcases List.mem_cons.mp hline with rfl | hothers
          · have hfirst := ih List.mem_cons_self
            simp [hfirst, Ne.symm hlf]
          · exact ih (List.mem_cons_of_mem first hothers)

end Lines

section Ended

variable {α : Type} {lf cr c : α} {s line : List α}

/-- A text whose last line is ended. -/
def Ended (lf : α) (s : List α) : Prop := s = [] ∨ s.getLast? = some lf

theorem Ended.tail (h : Ended lf (c :: s)) : Ended lf s := by
  unfold Ended at *
  cases s with
  | nil => exact .inl rfl
  | cons d s => simpa using h

theorem Ended.ne_nil (h : Ended lf (c :: s)) (hc : c ≠ lf) : s ≠ [] := by
  intro hs
  simp [Ended, hs, hc] at h

theorem ahead_append {first : List (List α)} (items : List α) (h : first ≠ [])
    (others : List (List α)) : ahead items (first ++ others) = ahead items first ++ others := by
  cases first with
  | nil => exact absurd rfl h
  | cons line first => rfl

variable [DecidableEq α]

/-- Behind an ended text, lines begin anew. -/
theorem lines_append_of_ended (h : Ended lf s) (rest : List α) :
    lines lf cr (s ++ rest) = lines lf cr s ++ lines lf cr rest := by
  induction s with
  | nil => rfl
  | cons c s ih =>
    have hs := ih h.tail
    by_cases hlf : c = lf
    · rw [hlf, List.cons_append, lines_cons_self, lines_cons_self, hs, List.cons_append]
    · have hne := h.ne_nil hlf
      have hhead : (s ++ rest).head? = s.head? := List.head?_append_of_ne_nil s hne
      rw [List.cons_append]
      by_cases hend : c = cr ∧ s.head? = some lf
      · have hcr : cr ≠ lf := hend.1 ▸ hlf
        rw [hend.1, lines_cons_cr hcr (hhead.trans hend.2), lines_cons_cr hcr hend.2, hs]
      · have hend' : ¬(c = cr ∧ (s ++ rest).head? = some lf) := by rwa [hhead]
        rw [lines_cons hlf hend', lines_cons hlf hend, hs, ahead_append [c] (lines_ne_nil hne)]

/-- An ended text has as many lines as it has line feeds. -/
theorem length_lines_of_ended (h : Ended lf s) : (lines lf cr s).length = s.count lf := by
  induction s with
  | nil => rfl
  | cons c s ih =>
    have hs := ih h.tail
    by_cases hlf : c = lf
    · rw [hlf, lines_cons_self, List.length_cons, hs, List.count_cons_self]
    · rw [List.count_cons_of_ne hlf, ← hs]
      by_cases hend : c = cr ∧ s.head? = some lf
      · rw [hend.1, lines_cons_cr (hend.1 ▸ hlf) hend.2]
      · rw [lines_cons hlf hend]
        cases hlines : lines lf cr s with
        | nil => exact absurd hlines (lines_ne_nil (h.ne_nil hlf))
        | cons line others => rfl

/-- Ended texts one behind another have their lines one behind another. -/
theorem lines_flatMap_append {β : Type} {l : List β} {f : β → List α}
    (h : ∀ b ∈ l, Ended lf (f b)) (rest : List α) :
    lines lf cr (l.flatMap f ++ rest) =
      (l.map fun b => lines lf cr (f b)).flatten ++ lines lf cr rest := by
  induction l with
  | nil => rfl
  | cons b l ih =>
    obtain ⟨hb, hl⟩ := List.forall_mem_cons.mp h
    rw [List.flatMap_cons, List.append_assoc, lines_append_of_ended hb, ih hl, List.map_cons,
      List.flatten_cons, List.append_assoc]

/-- What stands at the end of the text stands at the end of its last line. -/
theorem exists_lines_append (hlf : lf ∉ line) (hcr : cr ∉ line) (s : List α) :
    ∃ before last, lines lf cr (s ++ (line ++ [lf])) = before ++ [last] ∧ line <:+ last := by
  induction s with
  | nil =>
    have hlast : line.getLast? ≠ some cr := fun h => hcr (List.mem_of_getLast? h)
    refine ⟨[], line, ?_, List.suffix_rfl⟩
    rw [List.nil_append, lines_append_cons hlf hlast, lines_nil, List.nil_append]
  | cons c s ih =>
    obtain ⟨before, last, hlines, hsuffix⟩ := ih
    rw [List.cons_append]
    by_cases hc : c = lf
    · exact ⟨[] :: before, last, by rw [hc, lines_cons_self, hlines]; rfl, hsuffix⟩
    · by_cases hend : c = cr ∧ (s ++ (line ++ [lf])).head? = some lf
      · exact ⟨before, last, by rw [hend.1, lines_cons_cr (hend.1 ▸ hc) hend.2, hlines], hsuffix⟩
      · rw [lines_cons hc hend, hlines]
        cases before with
        | nil => exact ⟨[], c :: last, rfl, hsuffix.trans (List.suffix_cons c last)⟩
        | cons first before => exact ⟨(c :: first) :: before, last, rfl, hsuffix⟩

end Ended

section Fields

variable {α : Type} {separator : α} {field s : List α}

theorem eq_false_of_head?_dropWhile {p : α → Bool} {c : α} (h : (s.dropWhile p).head? = some c) :
    p c = false := by
  have hhead := List.head?_dropWhile_not p s
  rwa [h] at hhead

variable [DecidableEq α]

theorem forall_ne_of_not_mem (h : separator ∉ s) : ∀ a ∈ s, decide (a ≠ separator) = true := by
  intro a ha
  rw [decide_eq_true_eq]
  intro heq
  exact h (heq ▸ ha)

theorem takeWhile_append_cons (h : separator ∉ field) (rest : List α) :
    (field ++ separator :: rest).takeWhile (· ≠ separator) = field := by
  rw [List.takeWhile_append_of_pos (forall_ne_of_not_mem h)]
  simp

theorem dropWhile_append_cons (h : separator ∉ field) (rest : List α) :
    (field ++ separator :: rest).dropWhile (· ≠ separator) = separator :: rest := by
  rw [List.dropWhile_append_of_pos (forall_ne_of_not_mem h)]
  simp

theorem fields_append_cons (h : separator ∉ field) (n : Nat) (rest : List α) :
    fields separator (n + 2) (field ++ separator :: rest) =
      field :: fields separator (n + 1) rest := by
  rw [fields, dropWhile_append_cons h, takeWhile_append_cons h]

theorem fields_of_not_mem (h : separator ∉ s) (n : Nat) : fields separator (n + 1) s = [s] := by
  cases n with
  | zero => rfl
  | succ n =>
    have hnone : s.dropWhile (· ≠ separator) = [] :=
      List.dropWhile_eq_nil_iff.mpr (forall_ne_of_not_mem h)
    rw [fields, hnone]

/-- A text without the separator, or its first field and the rest. -/
theorem not_mem_or_eq_append_cons (separator : α) (s : List α) :
    separator ∉ s ∨ ∃ field rest, s = field ++ separator :: rest ∧ separator ∉ field := by
  by_cases h : separator ∈ s
  · exact .inr (List.eq_append_cons_of_mem h)
  · exact .inl h

theorem length_fields (separator : α) (n : Nat) (s : List α) :
    (fields separator (n + 1) s).length = min (n + 1) (s.count separator + 1) := by
  induction n generalizing s with
  | zero => simp [fields]
  | succ n ih =>
    rcases not_mem_or_eq_append_cons separator s with h | ⟨field, rest, rfl, h⟩
    · rw [fields_of_not_mem h, List.count_eq_zero_of_not_mem h]
      simp
    · rw [fields_append_cons h, List.length_cons, ih]
      simp only [List.count_append, List.count_eq_zero_of_not_mem h, List.count_cons_self]
      omega

end Fields

section Bytes

/-- The bytes that encode a text. -/
def utf8 (s : List Char) : List UInt8 := s.flatMap String.utf8EncodeChar

@[simp] theorem utf8_nil : utf8 [] = [] := rfl

@[simp] theorem utf8_cons (c : Char) (s : List Char) :
    utf8 (c :: s) = String.utf8EncodeChar c ++ utf8 s := rfl

/-- A small byte stands for itself and occurs in no longer encoding. -/
theorem eq_of_mem_utf8EncodeChar {b : UInt8} {c d : Char} (h : b ∈ String.utf8EncodeChar c)
    (hb : b.toNat = d.toNat) (hd : d.toNat < 0x80) : c = d := by
  have hsmall : b.toNat = c.toNat := by
    have hbyte : b.toNat < 0x80 := hb ▸ hd
    unfold String.utf8EncodeChar at h
    simp only [Char.toNat_val] at h
    -- Every byte of a longer encoding has its highest bit set.
    split_ifs at h <;> simp only [List.mem_cons, List.not_mem_nil, or_false] at h
    · rw [h, UInt8.toNat_ofNat']
      omega
    · rcases h with rfl | rfl <;> rw [UInt8.toNat_ofNat'] at hbyte <;> omega
    · rcases h with rfl | rfl | rfl <;> rw [UInt8.toNat_ofNat'] at hbyte <;> omega
    · rcases h with rfl | rfl | rfl | rfl <;> rw [UInt8.toNat_ofNat'] at hbyte <;> omega
  exact Char.toNat_inj.mp (hsmall.symm.trans hb)

theorem utf8EncodeChar_lineFeed : String.utf8EncodeChar '\n' = [10] := by decide

theorem utf8EncodeChar_return : String.utf8EncodeChar '\r' = [13] := by decide

theorem head?_utf8_eq_iff (s : List Char) :
    (utf8 s).head? = some 10 ↔ s.head? = some '\n' := by
  cases s with
  | nil => simp
  | cons c s =>
    constructor
    · intro h
      have hmem : (10 : UInt8) ∈ String.utf8EncodeChar c := by
        rw [utf8_cons, List.head?_append_of_ne_nil _ String.utf8EncodeChar_ne_nil] at h
        exact List.mem_of_head? h
      rw [eq_of_mem_utf8EncodeChar hmem (d := '\n') rfl (by decide)]
      rfl
    · intro h
      rw [Option.some.inj h, utf8_cons, utf8EncodeChar_lineFeed]
      rfl

theorem map_utf8_ahead (s : List Char) (lines : List (List Char)) :
    (ahead s lines).map utf8 = ahead (utf8 s) (lines.map utf8) := by
  cases lines with
  | nil => rfl
  | cons line others => simp [ahead, utf8]

/-- A text has the same lines in characters as in bytes. -/
theorem lines_utf8 (s : List Char) :
    lines 10 13 (utf8 s) = (lines '\n' '\r' s).map utf8 := by
  induction s with
  | nil => rfl
  | cons c s ih =>
    by_cases hlf : c = '\n'
    · rw [hlf, utf8_cons, utf8EncodeChar_lineFeed, List.singleton_append, lines_cons_self,
        lines_cons_self, ih, List.map_cons, utf8_nil]
    · by_cases hend : c = '\r' ∧ s.head? = some '\n'
      · rw [hend.1, utf8_cons, utf8EncodeChar_return, List.singleton_append,
          lines_cons_cr (by decide) ((head?_utf8_eq_iff s).mpr hend.2), ih,
          lines_cons_cr (by decide) hend.2]
      · have hc : utf8 [c] = String.utf8EncodeChar c := List.append_nil _
        rw [lines_cons hlf hend, map_utf8_ahead, ← ih, utf8_cons, hc]
        by_cases hcr : c = '\r'
        · rw [hcr, utf8EncodeChar_return, List.singleton_append, lines_cons (by decide)]
          intro h
          exact hend ⟨hcr, (head?_utf8_eq_iff s).mp h.2⟩
        · apply lines_append String.utf8EncodeChar_ne_nil
          · intro h
            exact hlf (eq_of_mem_utf8EncodeChar h (d := '\n') rfl (by decide))
          · intro h
            exact hcr (eq_of_mem_utf8EncodeChar h (d := '\r') rfl (by decide))

theorem fromUTF8?_utf8 (s : List Char) :
    String.fromUTF8? ⟨(utf8 s).toArray⟩ = some (String.ofList s) := by
  have hbytes : (⟨(utf8 s).toArray⟩ : ByteArray) = s.utf8Encode := by
    apply ByteArray.ext
    rw [List.utf8Encode, List.data_toByteArray]
    rfl
  rw [hbytes, String.fromUTF8?, dif_pos ByteArray.isValidUTF8_utf8Encode]
  congr 1

theorem toUTF8_eq_utf8 (s : String) : s.toUTF8.data.toList = utf8 s.toList := by
  rw [String.toUTF8_eq_toByteArray, ← String.utf8Encode_toList, List.utf8Encode,
    List.toList_data_toByteArray]
  rfl

theorem eq_utf8_of_fromUTF8? {bytes : List UInt8} {s : String}
    (h : String.fromUTF8? ⟨bytes.toArray⟩ = some s) : bytes = utf8 s.toList := by
  rw [← toUTF8_eq_utf8]
  unfold String.fromUTF8? at h
  split_ifs at h
  rw [← Option.some.inj h]
  rfl

end Bytes

end Rewind.Text
