import Rewind.Word

/-!
The last words of a process whose monitor cannot go on. They are put together in buffers on the
stack, since nothing may be allocated any more: digits from the right, and the message cut where
its buffer ends. Every write is checked, and `decimal` and `lastWords` rest on the proofs that no
check fails.
-/
namespace Rewind.Monitor

/-- Bytes on the stack. -/
abbrev Buffer (size : Nat) := Vector UInt8 size

/-- A digit as it is written. -/
def digit (d : Nat) : UInt8 := UInt8.ofNat (48 + d)

/-- The digits of a number as bytes, the first digit first. -/
def figures (n : Nat) : List UInt8 := (Nat.toDigits 10 n).map fun c => UInt8.ofNat c.toNat

section Buffers

variable {size index length n : Nat}

/-- Write a byte at an index, which has to be inside. -/
def put (buffer : Buffer size) (index : Nat) (b : UInt8) : Except Fault (Buffer size) :=
  if h : index < size then .ok (buffer.set index b) else .error (.outOfBounds size index)

/-- Write the digits of a number below an index, the last digit first. The index of the first digit
comes back with the buffer. -/
def writeDigits (buffer : Buffer size) (index n : Nat) : Except Fault (Buffer size × Nat) := do
  let index ← Word.sub index 1
  let buffer ← put buffer index (digit (n % 10))
  if n / 10 = 0 then return (buffer, index)
  else writeDigits buffer index (n / 10)
termination_by n

/-- Copy bytes behind the first `length` of a buffer, as many as it has room for. -/
def copyInto (buffer : Buffer size) (length : Nat) : List UInt8 → Except Fault (Buffer size × Nat)
  | [] => return (buffer, length)
  | b :: bs =>
    if length = size then return (buffer, length)
    else do
      let buffer ← put buffer length b
      let length ← Word.add length 1
      copyInto buffer length bs

theorem put_of_lt (h : index < size) (buffer : Buffer size) (b : UInt8) :
    put buffer index b = .ok (buffer.set index b) := by simp [put, h]

theorem digitChar_toNat (h : n < 10) : (Nat.digitChar n).toNat = 48 + n := by
  match n with
  | 0 | 1 | 2 | 3 | 4 | 5 | 6 | 7 | 8 | 9 => rfl

theorem figures_of_lt (h : n < 10) : figures n = [digit n] := by
  simp [figures, Nat.toDigits_of_lt_base h, digitChar_toNat h, digit]

theorem figures_of_le (h : 10 ≤ n) : figures n = figures (n / 10) ++ [digit (n % 10)] := by
  have hlast : n % 10 < 10 := Nat.mod_lt n (by decide)
  rw [figures, Nat.toDigits_eq_if (by decide), if_neg (by omega)]
  simp [figures, digitChar_toNat hlast, digit]

theorem figures_ne_nil (n : Nat) : figures n ≠ [] := by
  rcases Nat.lt_or_ge n 10 with h | h
  · simp [figures_of_lt h]
  · simp [figures_of_le h]

theorem length_figures_le (n : UInt32) : (figures n.toNat).length ≤ 10 := by
  have hn : n.toNat < 10 ^ 10 := Nat.lt_trans n.toNat_lt (by decide)
  rw [figures, List.length_map]
  exact (Nat.length_toDigits_le_iff (by decide) (by decide)).mpr hn

/-- One turn of writing digits, where there is a place left for it. -/
theorem writeDigits_succ (h : index < size) (buffer : Buffer size) (n : Nat) :
    writeDigits buffer (index + 1) n =
      if n / 10 = 0 then .ok (buffer.set index (digit (n % 10)), index)
      else writeDigits (buffer.set index (digit (n % 10))) index (n / 10) := by
  have hsub : Word.sub (index + 1) 1 = .ok index := Word.sub_eq_ok_iff.mpr (by omega)
  rw [writeDigits, hsub]
  simp only [bind, Except.bind, put_of_lt h]
  rfl

theorem drop_set_self (h : index < size) (buffer : Buffer size) (b : UInt8) :
    (buffer.set index b).toList.drop index = b :: buffer.toList.drop (index + 1) := by
  have hlength : index < (buffer.toList.set index b).length := by simpa using h
  rw [Vector.toList_set, List.drop_eq_getElem_cons hlength, List.getElem_set_self,
    List.drop_set_of_lt (Nat.lt_succ_self index)]

theorem take_set_succ (h : index < size) (buffer : Buffer size) (b : UInt8) :
    (buffer.set index b).toList.take (index + 1) = buffer.toList.take index ++ [b] := by
  have hlength : index < (buffer.toList.set index b).length := by simpa using h
  rw [Vector.toList_set, List.take_succ_eq_append_getElem hlength, List.getElem_set_self,
    List.take_set_of_le (Nat.le_refl index)]

/-- The digits stand in front of what stood at the index, if there are places for them all. -/
theorem writeDigits_spec (buffer : Buffer size) (hroom : index ≤ size)
    (hplaces : (figures n).length ≤ index) :
    ∃ buffer' first, writeDigits buffer index n = .ok (buffer', first) ∧
      first + (figures n).length = index ∧
      buffer'.toList.drop first = figures n ++ buffer.toList.drop index := by
  induction index generalizing buffer n with
  | zero => exact absurd (List.eq_nil_of_length_eq_zero (Nat.le_zero.mp hplaces)) (figures_ne_nil n)
  | succ index ih =>
    rw [writeDigits_succ hroom]
    split
    · next hlast =>
      have hdigit : n < 10 := by omega
      rw [figures_of_lt hdigit, Nat.mod_eq_of_lt hdigit]
      exact ⟨_, index, rfl, rfl, drop_set_self hroom buffer (digit n)⟩
    · next hmore =>
      -- The digits before the last one have all places but the one that is now written.
      rw [figures_of_le (show 10 ≤ n by omega), List.length_append] at *
      obtain ⟨buffer', first, hwrite, hfirst, hdrop⟩ :=
        ih _ (Nat.le_of_lt hroom) (Nat.le_of_succ_le_succ hplaces)
      refine ⟨buffer', first, hwrite, ?_, ?_⟩
      · rw [← hfirst]
        rfl
      · rw [hdrop, drop_set_self hroom]
        simp

/-- What is in the buffer afterwards is what fits of all bytes one behind another. -/
theorem copyInto_spec (buffer : Buffer size) (bytes : List UInt8) (hlength : length ≤ size)
    (hsize : size < Word.limit) :
    ∃ buffer' length', copyInto buffer length bytes = .ok (buffer', length') ∧
      buffer'.toList.take length' = (buffer.toList.take length ++ bytes).take size := by
  induction bytes generalizing buffer length with
  | nil =>
    refine ⟨buffer, length, rfl, ?_⟩
    rw [List.append_nil, List.take_take, Nat.min_eq_right hlength]
  | cons b bs ih =>
    rw [copyInto]
    split
    · next hfull =>
      subst hfull
      exact ⟨buffer, length, rfl, by simp⟩
    · next hroom =>
      have hlt : length < size := by omega
      have hadd : Word.add length 1 = .ok (length + 1) := Word.add_eq_ok_iff.mpr ⟨by omega, rfl⟩
      obtain ⟨buffer', length', hcopy, htake⟩ := ih (buffer.set length b) hlt
      refine ⟨buffer', length', ?_, ?_⟩
      · simp only [bind, Except.bind, put_of_lt hlt, hadd, hcopy]
      · rw [htake, take_set_succ hlt]
        simp

end Buffers

/-- The digits of a number, written to the end of a buffer. -/
def writeDecimal (buffer : Buffer 10) (n : UInt32) : Except Fault (List UInt8) := do
  let (buffer, first) ← writeDigits buffer 10 n.toNat
  return buffer.toList.drop first

/-- Ten places are enough, and what was in the buffer before does not matter. -/
theorem writeDecimal_eq (buffer : Buffer 10) (n : UInt32) :
    writeDecimal buffer n = .ok (figures n.toNat) := by
  obtain ⟨buffer', first, hwrite, -, hdrop⟩ :=
    writeDigits_spec buffer (Nat.le_refl 10) (length_figures_le n)
  have hend : buffer.toList.drop 10 = [] := List.drop_eq_nil_of_le (by simp)
  rw [writeDecimal, hwrite]
  simp only [bind, Except.bind, hdrop, hend, List.append_nil]
  rfl

def decimal (n : UInt32) : List UInt8 :=
  assured (writeDecimal (.replicate 10 0) n) ⟨_, writeDecimal_eq _ n⟩

def roomForWords : Nat := 160

def wordsBefore : List UInt8 := "snapbench: protection monitor: ".toUTF8.toList
def wordsBetween : List UInt8 := " failed: errno ".toUTF8.toList
def wordsAfter : List UInt8 := "\n".toUTF8.toList

/-- Put together what is written about a request that failed with an error number. -/
def compose (what : List UInt8) (code : UInt32) : Except Fault (List UInt8) := do
  let digits ← writeDecimal (.replicate 10 0) code
  let parts := [wordsBefore, what, wordsBetween, digits, wordsAfter]
  let (buffer, length) ← copyInto (Vector.replicate roomForWords 0) 0 parts.flatten
  return buffer.toList.take length

theorem compose_eq (what : List UInt8) (code : UInt32) :
    compose what code = .ok ((wordsBefore ++ what ++ wordsBetween ++ figures code.toNat ++
      wordsAfter).take roomForWords) := by
  obtain ⟨buffer, length, hcopy, htake⟩ :=
    copyInto_spec (Vector.replicate roomForWords 0)
      [wordsBefore, what, wordsBetween, figures code.toNat, wordsAfter].flatten
      (Nat.zero_le roomForWords) (by decide)
  rw [compose, writeDecimal_eq]
  simp only [bind, Except.bind, hcopy, htake, pure, Except.pure]
  simp

/-- What is written about a request that failed with an error number. -/
def lastWords (what : List UInt8) (code : UInt32) : List UInt8 :=
  assured (compose what code) ⟨_, compose_eq what code⟩

end Rewind.Monitor
