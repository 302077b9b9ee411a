import Rewind.Maps.Reader
import Rewind.Proofs.Lines
import Rewind.Proofs.Numerals

/-! The lines of a memory map. A line describes a region if it is laid out in the columns of a map,
the numbers in them fit in words and the end is not below the start; exactly these lines are
read. -/
namespace Rewind.Maps

open Text.Numeral (Spells)

/-- A field in two parts around a separator. What a second separator sets off does not count. -/
structure Parted (separator : Char) (s first second : List Char) : Prop where
  whole : separator ∉ first
  cut : separator ∉ second
  text : ∃ rest, s = first ++ separator :: (second ++ rest) ∧
    (rest = [] ∨ rest.head? = some separator)

section Pair

variable {separator : Char} {s first second rest : List Char}

theorem takeWhile_of_cut (h : separator ∉ second)
    (hrest : rest = [] ∨ rest.head? = some separator) :
    (second ++ rest).takeWhile (· ≠ separator) = second := by
  cases rest with
  | nil =>
    rw [List.append_nil]
    exact List.takeWhile_eq_self_iff.mpr (Text.forall_ne_of_not_mem h)
  | cons c rest =>
    have hc : c = separator := by simpa using hrest
    rw [hc]
    exact Text.takeWhile_append_cons h rest

theorem pair_eq_ok_iff {defect : Defect} :
    pair separator defect s = .ok (first, second) ↔ Parted separator s first second := by
  unfold pair
  constructor
  · intro h
    rcases Text.not_mem_or_eq_append_cons separator s with hs | ⟨field, rest, rfl, hfield⟩
    · rw [List.dropWhile_eq_nil_iff.mpr (Text.forall_ne_of_not_mem hs)] at h
      cases h
    · rw [Text.dropWhile_append_cons hfield, Text.takeWhile_append_cons hfield] at h
      cases h
      refine ⟨hfield, ?_, rest.dropWhile (· ≠ separator), ?_, ?_⟩
      · intro hmem
        simpa using List.mem_takeWhile_imp hmem
      · rw [List.takeWhile_append_dropWhile]
      · cases hdrop : rest.dropWhile (· ≠ separator) with
        | nil => exact .inl rfl
        | cons c others =>
          have hc := Text.eq_false_of_head?_dropWhile (congrArg List.head? hdrop)
          rw [List.head?_cons, of_not_not (of_decide_eq_false hc)]
          exact .inr rfl
  · intro ⟨hfirst, hsecond, rest, htext, hrest⟩
    rw [htext, Text.dropWhile_append_cons hfirst, Text.takeWhile_append_cons hfirst]
    simp only [takeWhile_of_cut hsecond hrest]

end Pair

theorem number_eq_ok_iff {base : Nat} (hbase : 0 < base) {defect : Defect} {s : List Char}
    {w : UInt64} : number base defect s = .ok w ↔ Spells base s w.toNat := by
  have hread : ∀ n, Text.Numeral.read base (1 <<< 64) s = .ok n ↔ Spells base s n ∧ n < 1 <<< 64 :=
    fun n => Text.Numeral.read_eq_ok_iff hbase (by decide)
  unfold number
  constructor
  · intro h
    split at h
    · next n hn =>
      cases h
      obtain ⟨hspells, hlt⟩ := (hread n).mp hn
      rwa [UInt64.toNat_ofNat_of_lt' hlt]
    · cases h
  · intro h
    rw [(hread w.toNat).mpr ⟨h, w.toNat_lt⟩]
    simp

theorem orderedSpan_eq_ok_iff {start stop : UInt64} {span : Span} :
    orderedSpan start stop = .ok span ↔ start.toNat = span.start ∧ stop.toNat = span.stop := by
  unfold orderedSpan
  constructor
  · intro h
    split at h
    · cases h
      exact ⟨rfl, rfl⟩
    · cases h
  · intro ⟨hstart, hstop⟩
    have hle : start.toNat ≤ stop.toNat := by
      have := span.ordered
      omega
    rw [dif_pos hle]
    cases span
    simp_all

/-- A line in the columns of a map: five fields without spaces and a name that begins with none,
with a gap of spaces before it. -/
structure Cut (line : List Char) (c : Columns) : Prop where
  addresses : ' ' ∉ c.addresses
  permissions : ' ' ∉ c.permissions
  offset : ' ' ∉ c.offset
  device : ' ' ∉ c.device
  inode : ' ' ∉ c.inode
  name : c.name.head? ≠ some ' '
  text : ∃ gap, line = c.addresses ++ ' ' :: (c.permissions ++ ' ' :: (c.offset ++ ' ' ::
      (c.device ++ ' ' :: (c.inode ++ (List.replicate gap ' ' ++ c.name))))) ∧
    (gap = 0 → c.name = [])

theorem exists_gap (s : List Char) :
    ∃ gap, s = List.replicate gap ' ' ++ s.dropWhile (· == ' ') := by
  refine ⟨(s.takeWhile (· == ' ')).length, ?_⟩
  have hspaces : s.takeWhile (· == ' ') = List.replicate (s.takeWhile (· == ' ')).length ' ' :=
    List.eq_replicate_iff.mpr ⟨rfl, fun c hc => by simpa using List.mem_takeWhile_imp hc⟩
  rw [← hspaces, List.takeWhile_append_dropWhile]

theorem dropWhile_gap {name : List Char} (h : name.head? ≠ some ' ') (gap : Nat) :
    (List.replicate gap ' ' ++ name).dropWhile (· == ' ') = name := by
  rw [List.dropWhile_append_of_pos (by simp), List.dropWhile_beq_eq_self_of_head?_ne h]

theorem cut_of_columns {line : List Char} {c : Columns} (h : columns line = .ok c) :
    Cut line c := by
  unfold columns at h
  rcases Text.not_mem_or_eq_append_cons ' ' line with hs | ⟨addresses, s, rfl, haddresses⟩
  · rw [Text.fields_of_not_mem hs] at h
    cases h
  rw [Text.fields_append_cons haddresses] at h
  rcases Text.not_mem_or_eq_append_cons ' ' s with hs | ⟨permissions, s, rfl, hpermissions⟩
  · rw [Text.fields_of_not_mem hs] at h
    cases h
  rw [Text.fields_append_cons hpermissions] at h
  rcases Text.not_mem_or_eq_append_cons ' ' s with hs | ⟨offset, s, rfl, hoffset⟩
  · rw [Text.fields_of_not_mem hs] at h
    cases h
  rw [Text.fields_append_cons hoffset] at h
  rcases Text.not_mem_or_eq_append_cons ' ' s with hs | ⟨device, s, rfl, hdevice⟩
  · rw [Text.fields_of_not_mem hs] at h
    cases h
  rw [Text.fields_append_cons hdevice] at h
  rcases Text.not_mem_or_eq_append_cons ' ' s with hs | ⟨inode, s, rfl, hinode⟩
  · rw [Text.fields_of_not_mem hs] at h
    cases h
    exact ⟨haddresses, hpermissions, hoffset, hdevice, hs, by simp, 0, by simp, fun _ => rfl⟩
  · rw [Text.fields_append_cons hinode] at h
    cases h
    obtain ⟨gap, hgap⟩ := exists_gap s
    have hname : (s.dropWhile (· == ' ')).head? ≠ some ' ' := by
      intro hhead
      have hspace := Text.eq_false_of_head?_dropWhile hhead
      simp at hspace
    refine ⟨haddresses, hpermissions, hoffset, hdevice, hinode, hname, gap + 1, ?_, by simp⟩
    simp only [List.replicate_succ, List.cons_append, ← hgap]

theorem columns_of_cut {line : List Char} {c : Columns} (h : Cut line c) :
    columns line = .ok c := by
  obtain ⟨gap, hline, hgap⟩ := h.text
  rw [hline, columns, Text.fields_append_cons h.addresses, Text.fields_append_cons h.permissions,
    Text.fields_append_cons h.offset, Text.fields_append_cons h.device]
  cases gap with
  | zero =>
    have hname := hgap rfl
    rw [List.replicate_zero, List.nil_append, hname, List.append_nil,
      Text.fields_of_not_mem h.inode]
    cases c
    simp_all
  | succ gap =>
    rw [List.replicate_succ, List.cons_append, Text.fields_append_cons h.inode]
    simp only [Text.fields, dropWhile_gap h.name]

theorem columns_eq_ok_iff {line : List Char} {c : Columns} : columns line = .ok c ↔ Cut line c :=
  ⟨cut_of_columns, columns_of_cut⟩

/-- A line that describes a region, be it of whole pages or not. -/
inductive Describes (line : List Char) (e : Entry) : Prop
  | intro (c : Columns) (low high majorText minorText : List Char) (major minor : UInt64)
    (cut : Cut line c)
    (addresses : Parted '-' c.addresses low high)
    (parts : Parted ':' c.device majorText minorText)
    (start : Spells 16 low e.span.start)
    (stop : Spells 16 high e.span.stop)
    (offset : Spells 16 c.offset e.offset.toNat)
    (majorSpelled : Spells 16 majorText major.toNat)
    (minorSpelled : Spells 16 minorText minor.toNat)
    (inode : Spells 10 c.inode e.inode.toNat)
    (permissions : (String.ofList c.permissions).utf8ByteSize = 4)
    (rights : e.access = Access.ofRights (c.permissions.contains 'r') (c.permissions.contains 'w')
      (c.permissions.contains 'x'))
    (sharing : e.shared = decide (c.permissions.getLast? ≠ some 'p'))
    (device : e.device = Device.ofParts major.toNat minor.toNat)
    (backing : e.backing = Backing.ofName (String.ofList (unescape c.name)))

/-- Exactly the lines that describe a region are read, as what they describe. -/
theorem entry_eq_ok_iff {line : List Char} {e : Entry} :
    entry line = .ok e ↔ Describes line e := by
  unfold entry
  simp only [bind_eq_ok_iff, columns_eq_ok_iff, Prod.exists, pair_eq_ok_iff,
    number_eq_ok_iff (show 0 < 16 by decide), number_eq_ok_iff (show 0 < 10 by decide),
    orderedSpan_eq_ok_iff]
  constructor
  · intro ⟨c, cut, low, high, addresses, majorText, minorText, parts, start, hlow, stop, hhigh,
      span, ⟨hstart, hstop⟩, offset, hoffset, major, hmajor, minor, hminor, inode, hinode, h⟩
    by_cases permissions : (String.ofList c.permissions).utf8ByteSize = 4
    · rw [if_neg (not_not.mpr permissions)] at h
      cases h
      rw [hstart] at hlow
      rw [hstop] at hhigh
      exact .intro c low high majorText minorText major minor cut addresses parts hlow hhigh hoffset
        hmajor hminor hinode permissions rfl rfl rfl rfl
    · rw [if_pos permissions] at h
      cases h
  · intro ⟨c, low, high, majorText, minorText, major, minor, cut, addresses, parts, start, stop,
      offset, hmajor, hminor, inode, permissions, rights, sharing, device, backing⟩
    have hstop : (UInt64.ofNat e.span.stop).toNat = e.span.stop :=
      UInt64.toNat_ofNat_of_lt' e.span.bounded
    have hstart : (UInt64.ofNat e.span.start).toNat = e.span.start :=
      UInt64.toNat_ofNat_of_lt' (e.span.ordered.trans_lt e.span.bounded)
    refine ⟨c, cut, low, high, addresses, majorText, minorText, parts, _, hstart.symm ▸ start, _,
      hstop.symm ▸ stop, e.span, ⟨hstart, hstop⟩, e.offset, offset, major, hmajor, minor, hminor,
      e.inode, inode, ?_⟩
    rw [if_neg (not_not.mpr permissions), ← rights, ← sharing, ← device, ← backing]
    rfl

end Rewind.Maps
