import Rewind.Proofs.Escapes
import Rewind.Proofs.Reports

/-! Regions printed as the lines of a memory map and read back. Every column is read as it was
printed, except that a start of fewer than eight digits is printed behind spaces, and the reader
takes a space for the end of a field. -/
namespace Rewind

namespace Device

variable (d : Device)

/-- Taking a device number apart and putting the parts together is the identity. -/
theorem ofParts_major_minor : ofParts d.major d.minor = d := by
  obtain ⟨number⟩ := d
  have hlt : number.toNat < 2 ^ 64 := number.toNat_lt
  have hnumber : UInt64.ofNat number.toNat = number := UInt64.ofNat_toNat
  simp only [ofParts, major, minor, Nat.shiftRight_eq_div_pow, Nat.shiftLeft_eq] at *
  rw [mk.injEq]
  conv_rhs => rw [← hnumber]
  congr 1
  omega

theorem major_lt : d.major < 2 ^ 64 := by
  simp only [major, Nat.shiftRight_eq_div_pow, Nat.shiftLeft_eq]
  omega

theorem minor_lt : d.minor < 2 ^ 64 := by
  simp only [minor, Nat.shiftRight_eq_div_pow, Nat.shiftLeft_eq]
  omega

end Device

theorem Backing.name_ofName (name : String) : (Backing.ofName name).name = name := by
  unfold ofName
  split_ifs with hempty hkernel
  · exact (String.isEmpty_iff.mp hempty).symm
  · rfl
  · rfl

namespace Text

open Numeral

/-- The digits of a number, filled up from the left to a width. -/
def padded (width : Nat) (fill : Char) (n : Nat) : List Char :=
  List.replicate (width - (Nat.toDigits 16 n).length) fill ++ Nat.toDigits 16 n

theorem toList_padLeft_hexDigits (width : Nat) (fill : Char) (n : Nat) :
    (padLeft width fill (hexDigits n)).toList = padded width fill n := by
  simp [padLeft, hexDigits, padded]

theorem figures_padded (width n : Nat) : Figures 16 (padded width '0' n) n :=
  (figures_toDigits (by decide) (by decide) n).zeros (by decide) _

theorem not_mem_padded {c fill : Char} (hc : digitValue c = none) (hfill : c ≠ fill)
    (width n : Nat) : c ∉ padded width fill n := by
  have hdigits : c ∉ Nat.toDigits 16 n := not_mem_toDigits (by decide) (by decide) hc n
  simp [padded, hdigits, hfill]

theorem eight_le_length_iff (n : Nat) :
    8 ≤ (Nat.toDigits 16 n).length ↔ 0x10000000 ≤ n := by
  have h := Nat.length_toDigits_le_iff (b := 16) (k := 7) (n := n) (by decide) (by decide)
  omega

theorem padded_of_le {fill : Char} {n : Nat} (h : 0x10000000 ≤ n) :
    padded 8 fill n = Nat.toDigits 16 n := by
  have hlength := (eight_le_length_iff n).mpr h
  rw [padded, Nat.sub_eq_zero_of_le hlength, List.replicate_zero, List.nil_append]

theorem padded_of_lt (fill : Char) {n : Nat} (h : n < 0x10000000) :
    ∃ rest, padded 8 fill n = fill :: rest := by
  have hlength := mt (eight_le_length_iff n).mp (by omega)
  have hpos : 8 - (Nat.toDigits 16 n).length = (7 - (Nat.toDigits 16 n).length) + 1 := by omega
  exact ⟨_, by rw [padded, hpos, List.replicate_succ, List.cons_append]⟩

end Text

namespace Maps

/-- A space in front leaves the first field empty. -/
theorem entry_of_space {line : List Char} (h : 4 ≤ line.count ' ') :
    entry (' ' :: line) = .error .missingEnd := by
  have hlength : (Text.fields ' ' 5 line).length = 5 := by
    rw [Text.length_fields]
    omega
  have hfields : Text.fields ' ' 6 (' ' :: line) = [] :: Text.fields ' ' 5 line :=
    Text.fields_append_cons List.not_mem_nil 4 line
  have hcolumns : ∃ c, columns (' ' :: line) = .ok c ∧ c.addresses = [] := by
    rw [columns, hfields]
    generalize Text.fields ' ' 5 line = others at hlength
    rcases others with _ | ⟨_, _ | ⟨_, _ | ⟨_, _ | ⟨_, _ | ⟨_, _ | ⟨_, _⟩⟩⟩⟩⟩⟩
    case cons.cons.cons.cons.cons.nil => exact ⟨_, rfl, rfl⟩
    all_goals simp at hlength
  obtain ⟨c, hc, haddresses⟩ := hcolumns
  rw [entry, hc]
  show (pair '-' .missingEnd c.addresses >>= _) = _
  rw [haddresses]
  rfl

end Maps

namespace Region

open Maps Text
open Text.Numeral (figures_toDigits not_mem_toDigits)

variable {r : Region}

/-- A file name as the last column of a map can tell it. -/
structure Legible (name : List Char) : Prop where
  onLine : '\n' ∉ name
  plain : ¬lineFeed <:+: name
  first : name.head? ≠ some ' '
  last : name.getLast? ≠ some '\r'

/-- A region with no more than the three rights, backed by something with a legible name. -/
structure Printable (r : Region) : Prop where
  access : ∃ read write execute, r.access = Access.ofRights read write execute
  backing : ∃ name, r.backing = Backing.ofName name ∧ Legible name.toList

theorem Printable.legible (h : r.Printable) : Legible r.backing.name.toList := by
  obtain ⟨name, hname, hlegible⟩ := h.backing
  rwa [hname, Backing.name_ofName]

theorem Printable.ofName (h : r.Printable) : r.backing = Backing.ofName r.backing.name := by
  obtain ⟨name, hname, _⟩ := h.backing
  rw [hname, Backing.name_ofName]

/-- The columns of a region's line. -/
def printed (r : Region) : Columns where
  addresses := padded 8 ' ' r.start ++ '-' :: padded 8 ' ' r.stop
  permissions := r.permissions.toList
  offset := padded 8 '0' r.offset.toNat
  device := padded 2 '0' r.device.major ++ ':' :: padded 2 '0' r.device.minor
  inode := Nat.toDigits 10 r.inode.toNat
  name := r.backing.name.toList

theorem toList_columns (r : Region) :
    ∃ gap, r.columns.toList = r.printed.addresses ++ ' ' :: (r.printed.permissions ++ ' ' ::
      (r.printed.offset ++ ' ' :: (r.printed.device ++ ' ' :: (r.printed.inode ++
      List.replicate (gap + 1) ' ')))) := by
  refine ⟨10 - (Nat.toDigits 10 r.inode.toNat).length, ?_⟩
  have htext : ∀ s : String, toString s = s := fun _ => rfl
  have hinode : (padRight 10 ' ' r.inode.toNat.repr).toList = Nat.toDigits 10 r.inode.toNat ++
      List.replicate (10 - (Nat.toDigits 10 r.inode.toNat).length) ' ' := by
    simp [padRight, Nat.repr]
  simp [columns, printed, htext, toList_padLeft_hexDigits, hinode, List.replicate_succ']

theorem toList_line (r : Region) :
    ∃ gap, r.line.toList = r.printed.addresses ++ ' ' :: (r.printed.permissions ++ ' ' ::
      (r.printed.offset ++ ' ' :: (r.printed.device ++ ' ' :: (r.printed.inode ++
      (List.replicate (gap + 1) ' ' ++ r.printed.name))))) := by
  obtain ⟨gap, hgap⟩ := r.toList_columns
  exact ⟨gap, by simp [line, hgap, printed]⟩

theorem toList_permissions (r : Region) :
    r.permissions.toList = [if r.access.readable then 'r' else '-',
      if r.access.writable then 'w' else '-', if r.access.executable then 'x' else '-',
      if r.shared then 's' else 'p'] := by
  cases h : r.shared <;> simp [permissions, Access.letters, h]

theorem not_mem_permissions {c : Char} (hc : c ∉ ['r', 'w', 'x', '-', 's', 'p']) :
    c ∉ r.permissions.toList := by
  simp only [List.mem_cons, List.not_mem_nil, or_false, not_or] at hc
  obtain ⟨hread, hwrite, hexecute, hdash, hshared, hprivate⟩ := hc
  have hletter : ∀ {set : Bool} {d e : Char}, c ≠ d → c ≠ e → c ≠ if set then d else e := by
    intro set d e hd he
    cases set
    · exact he
    · exact hd
  simp only [toList_permissions, List.mem_cons, List.not_mem_nil, or_false, not_or]
  exact ⟨hletter hread hdash, hletter hwrite hdash, hletter hexecute hdash,
    hletter hshared hprivate⟩

/-- Addresses of eight digits and more are printed as they are. -/
theorem addresses_printed (hstart : 0x10000000 ≤ r.start) :
    r.printed.addresses = Nat.toDigits 16 r.start ++ '-' :: Nat.toDigits 16 r.stop := by
  have hstop : 0x10000000 ≤ r.stop := hstart.trans r.span.ordered
  rw [printed, padded_of_le hstart, padded_of_le hstop]

theorem parted_addresses (hstart : 0x10000000 ≤ r.start) :
    Parted '-' r.printed.addresses (Nat.toDigits 16 r.start) (Nat.toDigits 16 r.stop) where
  whole := not_mem_toDigits (by decide) (by decide) (by decide) _
  cut := not_mem_toDigits (by decide) (by decide) (by decide) _
  text := ⟨[], by rw [addresses_printed hstart, List.append_nil], .inl rfl⟩

theorem parted_device (r : Region) :
    Parted ':' r.printed.device (padded 2 '0' r.device.major) (padded 2 '0' r.device.minor) where
  whole := not_mem_padded (by decide) (by decide) _ _
  cut := not_mem_padded (by decide) (by decide) _ _
  text := ⟨[], by rw [printed, List.append_nil], .inl rfl⟩

theorem cut_line (hstart : 0x10000000 ≤ r.start) (hname : r.backing.name.toList.head? ≠ some ' ') :
    Cut r.line.toList r.printed where
  addresses := by
    have hspace : ∀ n, ' ' ∉ Nat.toDigits 16 n :=
      not_mem_toDigits (by decide) (by decide) (by decide)
    simp [addresses_printed hstart, hspace]
  permissions := by
    simp only [printed]
    exact not_mem_permissions (by decide)
  offset := not_mem_padded (by decide) (by decide) _ _
  device := by
    have hpart : ∀ n, ' ' ∉ padded 2 '0' n := not_mem_padded (by decide) (by decide) 2
    simp [printed, hpart]
  inode := not_mem_toDigits (by decide) (by decide) (by decide) _
  name := hname
  text := by
    obtain ⟨gap, hgap⟩ := r.toList_line
    exact ⟨gap + 1, hgap, by simp⟩

theorem utf8ByteSize_permissions (r : Region) : r.permissions.utf8ByteSize = 4 := by
  rw [← String.ofList_toList (s := r.permissions), toList_permissions]
  split_ifs <;> decide

theorem access_entry (h : r.Printable) :
    r.entry.access = Access.ofRights (r.printed.permissions.contains 'r')
      (r.printed.permissions.contains 'w') (r.printed.permissions.contains 'x') := by
  obtain ⟨read, write, execute, haccess⟩ := h.access
  simp only [entry, printed, toList_permissions, haccess, Access.readable_ofRights,
    Access.writable_ofRights, Access.executable_ofRights]
  cases read <;> cases write <;> cases execute <;> cases r.shared <;> decide

theorem shared_entry (r : Region) :
    r.entry.shared = decide (r.printed.permissions.getLast? ≠ some 'p') := by
  simp only [entry, printed, toList_permissions]
  cases r.shared <;> simp

/-- The line of a region whose start has eight digits describes it. -/
theorem describes_line (h : r.Printable) (hstart : 0x10000000 ≤ r.start) :
    Describes r.line.toList r.entry := by
  have hmajor : (UInt64.ofNat r.device.major).toNat = r.device.major :=
    UInt64.toNat_ofNat_of_lt' r.device.major_lt
  have hminor : (UInt64.ofNat r.device.minor).toNat = r.device.minor :=
    UInt64.toNat_ofNat_of_lt' r.device.minor_lt
  apply Describes.intro r.printed _ _ _ _ (.ofNat r.device.major) (.ofNat r.device.minor)
    (cut_line hstart h.legible.first) (parted_addresses hstart) r.parted_device
  case start => exact .plain (figures_toDigits (by decide) (by decide) _)
  case stop => exact .plain (figures_toDigits (by decide) (by decide) _)
  case offset => exact .plain (figures_padded 8 _)
  case majorSpelled => exact .plain (hmajor.symm ▸ figures_padded 2 _)
  case minorSpelled => exact .plain (hminor.symm ▸ figures_padded 2 _)
  case inode => exact .plain (figures_toDigits (by decide) (by decide) _)
  case permissions =>
    rw [printed, String.ofList_toList]
    exact r.utf8ByteSize_permissions
  case rights => exact access_entry h
  case sharing => exact r.shared_entry
  case device => rw [hmajor, hminor, Device.ofParts_major_minor]; rfl
  case backing =>
    show r.backing = _
    rw [printed, unescape_eq_self h.legible.plain, String.ofList_toList]
    exact h.ofName

/-- The line of a region whose start has fewer digits begins with a space. -/
theorem line_of_lt (hstart : r.start < 0x10000000) :
    ∃ line, r.line.toList = ' ' :: line ∧ 4 ≤ line.count ' ' := by
  obtain ⟨gap, hgap⟩ := r.toList_line
  obtain ⟨low, hlow⟩ := padded_of_lt ' ' hstart
  refine ⟨_, by rw [hgap, printed, hlow]; rfl, ?_⟩
  simp only [List.append_eq, List.count_append, List.count_cons_self]
  omega

theorem readLines_line_of_lt (hstart : r.start < 0x10000000) (rest : List (Option (List Char)))
    (n : Nat) : readLines n (some r.line.toList :: rest) =
      .error (.error (.line n .missingEnd r.line)) := by
  obtain ⟨line, hline, hcount⟩ := line_of_lt hstart
  have hdash : '-' ∈ r.line.toList := by
    obtain ⟨gap, hgap⟩ := r.toList_line
    simp [hgap, printed]
  rw [readLines, if_neg (not_isBlank_of_mem hdash), hline, entry_of_space hcount, ← hline,
    String.ofList_toList]

theorem not_mem_columns (r : Region) : '\n' ∉ r.columns.toList := by
  obtain ⟨gap, hgap⟩ := r.toList_columns
  have haddress : ∀ n, '\n' ∉ padded 8 ' ' n := not_mem_padded (by decide) (by decide) 8
  have hzeros : ∀ width n, '\n' ∉ padded width '0' n := not_mem_padded (by decide) (by decide)
  have hpermissions : '\n' ∉ r.permissions.toList := not_mem_permissions (by decide)
  have hinode : '\n' ∉ Nat.toDigits 10 r.inode.toNat :=
    not_mem_toDigits (by decide) (by decide) (by decide) _
  simp [hgap, printed, haddress, hzeros, hpermissions, hinode]

theorem not_mem_line (h : r.Printable) : '\n' ∉ r.line.toList := by
  rw [line, String.toList_append, List.mem_append, not_or]
  exact ⟨r.not_mem_columns, h.legible.onLine⟩

theorem getLast?_line (h : r.Printable) : r.line.toList.getLast? ≠ some '\r' := by
  have hline : r.line.toList = r.columns.toList ++ r.backing.name.toList := by simp [line]
  obtain ⟨columns, hcolumns⟩ : ∃ columns, r.columns.toList = columns ++ [' '] :=
    ⟨_, by simp only [Region.columns, String.toList_append]; rfl⟩
  rw [hline, hcolumns, List.append_assoc, List.singleton_append, List.getLast?_append_cons,
    List.getLast?_cons]
  cases hlast : r.backing.name.toList.getLast? with
  | none => decide
  | some c => simpa [hlast] using h.legible.last

end Region

namespace Maps

variable {rs : List Region}

/-- A memory map: one line for each region. -/
def print (rs : List Region) : String := String.join (rs.map fun r => r.line ++ "\n")

theorem toList_print (rs : List Region) :
    (print rs).toList = rs.flatMap fun r => r.line.toList ++ ['\n'] := by
  simp [print, List.flatMap_def, Function.comp_def]

theorem lines_print (h : ∀ r ∈ rs, r.Printable) :
    Text.lines '\n' '\r' (print rs).toList = rs.map fun r => r.line.toList := by
  rw [toList_print]
  induction rs with
  | nil => rfl
  | cons r rs ih =>
    obtain ⟨hr, hrs⟩ := List.forall_mem_cons.mp h
    rw [List.flatMap_cons, List.append_assoc, List.singleton_append,
      Text.lines_append_cons (Region.not_mem_line hr) (Region.getLast?_line hr), ih hrs,
      List.map_cons]

theorem readFound_print (path : String) (h : ∀ r ∈ rs, r.Printable) :
    readFound path (.content (print rs).toUTF8.data.toList) =
      (readLines 1 (rs.map fun r => some r.line.toList)).mapError Error.failure := by
  rw [readFound_content, Text.toUTF8_eq_utf8, decoded_utf8, lines_print h, List.map_map]
  rfl

theorem reads_lines (h : ∀ r ∈ rs, r.Printable) (hstart : ∀ r ∈ rs, 0x10000000 ≤ r.start) :
    List.Forall₂ Reads (rs.map fun r => some r.line.toList) (rs.map fun r => [r]) := by
  rw [List.forall₂_map_left_iff, List.forall₂_map_right_iff, List.forall₂_same]
  intro r hr
  exact .region (Region.describes_line (h r hr) (hstart r hr))

/-- Maps of regions whose starts have eight digits are read back as they were; else the first start
of fewer digits is reported as a line without an end address. -/
theorem readFound_of_printable (path : String) (h : ∀ r ∈ rs, r.Printable) :
    ((∀ r ∈ rs, 0x10000000 ≤ r.start) →
      readFound path (.content (print rs).toUTF8.data.toList) = .ok rs) ∧
    (∀ (before after : List Region) (r : Region), rs = before ++ r :: after →
      (∀ q ∈ before, 0x10000000 ≤ q.start) → r.start < 0x10000000 →
      readFound path (.content (print rs).toUTF8.data.toList) = .error (.error (.catalog
        s!"line {before.length + 1}: {Defect.missingEnd.text}: `{r.line}'"))) ∧
    ∀ d : Device, Device.ofParts d.major d.minor = d := by
  rw [readFound_print path h]
  refine ⟨?_, ?_, Device.ofParts_major_minor⟩
  · intro hstart
    rw [readLines_of_forall (reads_lines h hstart)]
    simp [Outcome.mapError, ← List.flatMap_def]
  · intro before after r hrs hbefore hstart
    have hreads := reads_lines (fun q hq => h q (by simp [hrs, hq])) hbefore
    rw [hrs, List.map_append, readLines_append hreads, List.map_cons,
      Region.readLines_line_of_lt hstart, List.length_map, Nat.add_comm]
    rfl

/-- A page of a shared library, mapped high up. -/
def highPage : Region :=
  ⟨⟨0x7f2b1c000000, 0x7f2b1c001000, by decide, by decide⟩, .readWrite, false, 0x2a000, ⟨0x801⟩, 77,
    .file "/usr/lib/libc.so 6", by decide, by decide⟩

/-- A page of a program, mapped low. -/
def lowPage : Region :=
  ⟨⟨0x400000, 0x401000, by decide, by decide⟩, .ofRights true false true, false, 0x2b000, ⟨0x801⟩,
    78, .file "/usr/bin/ls", by decide, by decide⟩

theorem printable_pages : ∀ r ∈ [highPage, lowPage], r.Printable := by
  intro r hr
  rcases List.mem_pair.mp hr with rfl | rfl
  · exact ⟨⟨true, true, false, rfl⟩, "/usr/lib/libc.so 6", rfl, by decide, by decide, by decide,
      by decide⟩
  · exact ⟨⟨true, false, true, rfl⟩, "/usr/bin/ls", rfl, by decide, by decide, by decide, by decide⟩

theorem readFound_of_printable_pages :
    readFound "maps" (.content (print [highPage]).toUTF8.data.toList) = .ok [highPage] ∧
    readFound "maps" (.content (print [highPage, lowPage]).toUTF8.data.toList) =
      .error (.error (.catalog s!"line 2: missing end address: `{lowPage.line}'")) := by
  have hhigh : ∀ r ∈ [highPage], 0x10000000 ≤ r.start := by decide
  constructor
  · have hprintable : ∀ r ∈ [highPage], r.Printable :=
      fun r hr => printable_pages r (List.mem_append_left [lowPage] hr)
    exact (readFound_of_printable "maps" hprintable).1 hhigh
  · exact (readFound_of_printable "maps" printable_pages).2.1 [highPage] [] lowPage rfl hhigh
      (by decide)

end Maps

end Rewind
