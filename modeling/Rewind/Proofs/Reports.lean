import Rewind.Maps.File
import Rewind.Proofs.Entries

/-! What comes of reading a memory map. Every file is read to its end or up to the first line that
is neither white space nor the description of a region: that line is reported, unless it describes
pages that are not whole, on which the reader faults. -/
namespace Rewind

/-- A region as a line tells of it. -/
def Region.entry (r : Region) : Maps.Entry :=
  ⟨r.span, r.access, r.shared, r.offset, r.device, r.inode, r.backing⟩

namespace Maps

/-- Whole pages from a page of the file on, as a region has them. -/
structure Entry.Whole (e : Entry) : Prop where
  pages : Page.IsAligned e.span.size
  offset : Page.IsAligned e.offset.toNat

/-- The promise of a region that an entry breaks if it is not whole. -/
def Entry.promise (e : Entry) : Promise :=
  if Page.IsAligned e.span.size then .alignedOffset else .wholePages

theorem whole_entry (r : Region) : r.entry.Whole := ⟨r.wholePages, r.alignedOffset⟩

theorem region_entry (r : Region) : r.entry.region = .ok r := by
  have h := whole_entry r
  rw [Entry.region, Region.make, dif_pos h.pages, dif_pos h.offset]
  rfl

theorem Entry.Whole.exists_entry {e : Entry} (h : e.Whole) : ∃ r : Region, r.entry = e :=
  ⟨⟨e.span, e.access, e.shared, e.offset, e.device, e.inode, e.backing, h.pages, h.offset⟩, rfl⟩

theorem region_of_not_whole {e : Entry} (h : ¬e.Whole) : e.region = .error (.broken e.promise) := by
  rw [Entry.region, Region.make, Entry.promise]
  by_cases hpages : Page.IsAligned e.span.size
  · have hoffset : ¬Page.IsAligned e.offset.toNat := fun hoffset => h ⟨hpages, hoffset⟩
    rw [dif_pos hpages, dif_neg hoffset, if_pos hpages]
  · rw [dif_neg hpages, if_neg hpages]

/-- What a line adds to the regions: nothing if it is white space, else the region it describes. -/
inductive Reads : Option (List Char) → List Region → Prop
  | blank {line : List Char} : line.all Text.isBlank = true → Reads (some line) []
  | region {line : List Char} {r : Region} : Describes line r.entry → Reads (some line) [r]

theorem not_isBlank_of_mem {line : List Char} (h : '-' ∈ line) :
    ¬line.all Text.isBlank = true := by
  intro hall
  exact absurd (List.all_eq_true.mp hall '-' h) (by decide)

theorem not_isBlank_of_describes {line : List Char} {e : Entry} (h : Describes line e) :
    ¬line.all Text.isBlank = true := by
  obtain ⟨c, low, high, _, _, _, _, cut, addresses⟩ := h
  obtain ⟨gap, hline, _⟩ := cut.text
  obtain ⟨rest, haddresses, _⟩ := addresses.text
  exact not_isBlank_of_mem (by simp [hline, haddresses])

section Lines

variable {before : List (Option (List Char))} {outs : List (List Region)} {line : List Char}
  {e : Entry}

theorem readLines_of_describes (h : Describes line e) (rest : List (Option (List Char))) (n : Nat) :
    readLines n (some line :: rest) = (do
      let region ← Outcome.ofFaulty e.region
      let others ← readLines (n + 1) rest
      return region :: others) := by
  rw [readLines, if_neg (not_isBlank_of_describes h), entry_eq_ok_iff.mpr h]

theorem readLines_of_entry {r : Region} (h : Describes line r.entry)
    (rest : List (Option (List Char))) (n : Nat) :
    readLines n (some line :: rest) = (readLines (n + 1) rest).map (r :: ·) := by
  rw [readLines_of_describes h, region_entry]
  rfl

theorem readLines_of_not_whole (h : Describes line e) (hwhole : ¬e.Whole)
    (rest : List (Option (List Char))) (n : Nat) :
    readLines n (some line :: rest) = .error (.fault (.broken e.promise)) := by
  rw [readLines_of_describes h, region_of_not_whole hwhole]
  rfl

theorem readLines_of_not_describes (hblank : ¬line.all Text.isBlank = true)
    (h : ∀ e, ¬Describes line e) (rest : List (Option (List Char))) (n : Nat) :
    ∃ defect, readLines n (some line :: rest) =
      .error (.error (.line n defect (String.ofList line))) := by
  cases hentry : entry line with
  | ok e => exact absurd (entry_eq_ok_iff.mp hentry) (h e)
  | error defect =>
    refine ⟨defect, ?_⟩
    rw [readLines, if_neg hblank, hentry]

/-- Lines that are read add their regions and count. -/
theorem readLines_append (h : List.Forall₂ Reads before outs)
    (rest : List (Option (List Char))) (n : Nat) :
    readLines n (before ++ rest) =
      (readLines (n + before.length) rest).map (outs.flatten ++ ·) := by
  induction h generalizing n with
  | nil =>
    show readLines n rest = (readLines n rest).map id
    cases readLines n rest <;> rfl
  | @cons line out before outs hline _ ih =>
    have hcount : n + 1 + before.length = n + (line :: before).length := by
      rw [List.length_cons]
      omega
    cases hline with
    | blank hblank =>
      rw [List.cons_append, readLines, if_pos hblank, ih, hcount]
      rfl
    | region hdescribes =>
      rw [List.cons_append, readLines_of_entry hdescribes, ih, hcount]
      cases readLines _ rest <;> rfl

theorem readLines_of_forall (h : List.Forall₂ Reads before outs) (n : Nat) :
    readLines n before = .ok outs.flatten := by
  have hall := readLines_append h [] n
  rw [List.append_nil] at hall
  rw [hall, readLines, Except.map, List.append_nil]

/-- Either every line is read, or there is a first one that is not. -/
theorem forall_reads_or_first (lines : List (Option (List Char))) :
    (∃ outs, List.Forall₂ Reads lines outs) ∨
      ∃ before line after outs, lines = before ++ line :: after ∧
        List.Forall₂ Reads before outs ∧ ∀ out, ¬Reads line out := by
  induction lines with
  | nil => exact .inl ⟨[], .nil⟩
  | cons line lines ih =>
    by_cases hline : ∃ out, Reads line out
    · obtain ⟨out, hout⟩ := hline
      rcases ih with ⟨outs, houts⟩ | ⟨before, bad, after, outs, rfl, houts, hbad⟩
      · exact .inl ⟨out :: outs, .cons hout houts⟩
      · exact .inr ⟨line :: before, bad, after, out :: outs, rfl, .cons hout houts, hbad⟩
    · exact .inr ⟨[], line, lines, [], rfl, .nil, not_exists.mp hline⟩

end Lines

/-- The lines of a file, each decoded on its own; `none` stands for one that is no text. -/
def decoded (bytes : List UInt8) : List (Option (List Char)) :=
  (Text.lines 10 13 bytes).map fun line => (String.fromUTF8? ⟨line.toArray⟩).map String.toList

theorem decoded_utf8 (text : List Char) :
    decoded (Text.utf8 text) = (Text.lines '\n' '\r' text).map some := by
  rw [decoded, Text.lines_utf8, List.map_map]
  apply List.map_congr_left
  intro line _
  simp only [Function.comp_apply, Text.fromUTF8?_utf8, Option.map_some, String.toList_ofList]

theorem not_mem_of_mem_decoded {bytes : List UInt8} {line : List Char}
    (h : some line ∈ decoded bytes) : '\n' ∉ line := by
  obtain ⟨encoded, hencoded, hdecoded⟩ := List.mem_map.mp h
  obtain ⟨s, hs, rfl⟩ := Option.map_eq_some_iff.mp hdecoded
  have hbyte := Text.not_mem_of_mem_lines hencoded
  rw [Text.eq_utf8_of_fromUTF8? hs] at hbyte
  intro hmem
  apply hbyte
  rw [Text.utf8, List.mem_flatMap]
  exact ⟨'\n', hmem, by decide⟩

/-- How reading ends. The regions of the lines that are read do not survive a line that is not. -/
inductive Ends : List (Option (List Char)) → Outcome Failure (List Region) → Prop
  | all {lines : List (Option (List Char))} {outs : List (List Region)} :
    List.Forall₂ Reads lines outs → Ends lines (.ok outs.flatten)
  | undecodable {before after : List (Option (List Char))} {outs : List (List Region)} :
    List.Forall₂ Reads before outs →
    Ends (before ++ none :: after) (.error (.error (.io "stream did not contain valid UTF-8")))
  | defective {before after : List (Option (List Char))} {outs : List (List Region)}
    {line : List Char} (defect : Defect) : List.Forall₂ Reads before outs →
    ¬line.all Text.isBlank = true → (∀ e, ¬Describes line e) →
    Ends (before ++ some line :: after) (.error (.error (.catalog
      s!"line {before.length + 1}: {defect.text}: `{String.ofList line}'")))
  | uneven {before after : List (Option (List Char))} {outs : List (List Region)}
    {line : List Char} {e : Entry} : List.Forall₂ Reads before outs → Describes line e →
    ¬e.Whole → Ends (before ++ some line :: after) (.error (.fault (.broken e.promise)))

theorem readFound_content (path : String) (bytes : List UInt8) :
    readFound path (.content bytes) =
      (readLines 1 (decoded bytes)).mapError Error.failure := rfl

theorem ends_readLines (lines : List (Option (List Char))) :
    Ends lines ((readLines 1 lines).mapError Error.failure) := by
  rcases forall_reads_or_first lines with
    ⟨outs, houts⟩ | ⟨before, line, after, outs, rfl, houts, hbad⟩
  · rw [readLines_of_forall houts]
    exact .all houts
  · rw [readLines_append houts, Nat.add_comm]
    cases line with
    | none => exact .undecodable houts
    | some line =>
      have hblank : ¬line.all Text.isBlank = true := fun h => hbad [] (.blank h)
      by_cases hdescribes : ∃ e, Describes line e
      · obtain ⟨e, he⟩ := hdescribes
        have hwhole : ¬e.Whole := by
          intro h
          obtain ⟨r, rfl⟩ := h.exists_entry
          exact hbad [r] (.region he)
        rw [readLines_of_not_whole he hwhole]
        exact .uneven houts he hwhole
      · have hno := not_exists.mp hdescribes
        obtain ⟨defect, hdefect⟩ := readLines_of_not_describes hblank hno after (before.length + 1)
        rw [hdefect]
        exact .defective defect houts hblank hno

theorem exists_reads_of_ends {lines : List (Option (List Char))} {regions : List Region}
    (h : Ends lines (.ok regions)) :
    ∃ outs, List.Forall₂ Reads lines outs ∧ outs.flatten = regions := by
  generalize ho : (.ok regions : Outcome Failure (List Region)) = o at h
  cases h with
  | all houts => exact ⟨_, houts, (Except.ok.inj ho).symm⟩
  | undecodable => cases ho
  | defective => cases ho
  | uneven => cases ho

/-- A file on which the reader faults: the first line that adds no region describes one that is not
of whole pages. -/
def Uneven (lines : List (Option (List Char))) : Prop :=
  ∃ before line after outs e, lines = before ++ some line :: after ∧
    List.Forall₂ Reads before outs ∧ Describes line e ∧ ¬e.Whole

theorem uneven_of_ends {lines : List (Option (List Char))} {o : Outcome Failure (List Region)}
    {fault : Fault} (h : Ends lines o) (ho : o = .error (.fault fault)) : Uneven lines := by
  cases h with
  | all => cases ho
  | undecodable => cases ho
  | defective => cases ho
  | @uneven before after outs line e houts hdescribes hwhole =>
    exact ⟨before, line, after, outs, e, rfl, houts, hdescribes, hwhole⟩

/-- Reading a file ends in one of these ways, and with a fault exactly on uneven files. -/
theorem readFound_ends (path : String) (bytes : List UInt8) :
    Ends (decoded bytes) (readFound path (.content bytes)) ∧
    ((∃ fault, readFound path (.content bytes) = .error (.fault fault)) ↔
      Uneven (decoded bytes)) := by
  have hends : Ends (decoded bytes) (readFound path (.content bytes)) := by
    rw [readFound_content]
    exact ends_readLines _
  refine ⟨hends, fun ⟨fault, hfault⟩ => uneven_of_ends hends hfault, ?_⟩
  intro ⟨before, line, after, outs, e, hlines, houts, hdescribes, hwhole⟩
  refine ⟨.broken e.promise, ?_⟩
  rw [readFound_content, hlines, readLines_append houts, readLines_of_not_whole hdescribes hwhole]
  rfl

/-- The line of a region that is one byte long. -/
def oneByte : List Char := "10000000-10000001 rw-p 00000000 00:00 0".toList

theorem decoded_oneByte : decoded (Text.utf8 (oneByte ++ ['\n'])) = [some oneByte] := by
  have hlines : Text.lines '\n' '\r' (oneByte ++ ['\n']) = [oneByte] := by decide
  rw [decoded_utf8, hlines]
  rfl

theorem describes_oneByte : Describes oneByte
    ⟨⟨0x10000000, 0x10000001, by decide, by decide⟩, .readWrite, false, 0, .none, 0,
      .anonymous⟩ :=
  entry_eq_ok_iff.mp rfl

theorem readFound_ends_oneByte :
    ∃ fault, readFound "maps" (.content (Text.utf8 (oneByte ++ ['\n']))) =
      .error (.fault fault) := by
  apply (readFound_ends "maps" (Text.utf8 (oneByte ++ ['\n']))).2.mpr
  refine ⟨[], oneByte, [], [], _, decoded_oneByte, .nil, describes_oneByte, ?_⟩
  intro hwhole
  exact absurd hwhole.pages (by decide)

end Maps
end Rewind
