import Rewind.CommandLine.Listings
import Rewind.Proofs.Concatenation
import Rewind.Proofs.Documents
import Rewind.Proofs.Selection

/-! Listings of an address space as text and as a document. Both tell the same pieces in the same
order. In the text a piece takes up one line and as many more as its name has line feeds, since
names are printed as they are; the document escapes them. -/
namespace Rewind

namespace Policy

variable {p : Policy} {r : Region}

/-- The policy cuts through no region. -/
def LeavesWhole (p : Policy) : Prop := ∀ e ∈ p.exclusions, ∀ s, ¬e.Meets s

/-- The verdict on a region that is not cut. -/
def wholeVerdict (p : Policy) (r : Region) : Verdict :=
  if r.isPseudo then .pseudo
  else if r.access.isNone then .noAccess
  else match p.wholeReason r.span with
    | some reason => .excluded reason
    | none => .monitored

theorem classifyRegion_of_leavesWhole (h : p.LeavesWhole) (r : Region) :
    p.classifyRegion r = .ok [(r, p.wholeVerdict r)] := by
  have hpieces : p.pieces r.span = [(r.span, .monitored)] :=
    pieces_of_uniform (.monitored fun e he => h e he r.span)
  unfold classifyRegion wholeVerdict
  split_ifs
  · rfl
  · rfl
  · cases p.wholeReason r.span with
    | some reason => rfl
    | none =>
      dsimp only
      rw [hpieces, List.mapM_cons, Region.subregion_self]
      rfl

theorem classify_of_leavesWhole (h : p.LeavesWhole) (regions : List Region) :
    p.classify regions = .ok (regions.map fun r => (r, p.wholeVerdict r)) := by
  induction regions with
  | nil => rfl
  | cons r rs ih => exact classify_cons_ok (classifyRegion_of_leavesWhole h r) ih

theorem leavesWhole_ownPolicy (stack code : Nat) :
    (CommandLine.ownPolicy stack code).LeavesWhole := by
  intro e he s
  have hexclusions : e ∈ [Exclusion.holding stack .ownStack, .holding code .ownCode] := he
  rcases List.mem_pair.mp hexclusions with rfl | rfl <;> exact id

theorem sum_size_monitoredOf_le (pieces : List (Region × Verdict)) :
    ((monitoredOf pieces).map Region.size).sum ≤ (pieces.map fun piece => piece.1.size).sum := by
  have hsub : ((monitoredOf pieces).map Region.size).Sublist
      (pieces.map fun piece => piece.1.size) := by
    rw [monitoredOf, List.map_map]
    exact List.filter_sublist.map _
  exact hsub.sum_le_sum fun _ _ => Nat.zero_le _

end Policy

namespace Maps

open Policy (monitoredOf)

variable {pieces : List (Region × Verdict)} {p : Policy} {regions : List Region}

section Totals

theorem monitoredBytes_eq_ok {total : Nat}
    (h : total + ((monitoredOf pieces).map Region.size).sum < Word.limit) :
    monitoredBytes pieces total = .ok (total + ((monitoredOf pieces).map Region.size).sum) := by
  induction pieces generalizing total with
  | nil => rfl
  | cons piece pieces ih =>
    obtain ⟨r, verdict⟩ := piece
    rw [monitoredBytes]
    by_cases hverdict : verdict = .monitored
    · have hcons : monitoredOf ((r, verdict) :: pieces) = r :: monitoredOf pieces := by
        simp [monitoredOf, hverdict]
      rw [hcons, List.map_cons, List.sum_cons] at h ⊢
      have hadd : Word.add total r.size = .ok (total + r.size) :=
        Word.add_eq_ok_iff.mpr ⟨by omega, rfl⟩
      rw [if_pos hverdict, hadd, ← Nat.add_assoc]
      exact ih (by omega)
    · have hcons : monitoredOf ((r, verdict) :: pieces) = monitoredOf pieces := by
        simp [monitoredOf, hverdict]
      rw [hcons] at h ⊢
      rw [if_neg hverdict]
      exact ih h

end Totals

section Lines

/-- What the line of a piece ends in. -/
def verdictColumn (v : Verdict) : String := "# " ++ v.text

theorem not_mem_verdictColumn (v : Verdict) :
    '\n' ∉ (verdictColumn v).toList ∧ '\r' ∉ (verdictColumn v).toList := by
  cases v with
  | excluded reason => cases reason <;> decide
  | _ => decide

/-- Lines that a piece is shown on: one more than its name has line feeds, and the last of them
ends in the verdict. -/
structure ShownOn (piece : Region × Verdict) (lines : List (List Char)) : Prop where
  breaks : lines.length = piece.1.backing.name.toList.count '\n' + 1
  verdict : ∃ before last, lines = before ++ [last] ∧ (verdictColumn piece.2).toList <:+ last

/-- The only line feeds in front of the last column are those of the name. -/
theorem toList_listingLine (piece : Region × Verdict) :
    ∃ before, (listingLine piece).toList =
        before ++ ((verdictColumn piece.2).toList ++ ['\n']) ∧
      before.count '\n' = piece.1.backing.name.toList.count '\n' := by
  refine ⟨piece.1.columns.toList ++ (piece.1.backing.name.toList ++
    (List.replicate (100 - piece.1.line.length) ' ' ++ [' '])), ?_, ?_⟩
  · simp [listingLine, Text.padRight, Region.line, verdictColumn]
  · have hcolumns := List.count_eq_zero_of_not_mem piece.1.not_mem_columns
    simp [List.count_append, hcolumns, List.count_replicate]

theorem ended_listingLine (piece : Region × Verdict) :
    Text.Ended '\n' (listingLine piece).toList := by
  obtain ⟨before, hline, -⟩ := toList_listingLine piece
  rw [hline, ← List.append_assoc]
  exact .inr List.getLast?_concat

theorem shownOn_lines (piece : Region × Verdict) :
    ShownOn piece (Text.lines '\n' '\r' (listingLine piece).toList) := by
  obtain ⟨before, hline, hcount⟩ := toList_listingLine piece
  obtain ⟨hlf, hcr⟩ := not_mem_verdictColumn piece.2
  constructor
  · rw [Text.length_lines_of_ended (ended_listingLine piece), hline, List.count_append, hcount,
      List.count_append, List.count_eq_zero_of_not_mem hlf]
    rfl
  · rw [hline]
    exact Text.exists_lines_append hlf hcr before

/-- The last line, without the line feed behind it. -/
def summaryText (pieces bytes : Nat) : String :=
  s!"{pieces} region(s), {bytes / 1024} KiB would be monitored"

/-- The last line of the listing of some pieces, of which some are selected. -/
def summaryOf (pieces : List (Region × Verdict)) (selected : List Region) : List Char :=
  (summaryText pieces.length (selected.map Region.size).sum).toList

theorem toList_summaryText (pieces bytes : Nat) :
    (summaryText pieces bytes).toList = Nat.toDigits 10 pieces ++ (" region(s), ".toList ++
      (Nat.toDigits 10 (bytes / 1024) ++ " KiB would be monitored".toList)) := by
  have htext : ∀ s : String, toString s = s := fun _ => rfl
  simp [summaryText, htext]

theorem not_mem_summaryText {c : Char} (hc : c = '\n' ∨ c = '\r') (pieces bytes : Nat) :
    c ∉ (summaryText pieces bytes).toList := by
  have hdigits : ∀ n : Nat, c ∉ Nat.toDigits 10 n := by
    apply Text.Numeral.not_mem_toDigits (by decide) (by decide)
    rcases hc with rfl | rfl <;> decide
  rw [toList_summaryText]
  rcases hc with rfl | rfl <;> simp [hdigits]

theorem lines_summaryLine (pieces bytes : Nat) :
    Text.lines '\n' '\r' (summaryLine pieces bytes).toList =
      [(summaryText pieces bytes).toList] := by
  have hline : (summaryLine pieces bytes).toList = (summaryText pieces bytes).toList ++ ['\n'] := by
    have htext : ∀ s : String, toString s = s := fun _ => rfl
    simp [summaryLine, summaryText, htext]
  have hlf := not_mem_summaryText (.inl rfl) pieces bytes
  have hcr : (summaryText pieces bytes).toList.getLast? ≠ some '\r' :=
    fun h => not_mem_summaryText (.inr rfl) pieces bytes (List.mem_of_getLast? h)
  rw [hline, Text.lines_append_cons hlf hcr, Text.lines_nil]

/-- The text of a listing, cut into lines. -/
theorem lines_listing (pieces : List (Region × Verdict)) (bytes : Nat) :
    Text.lines '\n' '\r'
      (String.join (pieces.map listingLine) ++ summaryLine pieces.length bytes).toList =
      (pieces.map fun piece => Text.lines '\n' '\r' (listingLine piece).toList).flatten ++
        [(summaryText pieces.length bytes).toList] := by
  have hjoin : (String.join (pieces.map listingLine)).toList =
      pieces.flatMap fun piece => (listingLine piece).toList := by
    rw [String.toList_join, List.flatMap_map]
  rw [String.toList_append, hjoin, Text.lines_flatMap_append fun piece _ => ended_listingLine piece,
    lines_summaryLine]

/-- A text that shows all pieces, one behind another, before a last line. -/
def Shows (pieces : List (Region × Verdict)) (summary : List Char) (text : String) : Prop :=
  ∃ blocks, Text.lines '\n' '\r' text.toList = blocks.flatten ++ [summary] ∧
    List.Forall₂ ShownOn pieces blocks

/-- A text that shows each piece on a line of its own. -/
def OnePerPiece (pieces : List (Region × Verdict)) (summary : List Char) (text : String) : Prop :=
  ∃ body, Text.lines '\n' '\r' text.toList = body ++ [summary] ∧
    List.Forall₂ (fun piece line => (verdictColumn piece.2).toList <:+ line) pieces body

theorem shows_listing (pieces : List (Region × Verdict)) (selected : List Region) :
    Shows pieces (summaryOf pieces selected) (String.join (pieces.map listingLine) ++
      summaryLine pieces.length (selected.map Region.size).sum) := by
  refine ⟨_, lines_listing pieces (selected.map Region.size).sum, ?_⟩
  rw [List.forall₂_map_right_iff, List.forall₂_same]
  exact fun piece _ => shownOn_lines piece

variable {blocks : List (List (List Char))}

theorem length_flatten_of_shownOn (h : List.Forall₂ ShownOn pieces blocks) :
    blocks.flatten.length = pieces.length +
      (pieces.map fun piece => piece.1.backing.name.toList.count '\n').sum := by
  induction h with
  | nil => rfl
  | cons hshown _ ih =>
    rw [List.flatten_cons, List.length_append, ih, hshown.breaks, List.length_cons, List.map_cons,
      List.sum_cons]
    omega

theorem forall₂_flatten_of_shownOn (h : List.Forall₂ ShownOn pieces blocks)
    (hnames : ∀ piece ∈ pieces, '\n' ∉ piece.1.backing.name.toList) :
    List.Forall₂ (fun piece line => (verdictColumn piece.2).toList <:+ line) pieces
      blocks.flatten := by
  induction h with
  | nil => exact .nil
  | @cons piece lines pieces blocks hshown _ ih =>
    obtain ⟨hname, hnames⟩ := List.forall_mem_cons.mp hnames
    obtain ⟨before, last, rfl, hlast⟩ := hshown.verdict
    have hbreaks := hshown.breaks
    rw [List.count_eq_zero_of_not_mem hname, List.length_append, List.length_singleton] at hbreaks
    have hbefore : before = [] := List.eq_nil_of_length_eq_zero (by omega)
    rw [hbefore]
    exact .cons hlast (ih hnames)

variable {summary : List Char} {text : String}

theorem Shows.length_lines (h : Shows pieces summary text) :
    (Text.lines '\n' '\r' text.toList).length = pieces.length +
      (pieces.map fun piece => piece.1.backing.name.toList.count '\n').sum + 1 := by
  obtain ⟨blocks, hlines, hshown⟩ := h
  rw [hlines, List.length_append, length_flatten_of_shownOn hshown, List.length_singleton]

/-- Names without line feeds are what it takes for one line a piece. -/
theorem Shows.onePerPiece_iff (h : Shows pieces summary text) :
    OnePerPiece pieces summary text ↔
      ∀ piece ∈ pieces, '\n' ∉ piece.1.backing.name.toList := by
  constructor
  · intro ⟨body, hbody, hforall⟩
    -- A first part of a name may look like a line with a verdict, so the lines are counted.
    have hlength := h.length_lines
    rw [hbody, List.length_append, List.length_singleton, ← hforall.length_eq,
      Nat.add_right_cancel_iff, Nat.left_eq_add, List.sum_eq_zero_iff] at hlength
    intro piece hpiece
    exact List.count_eq_zero.mp (hlength _ (List.mem_map_of_mem hpiece))
  · intro hnames
    obtain ⟨blocks, hlines, hshown⟩ := h
    exact ⟨blocks.flatten, hlines, forall₂_flatten_of_shownOn hshown hnames⟩

end Lines

section Names

/-- Without an escape in the line there is no line feed in the name. -/
theorem not_mem_name_of_describes {line : List Char} {r : Region} (h : Describes line r.entry)
    (hline : '\n' ∉ line) (hplain : ¬lineFeed <:+: line) : '\n' ∉ r.backing.name.toList := by
  obtain ⟨c, _, _, _, _, _, _, cut, _, _, _, _, _, _, _, _, _, _, _, _, backing⟩ := h
  obtain ⟨gap, htext, -⟩ := cut.text
  have hsuffix : c.name <:+ line := by
    refine ⟨c.addresses ++ ' ' :: (c.permissions ++ ' ' :: (c.offset ++ ' ' ::
      (c.device ++ ' ' :: (c.inode ++ List.replicate gap ' ')))), ?_⟩
    simp [htext]
  have hname : unescape c.name = c.name :=
    unescape_eq_self fun h => hplain (h.trans hsuffix.isInfix)
  have hbacking : r.backing = Backing.ofName (String.ofList (unescape c.name)) := backing
  rw [hbacking, hname, Backing.name_ofName, String.toList_ofList]
  exact fun hmem => hline (hsuffix.mem hmem)

theorem not_mem_name_of_reads {lines : List (Option (List Char))} {outs : List (List Region)}
    (h : List.Forall₂ Reads lines outs) (hlines : ∀ line, some line ∈ lines → '\n' ∉ line)
    (hplain : ∀ line, some line ∈ lines → ¬lineFeed <:+: line) :
    ∀ r ∈ outs.flatten, '\n' ∉ r.backing.name.toList := by
  induction h with
  | nil => simp
  | @cons line out lines outs hreads _ ih =>
    have hothers := ih (fun line hline => hlines line (List.mem_cons_of_mem _ hline))
      fun line hline => hplain line (List.mem_cons_of_mem _ hline)
    cases hreads with
    | blank => exact hothers
    | region hdescribes =>
      have hfirst := not_mem_name_of_describes hdescribes (hlines _ List.mem_cons_self)
        (hplain _ List.mem_cons_self)
      exact List.forall_mem_cons.mpr ⟨hfirst, hothers⟩

theorem not_mem_name_of_found {path : String} {bytes : List UInt8}
    (h : readFound path (.content bytes) = .ok regions)
    (hplain : ∀ line, some line ∈ decoded bytes → ¬lineFeed <:+: line) :
    ∀ r ∈ regions, '\n' ∉ r.backing.name.toList := by
  have hends := ends_readLines (decoded bytes)
  rw [← readFound_content path, h] at hends
  obtain ⟨outs, houts, rfl⟩ := exists_reads_of_ends hends
  exact not_mem_name_of_reads houts (fun _ => not_mem_of_mem_decoded) hplain

end Names

section Records

/-- What the fields of a record tell of a piece: where it is, what is allowed there and what is
done with it. -/
structure Tells (piece : Region × Verdict) (fields : List (String × Json)) : Prop where
  start : fields.lookup "start" = some (.nat piece.1.start)
  stop : fields.lookup "end" = some (.nat piece.1.stop)
  permissions : fields.lookup "perms" = some (.string piece.1.permissions)
  verdict : fields.lookup "verdict" = some (.string piece.2.text)

theorem forall₂_tells (pieces : List (Region × Verdict)) :
    List.Forall₂ Tells pieces (pieces.map listingFields) := by
  induction pieces with
  | nil => exact .nil
  | cons piece pieces ih => exact .cons ⟨rfl, rfl, rfl, rfl⟩ ih

theorem legible_nat (n : Nat) : Json.Legible (.nat n) := by
  have hdigits : (toString n).toList = Nat.toDigits 10 n := Nat.toList_repr
  apply Json.Legible.number
  · rw [hdigits]
    exact Nat.toDigits_ne_nil
  · intro c hc
    rw [hdigits] at hc
    have hdigit : c.isDigit = true := Nat.isDigit_of_mem_toDigits (by decide) (by decide) hc
    simp [Json.isNumeral, hdigit]

theorem legible_records (pieces : List (Region × Verdict)) :
    Json.Legible (.list ((pieces.map listingFields).map .record)) := by
  apply Json.Legible.list
  intro record hrecord
  rw [List.map_map] at hrecord
  obtain ⟨piece, -, rfl⟩ := List.mem_map.mp hrecord
  apply Json.Legible.record
  simp only [listingFields, List.forall_mem_cons]
  exact ⟨legible_nat _, legible_nat _, .string _, .string _, .string _, List.forall_mem_nil _⟩

end Records

section Whole

theorem listing_of_classify (h : p.classify regions = .ok pieces)
    (hsize : ((monitoredOf pieces).map Region.size).sum < Word.limit) :
    listing p regions = .ok (String.join (pieces.map listingLine) ++
      summaryLine pieces.length ((monitoredOf pieces).map Region.size).sum) := by
  have hbytes : monitoredBytes pieces 0 = .ok (0 + ((monitoredOf pieces).map Region.size).sum) :=
    monitoredBytes_eq_ok (by omega)
  rw [Nat.zero_add] at hbytes
  rw [listing, h]
  show (monitoredBytes pieces 0 >>= _) = _
  rw [hbytes]
  rfl

theorem listingRecords_of_classify (h : p.classify regions = .ok pieces) :
    listingRecords p regions = .ok (pieces.map listingFields) := by
  rw [listingRecords, h]
  rfl

theorem listingJson_of_records {records : List (List (String × Json))}
    (h : listingRecords p regions = .ok records) :
    listingJson p regions = .ok ((Json.list (records.map .record)).render ++ "\n") := by
  rw [listingJson, h]
  rfl

end Whole

/-- Regions listed as text and as a document. The text shows the pieces in order and then sums them
up, with the size of what is selected; it shows each piece on one line if and only if no name has a
line feed in it, and a map without escapes gives no such names. Whatever the names are, there is one
record for each piece, and the document reads as these records. -/
theorem listing_tells_pieces (stack code : Nat) {regions : List Region}
    (hsize : (regions.map Region.size).sum < Word.limit) :
    ∃ pieces selected text records document,
      (CommandLine.ownPolicy stack code).classify regions = .ok pieces ∧
      (CommandLine.ownPolicy stack code).select regions = .ok selected ∧
      listing (CommandLine.ownPolicy stack code) regions = .ok text ∧
      listingRecords (CommandLine.ownPolicy stack code) regions = .ok records ∧
      listingJson (CommandLine.ownPolicy stack code) regions = .ok document ∧
      Shows pieces (summaryOf pieces selected) text ∧
      (OnePerPiece pieces (summaryOf pieces selected) text ↔
        ∀ r ∈ regions, '\n' ∉ r.backing.name.toList) ∧
      (∀ path bytes, readFound path (.content bytes) = .ok regions →
        (∀ line, some line ∈ decoded bytes → ¬lineFeed <:+: line) →
        ∀ r ∈ regions, '\n' ∉ r.backing.name.toList) ∧
      List.Forall₂ Tells pieces records ∧
      Json.read? document = some (.list (records.map .record)) := by
  have hclassify := Policy.classify_of_leavesWhole (Policy.leavesWhole_ownPolicy stack code) regions
  -- From here on the pieces matter only as a list in which the regions can be found again.
  generalize hpieces : (regions.map fun r =>
    (r, (CommandLine.ownPolicy stack code).wholeVerdict r)) = pieces at hclassify
  have hregions : pieces.map (·.1) = regions := by
    rw [← hpieces, List.map_map]
    exact List.map_id regions
  have hselect : (CommandLine.ownPolicy stack code).select regions = .ok (monitoredOf pieces) := by
    rw [Policy.select, hclassify]
    rfl
  have hbytes : ((monitoredOf pieces).map Region.size).sum < Word.limit := by
    rw [← hregions, List.map_map] at hsize
    exact (Policy.sum_size_monitoredOf_le pieces).trans_lt hsize
  have hshows := shows_listing pieces (monitoredOf pieces)
  have hnames : (∀ piece ∈ pieces, '\n' ∉ piece.1.backing.name.toList) ↔
      ∀ r ∈ regions, '\n' ∉ r.backing.name.toList := by
    rw [← hregions, List.forall_mem_map]
  have hrecords := listingRecords_of_classify hclassify
  exact ⟨pieces, monitoredOf pieces, _, _, _, hclassify, hselect,
    listing_of_classify hclassify hbytes, hrecords, listingJson_of_records hrecords, hshows,
    hshows.onePerPiece_iff.trans hnames, fun _ _ => not_mem_name_of_found, forall₂_tells pieces,
    Json.read?_render (legible_records pieces)⟩

/-- A line that describes a page of a file with a line feed in its name. -/
def tornLine : List Char := "7f2b1d000000-7f2b1d001000 rw-p 00003000 08:01 77 /tmp/a\\012b".toList

/-- The page that it describes. -/
def tornPage : Region :=
  ⟨⟨0x7f2b1d000000, 0x7f2b1d001000, by decide, by decide⟩, .readWrite, false, 0x3000, ⟨0x801⟩, 77,
    .file "/tmp/a\nb", by decide, by decide⟩

theorem readFound_tornLine :
    readFound "maps" (.content (Text.utf8 (tornLine ++ ['\n']))) = .ok [tornPage] := by
  have hlines : Text.lines '\n' '\r' (tornLine ++ ['\n']) = [tornLine] := by decide
  have hpage : Describes tornLine tornPage.entry := entry_eq_ok_iff.mp rfl
  have hreads := List.Forall₂.cons (Reads.region hpage) .nil
  rw [readFound_content, decoded_utf8, hlines, List.map_cons, List.map_nil,
    readLines_of_forall hreads]
  rfl

/-- A page with such a name takes up two lines of the text and one record of the document. -/
theorem listing_tells_tornPage :
    readFound "maps" (.content (Text.utf8 (tornLine ++ ['\n']))) = .ok [tornPage] ∧
    ∃ text document fields, listing (CommandLine.ownPolicy 0 0) [tornPage] = .ok text ∧
      (Text.lines '\n' '\r' text.toList).length = 3 ∧
      listingJson (CommandLine.ownPolicy 0 0) [tornPage] = .ok document ∧
      Json.read? document = some (.list [.record fields]) := by
  obtain ⟨pieces, selected, text, records, document, hclassify, -, htext, -, hdocument, hshows, -,
    -, htells, hread⟩ := @listing_tells_pieces 0 0 [tornPage] (by decide)
  have hpieces := Policy.classify_of_leavesWhole (Policy.leavesWhole_ownPolicy 0 0) [tornPage]
  obtain rfl := Except.ok.inj (hclassify.symm.trans hpieces)
  obtain ⟨fields, rfl⟩ := List.length_eq_one_iff.mp htells.length_eq.symm
  exact ⟨readFound_tornLine, text, document, fields, htext, hshows.length_lines, hdocument, hread⟩

end Maps

end Rewind
