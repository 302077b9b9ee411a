import Rewind.Proofs.Reports

/-! Memory maps put one behind another. What is read of the later lines does not depend on the lines
before them, which only move the number of a line that is reported; and nothing is read of the later
lines if one of those before them is reported. -/
namespace Rewind.Maps

section Lines

variable {before rest : List (Option (List Char))}

/-- An error that is found so many lines further down. -/
def Error.later (k : Nat) : Error → Error
  | .line number defect text => .line (number + k) defect text
  | .undecodable => .undecodable

/-- Lines are read one after another, so a run over all of them falls into two. -/
theorem readLines_append_eq (before rest : List (Option (List Char))) (n : Nat) :
    readLines n (before ++ rest) = (do
      let regions ← readLines n before
      let others ← readLines (n + before.length) rest
      return regions ++ others) := by
  induction before generalizing n with
  | nil =>
    show readLines n rest = (readLines n rest).map id
    cases readLines n rest <;> rfl
  | cons line before ih =>
    have hcount : n + 1 + before.length = n + (line :: before).length := by
      rw [List.length_cons]
      omega
    cases line with
    | none => rfl
    | some line =>
      rw [List.cons_append, readLines, readLines, ih, hcount]
      by_cases hblank : line.all Text.isBlank = true
      · rw [if_pos hblank, if_pos hblank]
      · rw [if_neg hblank, if_neg hblank]
        cases entry line with
        | error defect => rfl
        | ok e =>
          dsimp only
          cases e.region with
          | error cause => rfl
          | ok region =>
            cases readLines (n + 1) before with
            | error e => rfl
            | ok regions => cases readLines (n + (some line :: before).length) rest <;> rfl

theorem readLines_add (n k : Nat) (lines : List (Option (List Char))) :
    readLines (n + k) lines = (readLines n lines).mapError (Error.later k) := by
  induction lines generalizing n with
  | nil => rfl
  | cons line lines ih =>
    have hcount : n + k + 1 = n + 1 + k := Nat.add_right_comm n k 1
    cases line with
    | none => rfl
    | some line =>
      rw [readLines, readLines, hcount, ih]
      by_cases hblank : line.all Text.isBlank = true
      · rw [if_pos hblank, if_pos hblank]
      · rw [if_neg hblank, if_neg hblank]
        cases entry line with
        | error defect => rfl
        | ok e =>
          dsimp only
          cases e.region with
          | error cause => rfl
          | ok region => rcases readLines (n + 1) lines with (_ | _) | _ <;> rfl

theorem readLines_of_blank {lines : List (List Char)}
    (h : ∀ line ∈ lines, line.all Text.isBlank = true) (n : Nat) :
    readLines n (lines.map some) = .ok [] := by
  induction lines generalizing n with
  | nil => rfl
  | cons line lines ih =>
    obtain ⟨hline, hlines⟩ := List.forall_mem_cons.mp h
    rw [List.map_cons, readLines, if_pos hline]
    exact ih hlines (n + 1)

end Lines

section Files

variable {before rest : List UInt8}

theorem decoded_append (h : Text.Ended 10 before) (rest : List UInt8) :
    decoded (before ++ rest) = decoded before ++ decoded rest := by
  unfold decoded
  rw [Text.lines_append_of_ended h, List.map_append]

theorem length_decoded (h : Text.Ended 10 before) : (decoded before).length = before.count 10 := by
  unfold decoded
  rw [List.length_map, Text.length_lines_of_ended h]

/-- Reading an ended map and what is behind it is reading each on its own. -/
theorem readLines_decoded_append (h : Text.Ended 10 before) (rest : List UInt8) :
    readLines 1 (decoded (before ++ rest)) = (do
      let regions ← readLines 1 (decoded before)
      let others ← (readLines 1 (decoded rest)).mapError (Error.later (before.count 10))
      return regions ++ others) := by
  rw [decoded_append h, readLines_append_eq, length_decoded h, readLines_add]

theorem readLines_decoded_blank {blank : List Char} (h : blank.all Text.isBlank = true) :
    readLines 1 (decoded (Text.utf8 blank)) = .ok [] := by
  rw [decoded_utf8]
  apply readLines_of_blank
  intro line hline
  rw [List.all_eq_true] at *
  intro c hc
  exact h c (Text.mem_of_mem_lines hline hc)

end Files

section Messages

/-- The failure that reports a line. -/
def lineFailure (number : Nat) (reason quoted : String) : Failure :=
  .catalog s!"line {number}: {reason}: `{quoted}'"

/-- What a message says behind the number of the line. -/
def finding (reason quoted : String) : List Char := (s!" {reason}: `{quoted}'").toList

theorem lineFailure_eq (number : Nat) (reason quoted : String) :
    lineFailure number reason quoted = .catalog (String.ofList
      ("line ".toList ++ (Nat.toDigits 10 number ++ ':' :: finding reason quoted))) := by
  unfold lineFailure finding
  congr 1
  apply String.toList_inj.mp
  simp [Nat.repr, toString]

/-- The number of a reported line can be told from the message, and so can what is behind it. -/
theorem eq_of_lineFailure_eq {number number' : Nat} {reason reason' quoted quoted' : String}
    (h : lineFailure number reason quoted = lineFailure number' reason' quoted') :
    number = number' ∧ finding reason quoted = finding reason' quoted' := by
  have hcolon : ∀ n, ':' ∉ Nat.toDigits 10 n :=
    Text.Numeral.not_mem_toDigits (by decide) (by decide) (by decide)
  rw [lineFailure_eq, lineFailure_eq, Failure.catalog.injEq, String.ofList_inj] at h
  have htext := List.append_cancel_left h
  have hdigits := congrArg (List.takeWhile (· ≠ ':')) htext
  have hrest := congrArg (List.dropWhile (· ≠ ':')) htext
  rw [Text.takeWhile_append_cons (hcolon _), Text.takeWhile_append_cons (hcolon _)] at hdigits
  rw [Text.dropWhile_append_cons (hcolon _), Text.dropWhile_append_cons (hcolon _),
    List.cons.injEq] at hrest
  have hnumber := congrArg (Nat.ofDigitChars 10 · 0) hdigits
  rw [Nat.ofDigitChars_ten_toDigits, Nat.ofDigitChars_ten_toDigits] at hnumber
  exact ⟨hnumber, hrest.2⟩

theorem lineFailure_add {number number' : Nat} {reason reason' quoted quoted' : String}
    (h : lineFailure number reason quoted = lineFailure number' reason' quoted') (k : Nat) :
    lineFailure (number + k) reason quoted = lineFailure (number' + k) reason' quoted' := by
  obtain ⟨rfl, hfinding⟩ := eq_of_lineFailure_eq h
  rw [lineFailure_eq, lineFailure_eq, hfinding]

theorem failure_later_of_eq {e : Error} {number : Nat} {reason quoted : String}
    (h : e.failure = lineFailure number reason quoted) (k : Nat) :
    (e.later k).failure = lineFailure (number + k) reason quoted := by
  cases e with
  | undecodable => cases h
  | line m defect text => exact lineFailure_add h k

theorem failure_later_of_ne {e : Error} (h : ∀ text, e.failure ≠ .catalog text) (k : Nat) :
    (e.later k).failure = e.failure := by
  cases e with
  | undecodable => rfl
  | line m defect text => exact absurd rfl (h _)

theorem failure_of_catalog {e : Error} {text : String} (h : e.failure = .catalog text) :
    ∃ number reason quoted, Failure.catalog text = lineFailure number reason quoted := by
  cases e with
  | undecodable => cases h
  | line number defect quoted => exact ⟨number, defect.text, quoted, h.symm⟩

end Messages

section Whole

variable {path : String} {before rest : List UInt8} {first : List Region}

theorem readFound_append_of_error (h : Text.Ended 10 before) {trouble : Trouble Failure}
    (hbefore : readFound path (.content before) = .error trouble) (rest : List UInt8) :
    readFound path (.content (before ++ rest)) = .error trouble := by
  rw [readFound_content] at *
  rw [readLines_decoded_append h, ← hbefore]
  cases hlines : readLines 1 (decoded before) with
  | ok regions =>
    rw [hlines] at hbefore
    cases hbefore
  | error e => rfl

theorem readFound_append_of_ok (h : Text.Ended 10 before)
    (hbefore : readFound path (.content before) = .ok first) (rest : List UInt8) :
    readFound path (.content (before ++ rest)) =
      ((readLines 1 (decoded rest)).mapError fun e => (e.later (before.count 10)).failure).map
        (first ++ ·) := by
  rw [readFound_content] at *
  rw [readLines_decoded_append h, Outcome.mapError_eq_ok_iff.mp hbefore]
  rcases readLines 1 (decoded rest) with (_ | _) | _ <;> rfl

theorem readFound_append_eq_ok_iff (h : Text.Ended 10 before) (rest : List UInt8)
    (regions : List Region) :
    readFound path (.content (before ++ rest)) = .ok regions ↔
      ∃ first others, readFound path (.content before) = .ok first ∧
        readFound path (.content rest) = .ok others ∧ regions = first ++ others := by
  cases hbefore : readFound path (.content before) with
  | error trouble => simp [readFound_append_of_error h hbefore]
  | ok first =>
    rw [readFound_append_of_ok h hbefore, readFound_content]
    rcases readLines 1 (decoded rest) with (_ | _) | others <;>
      simp [Outcome.mapError, Except.map, eq_comm]

theorem readFound_append_of_catalog (h : Text.Ended 10 before)
    (hbefore : readFound path (.content before) = .ok first) {number : Nat}
    {reason quoted : String}
    (hrest : readFound path (.content rest) = .error (.error (lineFailure number reason quoted))) :
    readFound path (.content (before ++ rest)) =
      .error (.error (lineFailure (number + before.count 10) reason quoted)) := by
  rw [readFound_content] at hrest
  obtain ⟨e, hlines, hfailure⟩ := Outcome.mapError_eq_error_iff.mp hrest
  rw [readFound_append_of_ok h hbefore, hlines, ← failure_later_of_eq hfailure]
  rfl

theorem readFound_append_of_other (h : Text.Ended 10 before)
    (hbefore : readFound path (.content before) = .ok first) {trouble : Trouble Failure}
    (hrest : readFound path (.content rest) = .error trouble)
    (hother : ∀ text, trouble ≠ .error (.catalog text)) :
    readFound path (.content (before ++ rest)) = .error trouble := by
  rw [readFound_content] at hrest
  rw [readFound_append_of_ok h hbefore]
  cases trouble with
  | fault cause =>
    rw [Outcome.mapError_eq_fault_iff.mp hrest]
    rfl
  | error failure =>
    obtain ⟨e, hlines, rfl⟩ := Outcome.mapError_eq_error_iff.mp hrest
    have hother : ∀ text, e.failure ≠ .catalog text := fun text h => hother text (congrArg _ h)
    rw [hlines, ← failure_later_of_ne hother (before.count 10)]
    rfl

theorem exists_line_of_catalog {text : String}
    (h : readFound path (.content rest) = .error (.error (.catalog text))) :
    ∃ number reason quoted, Failure.catalog text = lineFailure number reason quoted := by
  rw [readFound_content] at h
  obtain ⟨e, -, hfailure⟩ := Outcome.mapError_eq_error_iff.mp h
  exact failure_of_catalog hfailure

theorem readFound_blank (path : String) {blank : List Char}
    (hblank : blank.all Text.isBlank = true) :
    readFound path (.content (Text.utf8 blank)) = .ok [] := by
  rw [readFound_content, readLines_decoded_blank hblank]
  rfl

/-- White space at the end adds nothing, with or without a line feed behind it. -/
theorem readFound_append_blank_eq_ok_iff (h : Text.Ended 10 before) {blank : List Char}
    (hblank : blank.all Text.isBlank = true) (regions : List Region) :
    readFound path (.content (before ++ Text.utf8 blank)) = .ok regions ↔
      readFound path (.content before) = .ok regions := by
  rw [readFound_append_eq_ok_iff h, readFound_blank path hblank]
  simp

/-- White space on lines of its own adds nothing. -/
theorem readFound_blank_append_eq_ok_iff {blank : List Char}
    (hblank : blank.all Text.isBlank = true) (rest : List UInt8) (regions : List Region) :
    readFound path (.content (Text.utf8 blank ++ 10 :: rest)) = .ok regions ↔
      readFound path (.content rest) = .ok regions := by
  have hline : (blank ++ ['\n']).all Text.isBlank = true := by
    rw [List.all_append, hblank]
    rfl
  have hbytes : Text.utf8 (blank ++ ['\n']) = Text.utf8 blank ++ [10] := by
    unfold Text.utf8
    rw [List.flatMap_append]
    rfl
  have hended : Text.Ended 10 (Text.utf8 (blank ++ ['\n'])) := by
    rw [hbytes]
    exact .inr List.getLast?_concat
  have hsplit : Text.utf8 blank ++ 10 :: rest = Text.utf8 (blank ++ ['\n']) ++ rest := by
    rw [hbytes, List.append_assoc, List.singleton_append]
  rw [hsplit, readFound_append_eq_ok_iff hended, readFound_blank path hline]
  simp

end Whole

/-- Reading two maps one behind the other, the first of them ended. Regions come of it if and only
if they come of both, an error in the first map hides the second one, and a line of the second map
is reported with the lines of the first one counted. White space between the two and behind them
adds no regions. -/
theorem readFound_append {before : List UInt8} (h : Text.Ended 10 before) (path : String)
    (rest : List UInt8) :
    (∀ regions, readFound path (.content (before ++ rest)) = .ok regions ↔
      ∃ first others, readFound path (.content before) = .ok first ∧
        readFound path (.content rest) = .ok others ∧ regions = first ++ others) ∧
    (∀ trouble, readFound path (.content before) = .error trouble →
      readFound path (.content (before ++ rest)) = .error trouble) ∧
    (∀ first, readFound path (.content before) = .ok first →
      (∀ number reason quoted,
        readFound path (.content rest) = .error (.error (lineFailure number reason quoted)) →
        readFound path (.content (before ++ rest)) =
          .error (.error (lineFailure (number + before.count 10) reason quoted))) ∧
      ∀ trouble, readFound path (.content rest) = .error trouble →
        (∀ text, trouble ≠ .error (.catalog text)) →
        readFound path (.content (before ++ rest)) = .error trouble) ∧
    (∀ text, readFound path (.content rest) = .error (.error (.catalog text)) →
      ∃ number reason quoted, Failure.catalog text = lineFailure number reason quoted) ∧
    (Text.lines 10 13 before).length = before.count 10 ∧
    ∀ blank : List Char, blank.all Text.isBlank = true → ∀ regions,
      (readFound path (.content (before ++ (Text.utf8 blank ++ 10 :: rest))) = .ok regions ↔
        readFound path (.content (before ++ rest)) = .ok regions) ∧
      (readFound path (.content (before ++ Text.utf8 blank)) = .ok regions ↔
        readFound path (.content before) = .ok regions) := by
  refine ⟨readFound_append_eq_ok_iff h rest, ?_, ?_, ?_, Text.length_lines_of_ended h, ?_⟩
  · exact fun trouble hbefore => readFound_append_of_error h hbefore rest
  · intro first hbefore
    constructor
    · exact fun number reason quoted => readFound_append_of_catalog h hbefore
    · exact fun trouble => readFound_append_of_other h hbefore
  · exact fun text => exists_line_of_catalog
  · intro blank hblank regions
    constructor
    · simp only [readFound_append_eq_ok_iff h, readFound_blank_append_eq_ok_iff hblank]
    · exact readFound_append_blank_eq_ok_iff h hblank regions

/-- A line that describes a page of memory, and a line of white space. -/
def twoLines : List Char := "10000000-10001000 rw-p 00005000 08:01 7 /a\n \t\r\n".toList

/-- The page that they describe. -/
def onePage : Region :=
  ⟨⟨0x10000000, 0x10001000, by decide, by decide⟩, .readWrite, false, 0x5000, ⟨0x801⟩, 7,
    .file "/a", by decide, by decide⟩

theorem readFound_twoLines : readFound "maps" (.content (Text.utf8 twoLines)) = .ok [onePage] := by
  have hlines : Text.lines '\n' '\r' twoLines =
      ["10000000-10001000 rw-p 00005000 08:01 7 /a".toList, [' ', '\t']] := by decide
  have hpage : Describes "10000000-10001000 rw-p 00005000 08:01 7 /a".toList onePage.entry :=
    entry_eq_ok_iff.mp rfl
  have hblank : Reads (some [' ', '\t']) [] := .blank (by decide)
  have hreads := List.Forall₂.cons (Reads.region hpage) (.cons hblank .nil)
  rw [readFound_content, decoded_utf8, hlines]
  rw [List.map_cons, List.map_cons, List.map_nil, readLines_of_forall hreads]
  rfl

theorem readFound_noSpace : readFound "maps" (.content (Text.utf8 "garbage".toList)) =
    .error (.error (lineFailure 1 "missing permissions" "garbage")) := by
  rw [readFound_content, decoded_utf8]
  rfl

theorem readFound_append_twoLines :
    readFound "maps" (.content (Text.utf8 twoLines ++ Text.utf8 twoLines)) =
      .ok [onePage, onePage] ∧
    readFound "maps" (.content (Text.utf8 twoLines ++ Text.utf8 "garbage".toList)) =
      .error (.error (lineFailure 3 "missing permissions" "garbage")) := by
  have hended : Text.Ended 10 (Text.utf8 twoLines) := .inr (by decide)
  have htwice := (readFound_append hended "maps" (Text.utf8 twoLines)).1 [onePage, onePage]
  have hlater := (readFound_append hended "maps" (Text.utf8 "garbage".toList)).2.2.1 _
    readFound_twoLines
  constructor
  · exact htwice.mpr ⟨_, _, readFound_twoLines, readFound_twoLines, rfl⟩
  · exact hlater.1 1 _ _ readFound_noSpace

end Rewind.Maps
