import Mathlib.Tactic
import Rewind.Json
import Rewind.Proofs.Printing

/-! JSON documents read back. The reader takes a document in any layout, with white space wherever
the format allows it. The indented form is one of the layouts, and nothing of a document is lost in
it: a text in quotes may hold whatever it likes. -/
namespace Rewind.Json

section Reader

/-- White space between the parts of a document. -/
def isSpace (c : Char) : Bool := c == ' ' || c == '\n' || c == '\r' || c == '\t'

/-- The characters of which numbers are made. -/
def isNumeral (c : Char) : Bool := c.isDigit || ['-', '+', '.', 'e', 'E'].contains c

def skip (s : List Char) : List Char := s.dropWhile isSpace

/-- What follows a character that comes next. -/
def behind (c : Char) (s : List Char) : Option (List Char) :=
  match skip s with
  | d :: rest => if d = c then some rest else none
  | [] => none

/-- What a backslash and a letter stand for. -/
def escaped? : Char → Option Char
  | '"' => some '"'
  | '\\' => some '\\'
  | '/' => some '/'
  | 'b' => some '\x08'
  | 'f' => some '\x0c'
  | 'n' => some '\n'
  | 'r' => some '\r'
  | 't' => some '\t'
  | _ => none

/-- The character with a number in base 16. Numbers of no character are not read. -/
def coded? (digits : List Char) : Option Char :=
  match Text.Numeral.readDigits 16 0x10000 0 digits with
  | .ok n => if n.isValidChar then some (Char.ofNat n) else none
  | .error _ => none

/-- The characters up to the closing quote, and what follows it. -/
def readQuoted : List Char → Option (List Char × List Char)
  | '"' :: rest => some ([], rest)
  | '\\' :: 'u' :: p :: q :: r :: s :: rest => (coded? [p, q, r, s]).bind fun c =>
    (readQuoted rest).map fun (text, rest) => (c :: text, rest)
  | '\\' :: e :: rest => (escaped? e).bind fun c =>
    (readQuoted rest).map fun (text, rest) => (c :: text, rest)
  | c :: rest =>
    if c.toNat < 0x20 then none
    else (readQuoted rest).map fun (text, rest) => (c :: text, rest)
  | [] => none

def readWord : List Char → Option (Json × List Char)
  | 'n' :: 'u' :: 'l' :: 'l' :: rest => some (.null, rest)
  | 't' :: 'r' :: 'u' :: 'e' :: rest => some (.bool true, rest)
  | 'f' :: 'a' :: 'l' :: 's' :: 'e' :: rest => some (.bool false, rest)
  | _ => none

section Groups

variable {α : Type}

/-- Items behind commas up to the closing bracket; at most `n` parts are looked at. -/
def readRest (close : Char) (item : List Char → Option (α × List Char)) :
    Nat → List Char → Option (List α × List Char)
  | 0, _ => none
  | n + 1, s =>
    match behind close s with
    | some rest => some ([], rest)
    | none => (behind ',' s).bind fun s => (item s).bind fun (x, s) =>
      (readRest close item n s).map fun (xs, s) => (x :: xs, s)

/-- Items with commas between them up to the closing bracket. -/
def readGroup (close : Char) (item : List Char → Option (α × List Char)) (n : Nat)
    (s : List Char) : Option (List α × List Char) :=
  match behind close s with
  | some rest => some ([], rest)
  | none => (item s).bind fun (x, s) => (readRest close item n s).map fun (xs, s) => (x :: xs, s)

/-- A key in quotes, a colon and a value. -/
def readField (value : List Char → Option (α × List Char)) (s : List Char) :
    Option ((String × α) × List Char) :=
  (behind '"' s).bind fun s => (readQuoted s).bind fun (key, s) => (behind ':' s).bind fun s =>
    (value s).map fun (x, s) => ((String.ofList key, x), s)

end Groups

/-- The value that comes next, and what follows it; values are read at most `n` deep. -/
def readValue : Nat → List Char → Option (Json × List Char)
  | 0, _ => none
  | n + 1, s =>
    match skip s with
    | [] => none
    | c :: rest =>
      if c = '"' then
        (readQuoted rest).map fun (text, rest) => (.string (String.ofList text), rest)
      else if c = '[' then
        (readGroup ']' (readValue n) n rest).map fun (items, rest) => (.list items, rest)
      else if c = '\x7b' then
        (readGroup '\x7d' (readField (readValue n)) n rest).map fun (fields, rest) =>
          (.record fields, rest)
      else if isNumeral c then
        some (.number (String.ofList ((c :: rest).takeWhile isNumeral)),
          (c :: rest).dropWhile isNumeral)
      else readWord (c :: rest)

/-- The document that a text consists of. -/
def read? (text : String) : Option Json :=
  match readValue text.toList.length text.toList with
  | some (j, rest) => if rest.all isSpace then some j else none
  | none => none

end Reader

section Spaces

variable {c d : Char} {s rest : List Char}

theorem skip_append (h : s.all isSpace = true) (rest : List Char) :
    skip (s ++ rest) = skip rest := by
  unfold skip
  rw [List.dropWhile_append_of_pos (List.all_eq_true.mp h)]

theorem skip_cons (h : isSpace c = false) (rest : List Char) : skip (c :: rest) = c :: rest := by
  unfold skip
  rw [List.dropWhile_cons, if_neg (by simp [h])]

theorem behind_append (h : s.all isSpace = true) (rest : List Char) :
    behind c (s ++ rest) = behind c rest := by
  unfold behind
  rw [skip_append h]

theorem behind_self (h : isSpace c = false) (rest : List Char) :
    behind c (c :: rest) = some rest := by
  rw [behind, skip_cons h]
  exact if_pos rfl

theorem behind_of_ne (h : isSpace d = false) (hne : d ≠ c) (rest : List Char) :
    behind c (d :: rest) = none := by
  rw [behind, skip_cons h]
  exact if_neg hne

theorem behind_eq_none_of_some (h : behind c s = some rest) (hne : c ≠ d) : behind d s = none := by
  unfold behind at *
  cases hs : skip s with
  | nil => rfl
  | cons e t =>
    have hec : e = c := by
      by_contra hec
      simp [hs, hec] at h
    show (if e = d then some t else none) = none
    exact if_neg (hec ▸ hne)

theorem toList_lineBreak (level : Nat) :
    (lineBreak level).toList = '\n' :: List.replicate (2 * level) ' ' := by
  simp [lineBreak]

theorem all_isSpace_lineBreak (level : Nat) : (lineBreak level).toList.all isSpace = true := by
  rw [toList_lineBreak, List.all_cons, List.all_replicate]
  simp [isSpace]

end Spaces

section Quotes

/-- The escaped form of a text, without the quotes around it. -/
def escapes (s : List Char) : List Char := s.flatMap fun c => (escape c).toList

theorem toList_quote (s : String) : (quote s).toList = '"' :: (escapes s.toList ++ ['"']) := by
  simp [quote, escapes, String.toList_join, List.flatMap_map]

theorem coded?_padded : ∀ n < 0x20, (Text.padded 4 '0' n).length = 4 ∧
    coded? (Text.padded 4 '0' n) = some (Char.ofNat n) := by decide

/-- Each character is read from its escaped form. -/
theorem readQuoted_escape (c : Char) (rest : List Char) :
    readQuoted ((escape c).toList ++ rest) =
      (readQuoted rest).map fun (text, rest) => (c :: text, rest) := by
  unfold escape
  split
  case h_8 quote backslash _ _ _ _ _ =>
    -- Control characters without a letter of their own are given by number, others as they are.
    split_ifs with hsmall
    · obtain ⟨hlength, hcoded⟩ := coded?_padded c.toNat hsmall
      obtain ⟨p, q, r, s, hdigits⟩ := List.length_eq_four.mp hlength
      have htext : ("\\u" ++ Text.padLeft 4 '0' (Text.hexDigits c.toNat)).toList =
          ['\\', 'u', p, q, r, s] := by
        rw [String.toList_append, Text.toList_padLeft_hexDigits, hdigits]
        rfl
      rw [hdigits, Char.ofNat_toNat] at hcoded
      rw [htext]
      show (coded? [p, q, r, s]).bind _ = _
      rw [hcoded]
      rfl
    · rw [String.toList_singleton, List.singleton_append, readQuoted, if_neg hsmall]
      · exact quote
      · exact fun _ _ _ _ _ hc _ => backslash hc
      · exact fun _ _ hc _ => backslash hc
  all_goals rfl

theorem readQuoted_escapes (s rest : List Char) :
    readQuoted (escapes s ++ '"' :: rest) = some (s, rest) := by
  induction s with
  | nil => rfl
  | cons c s ih =>
    have hcons : escapes (c :: s) = (escape c).toList ++ escapes s := rfl
    rw [hcons, List.append_assoc, readQuoted_escape, ih]
    rfl

end Quotes

section Groups

/-- What comes next does not add to a number. -/
def Stops (rest : List Char) : Prop := ∀ c, rest.head? = some c → isNumeral c = false

theorem stops_cons {c : Char} (h : isNumeral c = false) (rest : List Char) : Stops (c :: rest) := by
  intro d hd
  rw [List.head?_cons, Option.some.injEq] at hd
  exact hd ▸ h

variable {α : Type} {close : Char} {item : List Char → Option (α × List Char)}
  {shown : α → List Char} {level outer n : Nat} {x : α} {xs : List α}

/-- Items on lines of their own, each behind a comma. -/
def tail (level : Nat) (shown : α → List Char) (xs : List α) : List Char :=
  xs.flatMap fun x => ',' :: ((lineBreak level).toList ++ shown x)

theorem length_le_tail (level : Nat) (shown : α → List Char) (xs : List α) :
    xs.length ≤ (tail level shown xs).length := by
  induction xs with
  | nil => exact Nat.zero_le _
  | cons x xs ih =>
    simp only [tail, List.flatMap_cons, List.length_append, List.length_cons] at *
    omega

theorem length_shown_le_tail (level : Nat) (shown : α → List Char) (hx : x ∈ xs) :
    (shown x).length ≤ (tail level shown xs).length := by
  obtain ⟨before, after, rfl⟩ := List.append_of_mem hx
  simp only [tail, List.flatMap_append, List.flatMap_cons, List.length_append, List.length_cons]
  omega

theorem stops_tail (level outer : Nat) (shown : α → List Char) (xs : List α) (rest : List Char) :
    Stops (tail level shown xs ++ ((lineBreak outer).toList ++ rest)) := by
  cases xs with
  | nil =>
    rw [toList_lineBreak]
    exact stops_cons (by decide) _
  | cons x xs => exact stops_cons (by decide) _

theorem readRest_tail (hclose : isSpace close = false) (hcomma : close ≠ ',')
    (hitem : ∀ x ∈ xs, ∀ rest, Stops rest →
      item ((lineBreak level).toList ++ (shown x ++ rest)) = some (x, rest))
    (hn : xs.length < n) (rest : List Char) :
    readRest close item n (tail level shown xs ++ ((lineBreak outer).toList ++ close :: rest)) =
      some (xs, rest) := by
  induction xs generalizing n with
  | nil =>
    obtain ⟨m, rfl⟩ := Nat.exists_eq_add_one_of_ne_zero (Nat.ne_of_gt hn)
    have hend : behind close ((lineBreak outer).toList ++ close :: rest) = some rest := by
      rw [behind_append (all_isSpace_lineBreak outer), behind_self hclose]
    rw [tail, List.flatMap_nil, List.nil_append, readRest, hend]
  | cons x xs ih =>
    obtain ⟨m, rfl⟩ := Nat.exists_eq_add_one_of_ne_zero (Nat.ne_of_gt (Nat.zero_lt_of_lt hn))
    have hothers : ∀ y ∈ xs, ∀ rest, Stops rest →
        item ((lineBreak level).toList ++ (shown y ++ rest)) = some (y, rest) :=
      fun y hy => hitem y (List.mem_cons_of_mem x hy)
    have hlength : xs.length < m := by
      rw [List.length_cons] at hn
      omega
    have htail : tail level shown (x :: xs) =
        ',' :: ((lineBreak level).toList ++ (shown x ++ tail level shown xs)) := by
      simp [tail]
    rw [htail, List.cons_append, readRest, behind_of_ne (by decide) (Ne.symm hcomma),
      behind_self (by decide)]
    simp only [List.append_assoc, Option.bind_some]
    rw [hitem x List.mem_cons_self _ (stops_tail _ _ _ _ _), Option.bind_some, ih hothers hlength]
    rfl

/-- Items between their brackets, without the opening one, and what follows the closing one. -/
def group (outer : Nat) (close : Char) (shown : α → List Char) (x : α) (xs : List α)
    (rest : List Char) : List Char :=
  (lineBreak (outer + 1)).toList ++ (shown x ++ (tail (outer + 1) shown xs ++
    ((lineBreak outer).toList ++ close :: rest)))

theorem length_lt_group (outer : Nat) (close : Char) (shown : α → List Char) (x : α) (xs : List α)
    (rest : List Char) : xs.length < (group outer close shown x xs rest).length := by
  have htail := length_le_tail (outer + 1) shown xs
  simp only [group, List.length_append, List.length_cons]
  omega

theorem length_shown_lt_group (outer : Nat) (close : Char) (shown : α → List Char) {y : α}
    (hy : y ∈ x :: xs) (rest : List Char) :
    (shown y).length < (group outer close shown x xs rest).length := by
  simp only [group, List.length_append, List.length_cons]
  rcases List.mem_cons.mp hy with rfl | hy
  · omega
  · have htail := length_shown_le_tail (outer + 1) shown hy
    omega

theorem readGroup_group (hclose : isSpace close = false) (hcomma : close ≠ ',')
    (hopen : ∀ s out, item s = some out → behind close s = none)
    (hitem : ∀ y ∈ x :: xs, ∀ rest, Stops rest →
      item ((lineBreak (outer + 1)).toList ++ (shown y ++ rest)) = some (y, rest))
    (hn : xs.length < n) (rest : List Char) :
    readGroup close item n (group outer close shown x xs rest) = some (x :: xs, rest) := by
  have hothers : ∀ y ∈ xs, ∀ rest, Stops rest →
      item ((lineBreak (outer + 1)).toList ++ (shown y ++ rest)) = some (y, rest) :=
    fun y hy => hitem y (List.mem_cons_of_mem x hy)
  have hrest : readRest close item n (tail (outer + 1) shown xs ++
      ((lineBreak outer).toList ++ close :: rest)) = some (xs, rest) :=
    readRest_tail hclose hcomma hothers hn rest
  have hfirst := hitem x List.mem_cons_self _ (stops_tail (outer + 1) outer shown xs (close :: rest))
  rw [group, readGroup, hopen _ _ hfirst, hfirst]
  show (readRest close item n _).map _ = _
  rw [hrest]
  rfl

end Groups

section Values

variable {n : Nat} {s rest : List Char}

theorem readValue_append (h : s.all isSpace = true) (n : Nat) (rest : List Char) :
    readValue n (s ++ rest) = readValue n rest := by
  cases n with
  | zero => rfl
  | succ n => rw [readValue, readValue, skip_append h]

theorem readField_append {α : Type} (value : List Char → Option (α × List Char))
    (h : s.all isSpace = true) (rest : List Char) :
    readField value (s ++ rest) = readField value rest := by
  rw [readField, readField, behind_append h]

/-- No value begins with a closing bracket. -/
theorem behind_of_readValue {close : Char} (hclose : close = ']' ∨ close = '\x7d')
    {out : Json × List Char} (h : readValue n s = some out) : behind close s = none := by
  cases n with
  | zero => cases h
  | succ n =>
    unfold readValue at h
    unfold behind
    cases hs : skip s with
    | nil => rfl
    | cons c t =>
      have hc : c ≠ close := by
        rintro rfl
        rw [hs] at h
        rcases hclose with rfl | rfl <;> cases h
      exact if_neg hc

theorem behind_of_readField {α : Type} {value : List Char → Option (α × List Char)} {close : Char}
    (hclose : '"' ≠ close) {out : (String × α) × List Char} (h : readField value s = some out) :
    behind close s = none := by
  cases hquote : behind '"' s with
  | none => simp [readField, hquote] at h
  | some rest => exact behind_eq_none_of_some hquote hclose

theorem readValue_quote (n : Nat) (text : String) (rest : List Char) :
    readValue (n + 1) ((quote text).toList ++ rest) = some (.string text, rest) := by
  rw [toList_quote, List.cons_append, List.append_assoc, List.singleton_append]
  show (readQuoted (escapes text.toList ++ '"' :: rest)).map _ = _
  rw [readQuoted_escapes]
  show some (Json.string (String.ofList text.toList), rest) = _
  rw [String.ofList_toList]

theorem not_isSpace_of_isNumeral {c : Char} (h : isNumeral c = true) : isSpace c = false := by
  cases hc : isSpace c with
  | false => rfl
  | true =>
    simp only [isSpace, Bool.or_eq_true, beq_iff_eq] at hc
    rcases hc with ((rfl | rfl) | rfl) | rfl <;> cases h

theorem takeWhile_append_of_stops {text : List Char} (htext : ∀ c ∈ text, isNumeral c = true)
    (hrest : Stops rest) : (text ++ rest).takeWhile isNumeral = text ∧
      (text ++ rest).dropWhile isNumeral = rest := by
  rw [List.takeWhile_append_of_pos htext, List.dropWhile_append_of_pos htext]
  cases rest with
  | nil => simp
  | cons c rest => simp [hrest c rfl]

theorem readValue_number {text : String} (hne : text.toList ≠ [])
    (htext : ∀ c ∈ text.toList, isNumeral c = true) (hrest : Stops rest) (n : Nat) :
    readValue (n + 1) (text.toList ++ rest) = some (.number text, rest) := by
  obtain ⟨htake, hdrop⟩ := takeWhile_append_of_stops htext hrest
  obtain ⟨c, others, hcons⟩ := List.exists_cons_of_ne_nil hne
  have hc : isNumeral c = true := htext c (by simp [hcons])
  have hother : ∀ d, isNumeral d = false → c ≠ d := by
    rintro d hd rfl
    simp [hc] at hd
  rw [hcons, List.cons_append] at htake hdrop
  rw [hcons, List.cons_append, readValue, skip_cons (not_isSpace_of_isNumeral hc)]
  dsimp only
  rw [if_neg (hother '"' (by decide)), if_neg (hother '[' (by decide)),
    if_neg (hother '\x7b' (by decide)), if_pos hc, htake, hdrop, ← hcons, String.ofList_toList]

theorem readField_quote {α : Type} {value : List Char → Option (α × List Char)} {x : α}
    {shown : List Char} (h : value (' ' :: (shown ++ rest)) = some (x, rest)) (key : String) :
    readField value ((quote key).toList ++ (':' :: ' ' :: shown ++ rest)) =
      some ((key, x), rest) := by
  rw [toList_quote, List.cons_append, List.append_assoc, List.singleton_append, readField,
    behind_self (by decide), Option.bind_some, readQuoted_escapes, Option.bind_some]
  dsimp only
  rw [List.cons_append, behind_self (by decide), Option.bind_some, List.cons_append, h,
    Option.map_some, String.ofList_toList]

end Values

section Rendered

/-- Documents whose numbers are written in the characters of numbers. -/
inductive Legible : Json → Prop
  | null : Legible .null
  | bool (b : Bool) : Legible (.bool b)
  | number {text : String} : text.toList ≠ [] → (∀ c ∈ text.toList, isNumeral c = true) →
    Legible (.number text)
  | string (s : String) : Legible (.string s)
  | list {items : List Json} : (∀ x ∈ items, Legible x) → Legible (.list items)
  | record {fields : List (String × Json)} : (∀ f ∈ fields, Legible f.2) →
    Legible (.record fields)

def shownItem (level : Nat) (x : Json) : List Char := (renderAt level x).toList

def shownField (level : Nat) (field : String × Json) : List Char :=
  (quote field.1).toList ++ ':' :: ' ' :: (renderAt level field.2).toList

theorem toList_renderItems (level : Nat) (items : List Json) :
    (renderItems level items).toList = tail level (shownItem level) items := by
  induction items with
  | nil => rfl
  | cons x xs ih => simp [renderItems, ih, tail, shownItem]

theorem toList_renderFields (level : Nat) (fields : List (String × Json)) :
    (renderFields level fields).toList = tail level (shownField level) fields := by
  induction fields with
  | nil => rfl
  | cons f fields ih =>
    obtain ⟨key, x⟩ := f
    simp [renderFields, ih, tail, shownField]

theorem toList_renderAt_list (level : Nat) (x : Json) (xs : List Json) (rest : List Char) :
    (renderAt level (.list (x :: xs))).toList ++ rest =
      '[' :: group level ']' (shownItem (level + 1)) x xs rest := by
  simp [renderAt, toList_renderItems, shownItem, group]

theorem toList_renderAt_record (level : Nat) (f : String × Json) (fields : List (String × Json))
    (rest : List Char) : (renderAt level (.record (f :: fields))).toList ++ rest =
      '\x7b' :: group level '\x7d' (shownField (level + 1)) f fields rest := by
  obtain ⟨key, x⟩ := f
  simp [renderAt, toList_renderFields, shownField, group]

theorem readValue_list {level n : Nat} {x : Json} {xs : List Json} (hn : xs.length < n)
    (hitem : ∀ y ∈ x :: xs, ∀ rest, Stops rest →
      readValue n ((renderAt (level + 1) y).toList ++ rest) = some (y, rest)) (rest : List Char) :
    readValue (n + 1) ((renderAt level (.list (x :: xs))).toList ++ rest) =
      some (.list (x :: xs), rest) := by
  have hshown : ∀ y ∈ x :: xs, ∀ rest, Stops rest → readValue n
      ((lineBreak (level + 1)).toList ++ (shownItem (level + 1) y ++ rest)) = some (y, rest) := by
    intro y hy rest hrest
    rw [readValue_append (all_isSpace_lineBreak _)]
    exact hitem y hy rest hrest
  have hgroup : readGroup ']' (readValue n) n (group level ']'
      (shownItem (level + 1)) x xs rest) = some (x :: xs, rest) :=
    readGroup_group (by decide) (by decide) (fun s out => behind_of_readValue (.inl rfl)) hshown hn
      rest
  rw [toList_renderAt_list]
  show (readGroup ']' (readValue n) n _).map _ = _
  rw [hgroup]
  rfl

theorem readValue_record {level n : Nat} {f : String × Json} {fields : List (String × Json)}
    (hn : fields.length < n) (hvalue : ∀ g ∈ f :: fields, ∀ rest, Stops rest →
      readValue n ((renderAt (level + 1) g.2).toList ++ rest) = some (g.2, rest))
    (rest : List Char) :
    readValue (n + 1) ((renderAt level (.record (f :: fields))).toList ++ rest) =
      some (.record (f :: fields), rest) := by
  have hshown : ∀ g ∈ f :: fields, ∀ rest, Stops rest → readField (readValue n)
      ((lineBreak (level + 1)).toList ++ (shownField (level + 1) g ++ rest)) = some (g, rest) := by
    intro g hg rest hrest
    have hspace : [' '].all isSpace = true := rfl
    rw [readField_append _ (all_isSpace_lineBreak _), shownField, List.append_assoc]
    apply readField_quote
    exact (readValue_append hspace n _).trans (hvalue g hg rest hrest)
  have hgroup : readGroup '\x7d' (readField (readValue n)) n (group level '\x7d'
      (shownField (level + 1)) f fields rest) = some (f :: fields, rest) :=
    readGroup_group (by decide) (by decide) (fun s out => behind_of_readField (by decide)) hshown hn
      rest
  rw [toList_renderAt_record]
  show (readGroup '\x7d' (readField (readValue n)) n _).map _ = _
  rw [hgroup]
  rfl

theorem length_renderAt_list (level : Nat) (x : Json) (xs : List Json) :
    (renderAt level (.list (x :: xs))).toList.length =
      (group level ']' (shownItem (level + 1)) x xs []).length + 1 := by
  rw [← List.length_cons, ← toList_renderAt_list, List.append_nil]

theorem length_renderAt_record (level : Nat) (f : String × Json) (fields : List (String × Json)) :
    (renderAt level (.record (f :: fields))).toList.length =
      (group level '\x7d' (shownField (level + 1)) f fields []).length + 1 := by
  rw [← List.length_cons, ← toList_renderAt_record, List.append_nil]

/-- The indented form of a document is read as the document, at any level and whatever follows. Its
length is depth enough: what stands in a group is shorter than the group. -/
theorem readValue_renderAt {j : Json} (h : Legible j) {level n : Nat} {rest : List Char}
    (hn : (renderAt level j).toList.length ≤ n) (hrest : Stops rest) :
    readValue (n + 1) ((renderAt level j).toList ++ rest) = some (j, rest) := by
  induction h generalizing level n rest with
  | null =>
    rw [renderAt]
    rfl
  | bool b =>
    rw [renderAt]
    cases b <;> rfl
  | number hne htext =>
    rw [renderAt]
    exact readValue_number hne htext hrest n
  | string s =>
    rw [renderAt]
    exact readValue_quote n s rest
  | @list items _ ih =>
    cases items with
    | nil =>
      rw [renderAt]
      rfl
    | cons x xs =>
      have hcount := length_lt_group level ']' (shownItem (level + 1)) x xs []
      rw [length_renderAt_list] at hn
      obtain ⟨m, rfl⟩ := Nat.exists_eq_add_one_of_ne_zero (Nat.ne_zero_of_lt hn)
      apply readValue_list (by omega)
      intro y hy rest hrest
      have hlength := length_shown_lt_group level ']' (shownItem (level + 1)) hy []
      rw [shownItem] at hlength
      exact ih y hy (by omega) hrest
  | @record fields _ ih =>
    cases fields with
    | nil =>
      rw [renderAt]
      rfl
    | cons f fields =>
      have hcount := length_lt_group level '\x7d' (shownField (level + 1)) f fields []
      rw [length_renderAt_record] at hn
      obtain ⟨m, rfl⟩ := Nat.exists_eq_add_one_of_ne_zero (Nat.ne_zero_of_lt hn)
      apply readValue_record (by omega)
      intro g hg rest hrest
      have hlength := length_shown_lt_group level '\x7d' (shownField (level + 1)) hg []
      rw [shownField, List.length_append, List.length_cons, List.length_cons] at hlength
      exact ih g hg (by omega) hrest

theorem read?_render {j : Json} (h : Legible j) : read? (j.render ++ "\n") = some j := by
  have hrest : Stops ['\n'] := stops_cons (by decide) []
  have htext : (j.render ++ "\n").toList = (renderAt 0 j).toList ++ ['\n'] := by
    rw [String.toList_append]
    rfl
  rw [read?, htext, List.length_append, List.length_singleton, readValue_renderAt h le_rfl hrest]
  rfl

/-- Another layout, with a character given by its number. -/
example : read? "[ 1,\n \x7b\"a\\u0041\" : [true,null]\x7d]" =
    some (.list [.number "1", .record [("aA", .list [.bool true, .null])]]) := by rfl

example : read? "[1,]" = none := by rfl

end Rendered

end Rewind.Json
