import Rewind.Text.Layout

/-!
JSON documents and their indented form: two spaces a level, a space after a colon, and nothing
between the brackets of an empty list or record. Numbers carry their text.
-/
namespace Rewind

inductive Json where
  | null
  | bool (b : Bool)
  | number (text : String)
  | string (s : String)
  | list (items : List Json)
  | record (fields : List (String × Json))
  deriving Inhabited

namespace Json

def nat (n : Nat) : Json := .number (toString n)

/-- Inside quotes, control characters, quotes and backslashes are escaped, and nothing else. -/
def escape (c : Char) : String :=
  match c with
  | '"' => "\\\""
  | '\\' => "\\\\"
  | '\n' => "\\n"
  | '\r' => "\\r"
  | '\t' => "\\t"
  | '\x08' => "\\b"
  | '\x0c' => "\\f"
  | _ => if c.toNat < 0x20 then "\\u" ++ Text.padLeft 4 '0' (Text.hexDigits c.toNat)
    else String.singleton c

def quote (s : String) : String := "\"" ++ String.join (s.toList.map escape) ++ "\""

/-- A line break and the indentation of a level. -/
def lineBreak (level : Nat) : String := "\n" ++ String.ofList (List.replicate (2 * level) ' ')

mutual

/-- The indented form of a document that stands at the given level. -/
def renderAt (level : Nat) : Json → String
  | .null => "null"
  | .bool b => if b then "true" else "false"
  | .number text => text
  | .string s => quote s
  | .list [] => "[]"
  | .list (x :: xs) =>
    "[" ++ lineBreak (level + 1) ++ renderAt (level + 1) x ++ renderItems (level + 1) xs ++
      lineBreak level ++ "]"
  | .record [] => "\x7b\x7d"
  | .record ((key, x) :: xs) =>
    "\x7b" ++ lineBreak (level + 1) ++ quote key ++ ": " ++ renderAt (level + 1) x ++
      renderFields (level + 1) xs ++ lineBreak level ++ "\x7d"

def renderItems (level : Nat) : List Json → String
  | [] => ""
  | x :: xs => "," ++ lineBreak level ++ renderAt level x ++ renderItems level xs

def renderFields (level : Nat) : List (String × Json) → String
  | [] => ""
  | (key, x) :: xs =>
    "," ++ lineBreak level ++ quote key ++ ": " ++ renderAt level x ++ renderFields level xs

end

def render (j : Json) : String := renderAt 0 j

end Rewind.Json
