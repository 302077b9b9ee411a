import Rewind.Json
import Rewind.Policy

/-!
Listings of an address space: one line, or one record, for each piece that a policy makes of the
regions, in the order of the pieces, with the piece's verdict.
-/
namespace Rewind.Maps

/-- The line of one piece: the region padded to a column, then the verdict. -/
def listingLine (piece : Region × Verdict) : String :=
  Text.padRight 100 ' ' piece.1.line ++ " # " ++ piece.2.text ++ "\n"

def monitoredBytes : List (Region × Verdict) → Nat → Except Fault Nat
  | [], total => .ok total
  | (r, verdict) :: rest, total =>
    if verdict = .monitored then do
      let total ← Word.add total r.size
      monitoredBytes rest total
    else monitoredBytes rest total

/-- The last line: how many pieces, and how much memory a harness would monitor. -/
def summaryLine (pieces bytes : Nat) : String :=
  s!"{pieces} region(s), {bytes / 1024} KiB would be monitored\n"

def listing (policy : Policy) (regions : List Region) : Except Fault String := do
  let pieces ← policy.classify regions
  let bytes ← monitoredBytes pieces 0
  return String.join (pieces.map listingLine) ++ summaryLine pieces.length bytes

/-- The fields of the record of one piece. -/
def listingFields (piece : Region × Verdict) : List (String × Json) :=
  [("start", .nat piece.1.start), ("end", .nat piece.1.stop),
    ("perms", .string piece.1.permissions), ("backing", .string piece.1.backing.name),
    ("verdict", .string piece.2.text)]

def listingRecords (policy : Policy) (regions : List Region) :
    Except Fault (List (List (String × Json))) := do
  let pieces ← policy.classify regions
  return pieces.map listingFields

def listingJson (policy : Policy) (regions : List Region) : Except Fault String := do
  let records ← listingRecords policy regions
  return (Json.list (records.map .record)).render ++ "\n"

def listingAs (json : Bool) (policy : Policy) (regions : List Region) : Except Fault String :=
  if json then listingJson policy regions else listing policy regions

end Rewind.Maps
