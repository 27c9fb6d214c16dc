/-!
# Comma separated values

Records of fields between commas, each record ended by a line feed. A field is quoted if it holds a
comma, a quote or the end of a line; inside quotes a quote is written twice. Records of different
lengths are not written.
-/

namespace AttemptLedger.Csv

def needsQuotes (cs : List Char) : Bool :=
  cs.any fun c => c == ',' || c == '"' || c == '\n' || c == '\r'

def quotedChar (c : Char) : List Char := if c = '"' then ['"', '"'] else [c]

def field (cs : List Char) : List Char :=
  if needsQuotes cs then '"' :: cs.flatMap quotedChar ++ ['"'] else cs

/-- A record of at least two fields, or of one that is not empty. -/
def record : List String → List Char
  | [] => ['\n']
  | [last] => field last.toList ++ ['\n']
  | first :: rest => field first.toList ++ ',' :: record rest

def print (records : List (List String)) : String := String.ofList (records.flatMap record)

/-- Writes records as long as each has as many fields as the one before. -/
def writeAll (width : Option Nat) : List (List String) → Option (List Char)
  | [] => some []
  | fields :: records =>
    if width.getD fields.length = fields.length then
      (writeAll (some fields.length) records).map (record fields ++ ·)
    else none

def write? (records : List (List String)) : Option String := (writeAll none records).map String.ofList

end AttemptLedger.Csv
