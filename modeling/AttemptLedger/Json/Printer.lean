import AttemptLedger.Json.Value
import AttemptLedger.Text.Quoted

/-!
# Documents as text

The text of a document over several lines: two spaces for each level, one item or member on a line,
a colon and a space behind a key. Only quotes, backslashes and controls are escaped in texts.
-/

namespace AttemptLedger.Json

def escapedChar (c : Char) : List Char :=
  match c with
  | '"' => ['\\', '"']
  | '\\' => ['\\', '\\']
  | '\x08' => ['\\', 'b']
  | '\x0c' => ['\\', 'f']
  | '\n' => ['\\', 'n']
  | '\r' => ['\\', 'r']
  | '\t' => ['\\', 't']
  | c =>
    if c.toNat < 0x20 then
      ['\\', 'u', '0', '0', Nat.digitChar (c.toNat / 16), Nat.digitChar (c.toNat % 16)]
    else [c]

def escaped (text : String) : List Char := '"' :: text.toList.flatMap escapedChar ++ ['"']

def newLine (level : Nat) : List Char := '\n' :: List.replicate (2 * level) ' '

def Number.print (literal : Number) : List Char :=
  (if literal.negative then ['-'] else []) ++ Nat.toDigits 10 literal.whole
    ++ (if literal.fraction = [] then [] else '.' :: literal.fraction.map Nat.digitChar)
    ++ match literal.exponent with
      | none => []
      | some e => 'e' :: (if e < 0 then ['-'] else []) ++ Nat.toDigits 10 e.natAbs

namespace Value

mutual

def print (level : Nat) : Value → List Char
  | .null => ['n', 'u', 'l', 'l']
  | .bool true => ['t', 'r', 'u', 'e']
  | .bool false => ['f', 'a', 'l', 's', 'e']
  | .number literal => literal.print
  | .text content => escaped (content.getD "")
  | .array [] _ => ['[', ']']
  | .array (item :: items) _ =>
    '[' :: newLine (level + 1) ++ item.print (level + 1) ++ printItems (level + 1) items
      ++ newLine level ++ [']']
  | .object [] _ => ['\x7b', '\x7d']
  | .object ((key, value) :: members) _ =>
    '\x7b' :: newLine (level + 1) ++ escaped (key.getD "") ++ [':', ' '] ++ value.print (level + 1)
      ++ printMembers (level + 1) members ++ newLine level ++ ['\x7d']
  | .broken => []

/-- Further items at a level, each behind a comma. -/
def printItems (level : Nat) : List Value → List Char
  | [] => []
  | item :: items => ',' :: newLine level ++ item.print level ++ printItems level items

def printMembers (level : Nat) : List (Option String × Value) → List Char
  | [] => []
  | (key, value) :: members =>
    ',' :: newLine level ++ escaped (key.getD "") ++ [':', ' '] ++ value.print level
      ++ printMembers level members

end

end Value

end AttemptLedger.Json
