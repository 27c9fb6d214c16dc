import AttemptLedger.Text.Hidden

/-!
# Quoted text

A text as it is shown inside a message: between double quotes, with the quote and the backslash
escaped, the four common controls by letter, and every other character that would not be visible on
its own by its code point in hexadecimal.
-/

namespace AttemptLedger.Text

def hexDigits (n : Nat) : List Char := Nat.toDigits 16 n

def quotedChar (c : Char) : List Char :=
  match c with
  | '\x00' => ['\\', '0']
  | '\t' => ['\\', 't']
  | '\r' => ['\\', 'r']
  | '\n' => ['\\', 'n']
  | '"' => ['\\', '"']
  | '\\' => ['\\', '\\']
  | c => if Hidden.isHidden c then ['\\', 'u', '\x7b'] ++ hexDigits c.toNat ++ ['\x7d'] else [c]

/-- A text between double quotes, with everything invisible spelled out. -/
def quoted (s : String) : String :=
  String.ofList ('"' :: s.toList.flatMap quotedChar ++ ['"'])

end AttemptLedger.Text
