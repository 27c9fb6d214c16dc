import AttemptLedger.Text.Blank

/-!
# Integers given as text

A decimal integer is an optional sign followed by one or more ASCII digits; leading zeros are
allowed and blanks around it are not part of it. Main definitions: the value of such a text in the
range of signed 64-bit integers, and of a text without minus sign in the range of machine words.
-/

namespace AttemptLedger.Text

def digitValue (c : Char) : Nat := c.toNat - '0'.toNat

def digitsValue (cs : List Char) : Nat :=
  cs.foldl (fun value c => 10 * value + digitValue c) 0

def natural? (cs : List Char) : Option Nat :=
  if cs ≠ [] ∧ cs.all Char.isDigit then some (digitsValue cs) else none

def integer? : List Char → Option Int
  | '+' :: cs => (natural? cs).map Int.ofNat
  | '-' :: cs => (natural? cs).map fun n => -Int.ofNat n
  | cs => (natural? cs).map Int.ofNat

def unsigned? : List Char → Option Nat
  | '+' :: cs => natural? cs
  | cs => natural? cs

def int64OfInt? (n : Int) : Option Int64 :=
  if Int64.minValue.toInt ≤ n ∧ n ≤ Int64.maxValue.toInt then some (Int64.ofInt n) else none

/-- The signed 64-bit integer that a text spells, blanks around it ignored. -/
def int64? (s : String) : Option Int64 :=
  (integer? (trimChars s.toList)).bind int64OfInt?

/-- The number below 2^64 that a text spells without a minus sign, blanks around it ignored. -/
def word? (s : String) : Option Nat :=
  match unsigned? (trimChars s.toList) with
  | some n => if n < UInt64.size then some n else none
  | none => none

def ofNat (n : Nat) : String := toString n

def ofInt64 (n : Int64) : String := toString n.toInt

end AttemptLedger.Text
