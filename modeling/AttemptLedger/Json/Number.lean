import AttemptLedger.Text.Integer

/-!
# Number literals

A number literal is kept as it is written. Where its value is used, a literal without fraction and
exponent in the range of 64-bit integers is an integer; any other is a float, computed from the
leading digits that fit a machine word and a power of ten.
-/

namespace AttemptLedger.Json

/-- A number literal: sign, digits before the point, digits behind it, and exponent. -/
structure Number where
  negative : Bool := false
  whole : Nat
  fraction : List Nat := []
  exponent : Option Int := none
  deriving DecidableEq, Repr

inductive Reading
  | integer (value : Int)
  | float (value : Float)

namespace Number

def ofInt (n : Int) : Number := { negative := n < 0, whole := n.natAbs }

/-- The longest leading part of a number that fits a machine word, and how many digits it lacks. -/
def leadingWord (n : Nat) : Nat × Nat :=
  if n < UInt64.size then (n, 0)
  else
    let (word, dropped) := leadingWord (n / 10)
    (word, dropped + 1)
termination_by n
decreasing_by
  have hLarge : 18446744073709551616 ≤ n := Nat.le_of_not_lt ‹¬n < UInt64.size›
  omega

/-- Appends digits behind the point as long as the number fits a machine word. -/
def appendFraction (word : Nat) (exponent : Int) : List Nat → Nat × Int
  | [] => (word, exponent)
  | digit :: digits =>
    if word * 10 + digit < UInt64.size then appendFraction (word * 10 + digit) (exponent - 1) digits
    else (word, exponent)

def scaled (n : Number) : Nat × Int :=
  let (word, dropped) := leadingWord n.whole
  appendFraction word dropped n.fraction

def powerOfTen (exponent : Nat) : Float := Float.ofScientific 1 false exponent

/-- Divides by a power of ten, at most `10 ^ 308` at a time, until nothing is left of the float. -/
def scaleDown (x : Float) (exponent : Nat) : Float :=
  if exponent ≤ 308 then x / powerOfTen exponent
  else if x == 0 then x
  else scaleDown (x / powerOfTen 308) (exponent - 308)
termination_by exponent

def magnitude? (significand : Nat) (exponent : Int) : Option Float :=
  let x := significand.toUInt64.toFloat
  if exponent < 0 then some (scaleDown x (-exponent).toNat)
  else if exponent ≤ 308 then
    let scaled := x * powerOfTen exponent.toNat
    if scaled.isInf then none else some scaled
  else if significand = 0 then some x
  else none

/-- The float of a literal; an exponent beyond 32 bits leaves zero or nothing. -/
def float? (n : Number) : Option Float :=
  let (significand, exponent) := n.scaled
  let given := n.exponent.getD 0
  let magnitude :=
    if Int32.minValue.toInt < given ∧ given ≤ Int32.maxValue.toInt then magnitude? significand (exponent + given)
    else if significand ≠ 0 ∧ 0 < given then none
    else some 0
  magnitude.map fun x => if n.negative then -x else x

/-- The integer that a literal without fraction and exponent stands for; minus zero is none. -/
def integer? (n : Number) : Option Int :=
  if n.fraction ≠ [] ∨ n.exponent.isSome then none
  else if n.negative then
    if 0 < n.whole ∧ n.whole ≤ Int64.minValue.toInt.natAbs then some (-(n.whole : Int)) else none
  else if n.whole < UInt64.size then some n.whole
  else none

def reading? (n : Number) : Option Reading :=
  match n.integer? with
  | some value => some (.integer value)
  | none => n.float?.map .float

theorem integer?_ofInt (n : Int64) : (ofInt n.toInt).integer? = some n.toInt := by
  have hLow := n.le_toInt
  have hHigh := n.toInt_lt
  have hMin : Int64.minValue.toInt.natAbs = 9223372036854775808 := by decide
  unfold integer? ofInt
  rw [if_neg (by simp)]
  by_cases h : n.toInt < 0
  · have hRange : 0 < n.toInt.natAbs ∧ n.toInt.natAbs ≤ Int64.minValue.toInt.natAbs := by omega
    have hValue : -(n.toInt.natAbs : Int) = n.toInt := by omega
    rw [if_pos (by exact decide_eq_true h), if_pos hRange, hValue]
  · have hRange : n.toInt.natAbs < UInt64.size := by
      show n.toInt.natAbs < 18446744073709551616
      omega
    have hValue : (n.toInt.natAbs : Int) = n.toInt := by omega
    rw [if_neg (by exact fun hNegative => h (of_decide_eq_true hNegative)), if_pos hRange, hValue]

end Number

end AttemptLedger.Json
