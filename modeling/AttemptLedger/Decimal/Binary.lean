/-!
# Binary floating point as exact numbers

A finite 64-bit float is a sign and `mantissa * 2 ^ exponent`, read off its bits. Decimal forms are
computed from this pair in exact arithmetic.
-/

namespace AttemptLedger.Decimal

/-- A finite binary number `mantissa * 2 ^ exponent` with a sign; zero keeps its sign. -/
structure Binary where
  negative : Bool
  mantissa : Nat
  exponent : Int
  deriving DecidableEq, Repr

inductive Meaning
  | nan
  | infinite (negative : Bool)
  | finite (value : Binary)
  deriving DecidableEq, Repr

/-- The meaning of 64 float bits: one sign bit, eleven exponent bits, fifty-two fraction bits. -/
def Meaning.ofBits (bits : Nat) : Meaning :=
  let negative : Bool := bits >>> 63 % 2 == 1
  let exponent : Nat := bits >>> 52 % 2048
  let fraction := bits % (1 <<< 52)
  if exponent = 2047 then (if fraction = 0 then .infinite negative else .nan)
  else if exponent = 0 then .finite ⟨negative, fraction, -1074⟩
  else .finite ⟨negative, (1 <<< 52) + fraction, Int.ofNat exponent - 1075⟩

def Meaning.ofFloat (x : Float) : Meaning := .ofBits x.toBits.toNat

/-- The magnitude as a fraction of two natural numbers, the second positive. -/
def Binary.fraction (x : Binary) : Nat × Nat :=
  if 0 ≤ x.exponent then (x.mantissa <<< x.exponent.toNat, 1)
  else (x.mantissa, 1 <<< (-x.exponent).toNat)

end AttemptLedger.Decimal
