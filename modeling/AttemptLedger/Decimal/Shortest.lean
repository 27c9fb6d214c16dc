import AttemptLedger.Decimal.Binary

/-!
# The shortest decimal of a float

Of the decimals that lie closer to a float than to its neighbours, the one with the fewest digits
is taken, and of several with that many digits the nearest. The search runs over decimal grids from
coarse to fine; on each grid only the two points around the value can qualify.
-/

namespace AttemptLedger.Decimal

structure Scaled where
  digits : Nat
  exponent : Int
  deriving DecidableEq, Repr

def Scaled.fraction (x : Scaled) : Nat × Nat :=
  if 0 ≤ x.exponent then (x.digits * Nat.pow 10 x.exponent.toNat, 1)
  else (x.digits, Nat.pow 10 (-x.exponent).toNat)

/-- The reals that round to a float, in quarters of its last place: from `low` to `high` around
`4 * mantissa`, the ends included iff the mantissa is even. -/
structure Neighbourhood where
  low : Nat
  high : Nat
  exponent : Int
  closed : Bool

/-- The neighbourhood of a positive float; below a power of two the next float is half as far. -/
def Binary.neighbourhood (x : Binary) : Neighbourhood where
  low := if x.mantissa = 1 <<< 52 ∧ x.exponent ≠ -1074 then 4 * x.mantissa - 1 else 4 * x.mantissa - 2
  high := 4 * x.mantissa + 2
  exponent := x.exponent - 2
  closed := x.mantissa % 2 = 0

def Neighbourhood.contains (area : Neighbourhood) (x : Scaled) : Bool :=
  let low := (Binary.mk false area.low area.exponent).fraction
  let high := (Binary.mk false area.high area.exponent).fraction
  let point := x.fraction
  if area.closed then
    low.1 * point.2 ≤ point.1 * low.2 && point.1 * high.2 ≤ high.1 * point.2
  else
    low.1 * point.2 < point.1 * low.2 && point.1 * high.2 < high.1 * point.2

def leadingExponent (num den : Nat) : Int :=
  if den ≤ num then ((Nat.toDigits 10 (num / den)).length : Int) - 1
  else
    match (List.range 400).find? fun k => den ≤ num * Nat.pow 10 (k + 1) with
    | some k => -(k : Int) - 1
    | none => -400

/-- The two points of the grid of multiples of `10 ^ exponent` around `num / den`, the nearer one
first and at the same distance the even one first. -/
def around (num den : Nat) (exponent : Int) : Scaled × Scaled :=
  let scale : Nat × Nat :=
    if 0 ≤ exponent then (num, den * Nat.pow 10 exponent.toNat)
    else (num * Nat.pow 10 (-exponent).toNat, den)
  let below := scale.1 / scale.2
  let rest := 2 * (scale.1 % scale.2)
  if rest < scale.2 ∨ (rest = scale.2 ∧ below % 2 = 0) then (⟨below, exponent⟩, ⟨below + 1, exponent⟩)
  else (⟨below + 1, exponent⟩, ⟨below, exponent⟩)

/-- The decimal of a positive float on the first of the given grids that has one. -/
def Binary.onGrids (x : Binary) : List Int → Option Scaled
  | [] => none
  | exponent :: finer =>
    let points := around x.fraction.1 x.fraction.2 exponent
    if x.neighbourhood.contains points.1 then some points.1
    else if x.neighbourhood.contains points.2 then some points.2
    else x.onGrids finer

/-- The shortest decimal of a positive float; seventeen digits always suffice. -/
def Binary.shortest (x : Binary) : Scaled :=
  let lead := leadingExponent x.fraction.1 x.fraction.2
  (x.onGrids ((List.range 17).map fun places : Nat => lead - places)).getD
    (around x.fraction.1 x.fraction.2 (lead - 16)).1

def stripZeros (digits : List Char) : List Char × Nat :=
  let kept := (digits.reverse.dropWhile (· == '0')).reverse
  (kept, digits.length - kept.length)

def Scaled.significant (x : Scaled) : List Char × Int :=
  let digits := Nat.toDigits 10 x.digits
  ((stripZeros digits).1, x.exponent + (digits.length : Int) - 1)

end AttemptLedger.Decimal
