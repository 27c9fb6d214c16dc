import AttemptLedger.Decimal.Binary

/-!
# Decimals with a fixed number of places

A number is rounded to the nearest multiple of a power of ten, from its exact value; a value halfway
between two multiples goes to the even one. The sign is kept also where the digits are all zero.
-/

namespace AttemptLedger.Decimal

/-- The natural number nearest to `num / den`; of two at the same distance, the even one. -/
def roundToEven (num den : Nat) : Nat :=
  let floor := num / den
  let rest := 2 * (num % den)
  if rest < den then floor
  else if den < rest then floor + 1
  else if floor % 2 = 0 then floor
  else floor + 1

def padLeft (width : Nat) (digits : List Char) : List Char :=
  List.replicate (width - digits.length) '0' ++ digits

def signed (negative : Bool) (digits : List Char) : List Char :=
  if negative then '-' :: digits else digits

def Binary.fixed (places : Nat) (x : Binary) : List Char :=
  let scaled := roundToEven (x.fraction.1 * Nat.pow 10 places) x.fraction.2
  signed x.negative
    (Nat.toDigits 10 (scaled / Nat.pow 10 places) ++ '.'
      :: padLeft places (Nat.toDigits 10 (scaled % Nat.pow 10 places)))

def fixed (places : Nat) (x : Float) : String :=
  match Meaning.ofFloat x with
  | .nan => "NaN"
  | .infinite negative => String.ofList (signed negative ['i', 'n', 'f'])
  | .finite value => String.ofList (value.fixed places)

end AttemptLedger.Decimal
