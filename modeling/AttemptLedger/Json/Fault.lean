import AttemptLedger.Decimal.Shortest
import AttemptLedger.Json.Value
import AttemptLedger.Positions
import AttemptLedger.Text.Quoted

/-!
# What can be wrong with a document

The reasons for which a document is not a batch, with their wording: what was found where something
else was wanted, fields that stand twice or are missing, and texts or values that are no integers.
-/

namespace AttemptLedger.Json

inductive Found
  | null
  | bool (value : Bool)
  | integer (value : Int)
  | float (value : Float)
  | text (content : String)
  | sequence
  | map

inductive Fault
  | invalidSyntax
  | wrongType (found : Found) (wanted : String)
  | duplicateField (name : String)
  | missingField (name : String)
  | tooFewItems (count : Nat) (record : String) (fields : Nat)
  | notInteger (text : String)
  | noVariant (choice : String)
  | flagOutOfRange (position : Nat)

/-- The exponent behind its letter: always a sign, and no more digits than needed. -/
def exponentText (exponent : Int) : List Char :=
  (if exponent < 0 then '-' else '+') :: Nat.toDigits 10 exponent.natAbs

/-- Significant digits with the exponent of the first one: positional for exponents from -5 to 15,
always with a point; scientific otherwise, with a point only between digits. -/
def floatDigits (digits : List Char) (exponent : Int) : List Char :=
  if 0 ≤ exponent ∧ exponent ≤ 15 then
    let before := exponent.toNat + 1
    if digits.length ≤ before then
      digits ++ List.replicate (before - digits.length) '0' ++ ['.', '0']
    else digits.take before ++ '.' :: digits.drop before
  else if -5 ≤ exponent ∧ exponent < 0 then
    '0' :: '.' :: List.replicate ((-exponent).toNat - 1) '0' ++ digits
  else
    match digits with
    | [digit] => digit :: 'e' :: exponentText exponent
    | digit :: digits => digit :: '.' :: digits ++ 'e' :: exponentText exponent
    | [] => []

def floatText (x : Float) : String :=
  match Decimal.Meaning.ofFloat x with
  | .nan => "NaN"
  | .infinite negative => if negative then "-inf" else "inf"
  | .finite value =>
    let sign := if value.negative then ['-'] else []
    if value.mantissa = 0 then String.ofList (sign ++ ['0', '.', '0'])
    else
      let (digits, exponent) := value.shortest.significant
      String.ofList (sign ++ floatDigits digits exponent)

def Found.message : Found → String
  | .null => "null"
  | .bool true => "boolean `true`"
  | .bool false => "boolean `false`"
  | .integer value => "integer `" ++ toString value ++ "`"
  | .float value => "floating point `" ++ floatText value ++ "`"
  | .text content => "string " ++ Text.quoted content
  | .sequence => "sequence"
  | .map => "map"

def Fault.message : Fault → String
  | .invalidSyntax => "invalid JSON"
  | .wrongType found wanted => "invalid type: " ++ found.message ++ ", expected " ++ wanted
  | .duplicateField name => "duplicate field `" ++ name ++ "`"
  | .missingField name => "missing field `" ++ name ++ "`"
  | .tooFewItems count record fields =>
    "invalid length " ++ Text.ofNat count ++ ", expected struct " ++ record ++ " with "
      ++ Text.ofNat fields ++ (if fields = 1 then " element" else " elements")
  | .notInteger text => "expected an integer, got " ++ Text.quoted text
  | .noVariant choice => "data did not match any variant of untagged enum " ++ choice
  | .flagOutOfRange position => PositionSet.outOfRange position

/-- Whether the fault lies in the text itself and not in what it says. -/
def Fault.isSyntactic : Fault → Bool
  | .invalidSyntax => true
  | _ => false

end AttemptLedger.Json
