import AttemptLedger.Positions

/-!
# What can be wrong with a message

The wire types of the binary form, and the reasons for which a byte string is not a message.
-/

namespace AttemptLedger.Wire

/-- How the payload of a record is laid out: the low three bits of its tag. -/
inductive WireType
  | varint
  | fixed64
  | delimited
  | groupStart
  | groupEnd
  | fixed32
  | reserved6
  | reserved7
  deriving DecidableEq, Repr

def WireType.ofTag (tag : Nat) : WireType :=
  match tag % 8 with
  | 0 => .varint
  | 1 => .fixed64
  | 2 => .delimited
  | 3 => .groupStart
  | 4 => .groupEnd
  | 5 => .fixed32
  | 6 => .reserved6
  | _ => .reserved7

def WireType.code : WireType → Nat
  | .varint => 0
  | .fixed64 => 1
  | .delimited => 2
  | .groupStart => 3
  | .groupEnd => 4
  | .fixed32 => 5
  | .reserved6 => 6
  | .reserved7 => 7

theorem WireType.ofTag_code (wireType : WireType) (field : Nat) :
    WireType.ofTag (field * 8 + wireType.code) = wireType := by
  cases wireType <;> simp [ofTag, code, Nat.add_mod]

theorem WireType.code_ofTag (tag : Nat) : (WireType.ofTag tag).code = tag % 8 := by
  have h : tag % 8 < 8 := Nat.mod_lt _ (by decide)
  unfold ofTag
  split <;> simp_all [code]
  omega

inductive Fault
  | varintCutShort
  | varintOverflow
  | fieldZero
  | wrongType (field : String) (found expected : WireType)
  | wrongChainType (field : Nat) (found : WireType)
  | pastEnd (position length size : Nat)
  | notText
  | skipPastEnd
  | unsupportedType (found : WireType) (field : Nat)
  | missingRequest
  | missingId
  | missingParentId (id : Int64)
  | flagOutOfRange (position : Nat)
  deriving DecidableEq, Repr

def Fault.message : Fault → String
  | .varintCutShort => "unexpected end of data inside varint"
  | .varintOverflow => "varint overflow"
  | .fieldZero => "field number 0 is not valid"
  | .wrongType field found expected =>
    "field " ++ field ++ " has wire type " ++ Text.ofNat found.code ++ ", expected "
      ++ Text.ofNat expected.code
  | .wrongChainType field found =>
    "path field " ++ Text.ofNat field ++ " has unexpected wire type " ++ Text.ofNat found.code
  | .pastEnd position length size =>
    "length-delimited field extends past data (" ++ Text.ofNat position ++ " + " ++ Text.ofNat length
      ++ " > " ++ Text.ofNat size ++ ")"
  | .notText => "invalid UTF-8 in string field"
  | .skipPastEnd => "unexpected end of data while skipping"
  | .unsupportedType found field =>
    "unsupported wire type " ++ Text.ofNat found.code ++ " for field " ++ Text.ofNat field
  | .missingRequest => "translation response without translation_request"
  | .missingId => "translation edge without edge_id"
  | .missingParentId id =>
    "translation edge " ++ Text.ofInt64 id ++ " without parent_edge_id"
  | .flagOutOfRange position => PositionSet.outOfRange position

end AttemptLedger.Wire
