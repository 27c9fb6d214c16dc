import AttemptLedger.Proofs.Wire.Grammar

/-!
# Edits of messages

The seven messages with what each of their fields holds, and the edits that leave the meaning of a
message alone: records of other fields, other orders of records of different fields, written defaults,
values that a later record overrides, other spellings of integers and set flags, other groupings of a
chain's flags, and unit tests beside fuzzy tests. An edit may stand at any place of a message and in a
message inside it at any depth, whose length is then told anew.
-/

namespace AttemptLedger.Wire

inductive Kind
  | batch
  | response
  | request
  | chain
  | attempt
  | fuzzyTest
  | unitTest
  deriving DecidableEq

/-- What a field holds: a number that must be there, a number, a flag, a text, a text that is told from
none, a single message, one message of a list, or some of the flags of a chain. -/
inductive Part
  | id
  | int
  | flag
  | text
  | optionalText
  | single (kind : Kind)
  | list (kind : Kind)
  | flags

def Kind.part : Kind → Nat → Option Part
  | .batch, 1 => some (.list .response)
  | .response, 1 => some (.single .request)
  | .response, 2 => some (.list .chain)
  | .request, 1 | .request, 2 | .request, 3 | .request, 4 => some .text
  | .chain, 1 => some (.list .attempt)
  | .chain, 2 => some .flags
  | .attempt, 1 | .attempt, 2 => some .id
  | .attempt, 5 | .attempt, 14 | .attempt, 15 => some .int
  | .attempt, 13 | .attempt, 16 => some .flag
  | .attempt, 3 | .attempt, 4 | .attempt, 6 | .attempt, 7 | .attempt, 8 | .attempt, 11
  | .attempt, 12 => some .text
  | .attempt, 9 => some (.list .fuzzyTest)
  | .attempt, 10 => some (.list .unitTest)
  | .fuzzyTest, 1 | .fuzzyTest, 2 | .fuzzyTest, 5 => some .text
  | .fuzzyTest, 3 => some .optionalText
  | .fuzzyTest, 4 => some .flag
  | .unitTest, 1 | .unitTest, 4 => some .text
  | .unitTest, 2 => some .optionalText
  | .unitTest, 3 => some .flag
  | _, _ => none

def Kind.Form : Kind → Bytes → Prop
  | .batch => BatchForm
  | .response => ResponseForm
  | .request => Message requestFields
  | .chain => ChainForm
  | .attempt => AttemptForm
  | .fuzzyTest => Message fuzzyTestFields
  | .unitTest => Message unitTestFields

namespace Part

def content : Part → Content
  | .id | .int | .flag => .number
  | .text | .optionalText => .text
  | .single kind | .list kind => .message kind.Form
  | .flags => .flags

/-- Whether the last record of the field counts and all others are overridden. -/
def IsSingular : Part → Prop
  | .list _ | .flags => False
  | _ => True

/-- The payload that stands for no record at all. -/
def default? : Part → Option Payload
  | .int | .flag => some (.number 0)
  | .text => some (.bytes [])
  | _ => none

def message? : Part → Option Kind
  | .single kind | .list kind => some kind
  | _ => none

end Part

def Kind.fields (kind : Kind) : Fields := fun number => (kind.part number).map Part.content

/-- The changes of a run of records among the others of a message. -/
inductive Change (kind : Kind) (others : List Record) : List Record → List Record → Prop
  /-- The same records, spelled with integers of other lengths. -/
  | respelled (records : List Record) : Change kind others records records
  | unknown {record : Record} : kind.part record.tag.field = none → Change kind others [] [record]
  | swapped {first second : Record} : first.tag.field ≠ second.tag.field →
      Change kind others [first, second] [second, first]
  | default {record : Record} {part : Part} : kind.part record.tag.field = some part →
      part.default? = some record.payload → ¬Has record.tag.field others →
      Change kind others [] [record]
  | overridden {added record : Record} {part : Part} : added.tag.field = record.tag.field →
      kind.part record.tag.field = some part → part.IsSingular →
      part.content.Admits added.payload → Change kind others [record] [added, record]
  | truth {tag : Tag} {value other : UInt64} : kind.part tag.field = some .flag → value ≠ 0 →
      other ≠ 0 → Change kind others [⟨tag, .number value⟩] [⟨tag, .number other⟩]
  | flags {before after : List Record} {flags : List Bool} : kind = .chain →
      (∀ record ∈ before ++ after, record.tag.field = 2) → ChainFlags before flags →
      ChainFlags after flags → Change kind others before after
  | unitTest {record : Record} : kind = .attempt → record.tag.field = 10 → Has 9 others →
      (Content.message (Message unitTestFields)).Admits record.payload →
      Change kind others [] [record]

/-- One edit of the bytes of a message: a change of its own records, or an edit of a message inside
it. -/
inductive Edit : Kind → Bytes → Bytes → Prop
  | records {kind : Kind} {front old new back : Bytes} {fronts olds news backs : List Record} :
      Records front fronts → Records old olds → Records new news → Records back backs →
      Change kind (fronts ++ backs) olds news →
      Edit kind (front ++ (old ++ back)) (front ++ (new ++ back))
  | inside {kind inner : Kind} {front old new back : Bytes} {fronts backs : List Record}
      {tag : Tag} {body edited : Bytes} {part : Part} :
      Records front fronts → Records old [⟨tag, .bytes body⟩] → Records new [⟨tag, .bytes edited⟩] →
      Records back backs → kind.part tag.field = some part → part.message? = some inner →
      Edit inner body edited →
      Edit kind (front ++ (old ++ back)) (front ++ (new ++ back))

end AttemptLedger.Wire
