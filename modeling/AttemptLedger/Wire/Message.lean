import AttemptLedger.Wire.Cursor

/-!
# Messages as streams of records

A message is a sequence of records, each a tag and a payload. A schema tells for every field it knows
under which wire types the field may stand and how its payload is absorbed; records of other fields
are passed over. Records are read and absorbed one after the other, so the first fault counts.
-/

namespace AttemptLedger.Wire

structure Field (σ : Type) where
  /-- What is wrong with the field under a wire type, if anything. -/
  refusal : WireType → Option Fault
  /-- Takes a payload into what has been read so far. -/
  absorb : Payload → σ → Except Fault σ

/-- The fields that a message knows, by number. -/
abbrev Schema (σ : Type) := Nat → Option (Field σ)

structure Record where
  tag : Tag
  payload : Payload
  deriving DecidableEq, Repr

namespace Field

/-- Allows one wire type (`expect`). -/
def only (label : String) (expected : WireType) (found : WireType) : Option Fault :=
  if found = expected then none else some (.wrongType label found expected)

def number {σ : Type} (label : String) (put : UInt64 → σ → σ) : Field σ where
  refusal := only label .varint
  absorb
    | .number value, s => .ok (put value s)
    | _, s => .ok s

def int {σ : Type} (label : String) (put : Int64 → σ → σ) : Field σ :=
  number label fun value => put value.toInt64

def flag {σ : Type} (label : String) (put : Bool → σ → σ) : Field σ :=
  number label fun value => put (value != 0)

def nested {σ α : Type} (label : String) (read : Bytes → Except Fault α) (put : α → σ → σ) :
    Field σ where
  refusal := only label .delimited
  absorb
    | .bytes body, s => (read body).map (put · s)
    | _, s => .ok s

def text {σ : Type} (label : String) (put : String → σ → σ) : Field σ :=
  nested label textOfBytes put

end Field

namespace Schema

variable {σ : Type}

def refusal (schema : Schema σ) (tag : Tag) : Option Fault :=
  (schema tag.field).bind fun field => field.refusal tag.wireType

/-- Reads the next record: its tag, which the schema must accept, and then its payload. -/
def readRecord (schema : Schema σ) (c : Cursor) : Except Fault (Record × Cursor) :=
  match c.readTag with
  | (.error fault, _) => .error fault
  | (.ok tag, c) =>
    match schema.refusal tag with
    | some fault => .error fault
    | none =>
      match c.readPayload tag with
      | (.error fault, _) => .error fault
      | (.ok payload, c) => .ok (⟨tag, payload⟩, c)

/-- Takes a record into what has been read so far; a field not in the schema changes nothing. -/
def absorb (schema : Schema σ) (record : Record) (s : σ) : Except Fault σ :=
  match schema record.tag.field with
  | some field => field.absorb record.payload s
  | none => .ok s

theorem readRecord_length_lt {schema : Schema σ} {c after : Cursor} {record : Record}
    (h : schema.readRecord c = .ok (record, after)) : after.rest.length < c.rest.length := by
  unfold readRecord at h
  split at h
  · simp at h
  · next tag c₁ hTag =>
    have hlt := @Cursor.readTag_length_lt c tag (by rw [hTag])
    rw [hTag] at hlt
    split at h
    · simp at h
    · split at h
      · simp at h
      · next payload c₂ hPayload =>
        have hle := (Cursor.readPayload_suffix tag c₁).length_le
        rw [hPayload] at hle
        simp only [Except.ok.injEq, Prod.mk.injEq] at h
        rw [← h.2]
        exact Nat.lt_of_le_of_lt hle hlt

def readFrom (schema : Schema σ) (c : Cursor) (s : σ) : Except Fault σ :=
  if c.atEnd then .ok s
  else
    match _h : schema.readRecord c with
    | .error fault => .error fault
    | .ok (record, after) =>
      match schema.absorb record s with
      | .error fault => .error fault
      | .ok s => readFrom schema after s
termination_by c.rest.length
decreasing_by exact readRecord_length_lt _h

/-- Reads a whole message, starting from what an empty one stands for. Each reader of a message
(`decode_response`, `decode_edge` and so on) is this loop over a schema of its own. -/
def read (schema : Schema σ) (start : σ) (bytes : Bytes) : Except Fault σ :=
  schema.readFrom (.ofBytes bytes) start

end Schema

def readFlags (c : Cursor) : Except Fault (List Bool) :=
  if c.atEnd then .ok []
  else
    match _h : c.readVarint with
    | (.error fault, _) => .error fault
    | (.ok value, after) => (readFlags after).map ((value != 0) :: ·)
termination_by c.rest.length
decreasing_by
  have hlt := Cursor.readVarint_length_lt (c := c) (n := value) (by rw [_h])
  rw [_h] at hlt
  exact hlt

end AttemptLedger.Wire
