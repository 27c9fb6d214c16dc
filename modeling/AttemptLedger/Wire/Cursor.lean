import AttemptLedger.Wire.Varint

/-!
# Reading a byte string from front to back

A cursor holds what is left of a byte string and how long the whole of it is. Each reading step gives
an outcome and the cursor it leaves behind, also when it fails. Main statements: what a step leaves is
the end of what was left before, and a tag or a number that was read took at least one byte.
-/

namespace AttemptLedger.Wire

/-- A byte string that is being read (`WireReader`); the position is how much of it was read. -/
structure Cursor where
  size : Nat
  rest : Bytes
  deriving DecidableEq, Repr

structure Tag where
  field : Nat
  wireType : WireType
  deriving DecidableEq, Repr

/-- The value in a record; what a skipped field holds is not kept. -/
inductive Payload
  | number (value : UInt64)
  | bytes (body : Bytes)
  | skipped
  deriving DecidableEq, Repr

def textOfBytes (bytes : Bytes) : Except Fault String :=
  match Text.Utf8.decode bytes with
  | .ok text => .ok text
  | .error _ => .error .notText

namespace Cursor

def ofBytes (bytes : Bytes) : Cursor := ⟨bytes.length, bytes⟩

def position (c : Cursor) : Nat := c.size - c.rest.length

def atEnd (c : Cursor) : Bool := c.rest.isEmpty

def take? (count : Nat) (c : Cursor) : Option (Bytes × Cursor) :=
  let taken := c.rest.take count
  if taken.length = count then some (taken, ⟨c.size, c.rest.drop count⟩) else none

def readVarint (c : Cursor) : Except Fault UInt64 × Cursor :=
  let (outcome, rest) := Wire.readVarint c.rest
  (outcome, ⟨c.size, rest⟩)

/-- Reads a tag (`read_tag`): the low three bits are the wire type, the thirty-two bits above them the
field. -/
def readTag (c : Cursor) : Except Fault Tag × Cursor :=
  match c.readVarint with
  | (.error fault, c) => (.error fault, c)
  | (.ok value, c) =>
    let field := value.toNat / 8 % UInt32.size
    if field = 0 then (.error .fieldZero, c)
    else (.ok ⟨field, .ofTag value.toNat⟩, c)

/-- Reads a signed number (`read_int`). -/
def readInt (c : Cursor) : Except Fault Int64 × Cursor :=
  let (outcome, c) := c.readVarint
  (outcome.map UInt64.toInt64, c)

/-- Reads a flag (`read_bool`): any number but zero sets it. -/
def readFlag (c : Cursor) : Except Fault Bool × Cursor :=
  let (outcome, c) := c.readVarint
  (outcome.map (· != 0), c)

/-- Reads a length and as many bytes (`read_bytes`). -/
def readBytes (c : Cursor) : Except Fault Bytes × Cursor :=
  match c.readVarint with
  | (.error fault, c) => (.error fault, c)
  | (.ok length, c) =>
    match c.take? length.toNat with
    | some (taken, c) => (.ok taken, c)
    | none => (.error (.pastEnd c.position length.toNat c.size), c)

/-- Reads a text with its length in front (`read_string`). -/
def readText (c : Cursor) : Except Fault String × Cursor :=
  let (outcome, c) := c.readBytes
  (outcome.bind textOfBytes, c)

def skip (count : Nat) (c : Cursor) : Except Fault Unit × Cursor :=
  match c.take? count with
  | some (_, c) => (.ok (), c)
  | none => (.error .skipPastEnd, c)

def readPayload (tag : Tag) (c : Cursor) : Except Fault Payload × Cursor :=
  match tag.wireType with
  | .varint => let (outcome, c) := c.readVarint; (outcome.map .number, c)
  | .delimited => let (outcome, c) := c.readBytes; (outcome.map .bytes, c)
  | .fixed64 => let (outcome, c) := c.skip 8; (outcome.map fun _ => .skipped, c)
  | .fixed32 => let (outcome, c) := c.skip 4; (outcome.map fun _ => .skipped, c)
  | other => (.error (.unsupportedType other tag.field), c)

/-- Passes over the payload of a record (`skip_field`). -/
def skipField (tag : Tag) (c : Cursor) : Except Fault Unit × Cursor :=
  let (outcome, c) := c.readPayload tag
  (outcome.map fun _ => (), c)

theorem take?_eq_some_iff {count : Nat} {c after : Cursor} {taken : Bytes} :
    c.take? count = some (taken, after)
      ↔ count ≤ c.rest.length ∧ taken = c.rest.take count ∧ after = ⟨c.size, c.rest.drop count⟩ := by
  have hMin : min count c.rest.length = count ↔ count ≤ c.rest.length := by omega
  simp only [take?, List.length_take, hMin]
  split
  · next h => simp [h, eq_comm]
  · next h => simp [h]

theorem take?_eq_none_iff {count : Nat} {c : Cursor} :
    c.take? count = none ↔ c.rest.length < count := by
  have hMin : min count c.rest.length = count ↔ ¬c.rest.length < count := by omega
  simp only [take?, List.length_take, hMin]
  split
  · next h => simp [h]
  · next h => simpa using h

theorem take?_suffix {count : Nat} {c after : Cursor} {taken : Bytes}
    (h : c.take? count = some (taken, after)) : after.rest <:+ c.rest := by
  obtain ⟨_, _, rfl⟩ := take?_eq_some_iff.1 h
  exact List.drop_suffix _ _

/-- What is left behind a reading step is the end of what was left before it. -/
theorem readVarint_suffix (c : Cursor) : c.readVarint.2.rest <:+ c.rest :=
  Wire.readVarint_suffix c.rest

theorem readVarint_length_lt {c : Cursor} {n : UInt64} (h : c.readVarint.1 = .ok n) :
    c.readVarint.2.rest.length < c.rest.length :=
  Wire.readVarint_length_lt h

theorem readTag_suffix (c : Cursor) : c.readTag.2.rest <:+ c.rest := by
  have h := readVarint_suffix c
  unfold readTag
  split
  · next heq => rw [heq] at h; exact h
  · next heq =>
    rw [heq] at h
    dsimp only
    split <;> exact h

theorem readTag_length_lt {c : Cursor} {tag : Tag} (h : c.readTag.1 = .ok tag) :
    c.readTag.2.rest.length < c.rest.length := by
  cases hv : c.readVarint with
  | mk outcome after =>
    cases outcome with
    | error fault => simp [readTag, hv] at h
    | ok value =>
      have hlt := readVarint_length_lt (c := c) (n := value) (by rw [hv])
      rw [hv] at hlt
      unfold readTag
      rw [hv]
      dsimp only at hlt ⊢
      split <;> exact hlt

theorem readBytes_suffix (c : Cursor) : c.readBytes.2.rest <:+ c.rest := by
  have h := readVarint_suffix c
  unfold readBytes
  split
  · next heq => rw [heq] at h; exact h
  · next heq =>
    rw [heq] at h
    split
    · next hTake => exact (take?_suffix hTake).trans h
    · exact h

theorem skip_suffix (count : Nat) (c : Cursor) : (c.skip count).2.rest <:+ c.rest := by
  unfold skip
  split
  · next hTake => exact take?_suffix hTake
  · exact List.suffix_refl _

theorem readPayload_suffix (tag : Tag) (c : Cursor) : (c.readPayload tag).2.rest <:+ c.rest := by
  unfold readPayload
  split
  · exact readVarint_suffix c
  · exact readBytes_suffix c
  · exact skip_suffix 8 c
  · exact skip_suffix 4 c
  · exact List.suffix_refl _

end Cursor

end AttemptLedger.Wire
