import AttemptLedger.Json.Fault

/-!
# Records in documents

How values of a document are taken in: texts, flags, integers, lists and records. A record is an
object whose members are matched by name, or an array of the field values in order. Values are taken
in document order and the first fault counts; members of other names only have to be read to their
end. At most `room` further containers may be open inside each other where a value is used.
-/

namespace AttemptLedger.Json

/-- Takes a value in, with room for some containers inside each other. -/
abbrev Take (α : Type) := (room : Nat) → Value → Except Fault α

/-- What a value is, where it is not what was wanted; a text must be one and a number in range. -/
def Value.found : Value → Except Fault Found
  | .null => .ok .null
  | .bool value => .ok (.bool value)
  | .number literal =>
    match literal.reading? with
    | some (.integer value) => .ok (.integer value)
    | some (.float value) => .ok (.float value)
    | none => .error .invalidSyntax
  | .text (some content) => .ok (.text content)
  | .text none => .error .invalidSyntax
  | .array _ _ => .ok .sequence
  | .object _ _ => .ok .map
  | .broken => .error .invalidSyntax

def refuse {α : Type} (wanted : String) (value : Value) : Except Fault α :=
  value.found.bind fun found => .error (.wrongType found wanted)

namespace Take

def text : Take String
  | _, .text (some content) => .ok content
  | _, value => refuse "a string" value

def flag : Take Bool
  | _, .bool value => .ok value
  | _, value => refuse "a boolean" value

/-- Takes null as a default (`nullable`). -/
def orDefault {α : Type} (default : α) (take : Take α) : Take α
  | _, .null => .ok default
  | room, value => take room value

def optional {α : Type} (take : Take α) : Take (Option α) :=
  orDefault none fun room value => (take room value).map some

def list {α : Type} (item : Take α) : Take (List α)
  | room, .array items closed =>
    if room = 0 then .error .invalidSyntax
    else
      match items.mapM (item (room - 1)) with
      | .error fault => .error fault
      | .ok values => if closed then .ok values else .error .invalidSyntax
  | _, value => refuse "a sequence" value

/-- Takes a number, or the text of one (`lenient_int`). -/
def integer : Take Int64
  | room, value =>
    if value.isUsable room then
      match value with
      | .number literal =>
        match literal.integer?.bind Text.int64OfInt? with
        | some n => .ok n
        | none => .error (.noVariant "IntRepr")
      | .text (some content) =>
        match Text.int64? content with
        | some n => .ok n
        | none => .error (.notInteger content)
      | _ => .error (.noVariant "IntRepr")
    else .error .invalidSyntax

theorem integer_text (room : Nat) (content : String) :
    integer room (.text (some content)) = match Text.int64? content with
      | some n => .ok n
      | none => .error (.notInteger content) := by
  rw [integer]
  exact if_pos rfl

/-- A cache flag (`MemoFlag`), as a flag or as a number that sets it unless it is zero. -/
def memoFlag : Take Bool
  | room, value =>
    if value.isUsable room then
      match value with
      | .bool flag => .ok flag
      | .number literal =>
        match literal.integer? with
        | some n => if 0 ≤ n then .ok (n != 0) else .error (.noVariant "MemoFlag")
        | none => .error (.noVariant "MemoFlag")
      | _ => .error (.noVariant "MemoFlag")
    else .error .invalidSyntax

end Take

/-- One field of a record: its name, its other spelling if it has one, whether it must be present,
and how its value is taken into the record. -/
structure Field (σ : Type) where
  name : String
  otherName : Option String := none
  required : Bool := false
  take : Take (σ → σ)

def Field.of {σ α : Type} (name : String) (otherName : Option String) (take : Take α)
    (put : α → σ → σ) : Field σ where
  name := name
  otherName := otherName
  take := fun room value => (take room value).map put

def Field.require {σ : Type} (field : Field σ) : Field σ := { field with required := true }

/-- The fields of a record in order, and the name that messages give it. -/
structure Schema (σ : Type) where
  title : String
  fields : List (Field σ)

namespace Schema

variable {σ : Type}

def field? (schema : Schema σ) (key : String) : Option (Field σ) :=
  schema.fields.find? fun field => field.name == key || field.otherName == some key

/-- Takes in the members of an object; `seen` holds the names of the fields met so far. -/
def takeMembers (schema : Schema σ) (room : Nat) :
    List (Option String × Value) → List String → σ → Except Fault (List String × σ)
  | [], seen, s => .ok (seen, s)
  | (none, _) :: _, _, _ => .error .invalidSyntax
  | (some key, value) :: members, seen, s =>
    match schema.field? key with
    | none =>
      if value.isWhole then schema.takeMembers room members seen s else .error .invalidSyntax
    | some field =>
      if field.name ∈ seen then .error (.duplicateField field.name)
      else
        match field.take room value with
        | .error fault => .error fault
        | .ok put => schema.takeMembers room members (field.name :: seen) (put s)

def missing? (schema : Schema σ) (seen : List String) : Option (Field σ) :=
  schema.fields.find? fun field => field.required && !seen.contains field.name

/-- Takes in the items of an array, one for each field in order. -/
def takeItems (schema : Schema σ) (room : Nat) (closed : Bool) :
    (index : Nat) → List (Field σ) → List Value → σ → Except Fault σ
  | _, [], [], s => if closed then .ok s else .error .invalidSyntax
  | _, [], _ :: _, _ => .error .invalidSyntax
  | index, field :: fields, [], s =>
    if !closed then .error .invalidSyntax
    else if field.required then .error (.tooFewItems index schema.title schema.fields.length)
    else schema.takeItems room closed (index + 1) fields [] s
  | index, field :: fields, value :: values, s =>
    match field.take room value with
    | .error fault => .error fault
    | .ok put => schema.takeItems room closed (index + 1) fields values (put s)

def take (schema : Schema σ) (start : σ) : Take σ
  | room, .object members closed =>
    if room = 0 then .error .invalidSyntax
    else
      match schema.takeMembers (room - 1) members [] start with
      | .error fault => .error fault
      | .ok (seen, s) =>
        if !closed then .error .invalidSyntax
        else
          match schema.missing? seen with
          | some field => .error (.missingField field.name)
          | none => .ok s
  | room, .array items closed =>
    if room = 0 then .error .invalidSyntax
    else schema.takeItems (room - 1) closed 0 schema.fields items start
  | _, value => refuse ("struct " ++ schema.title) value

end Schema

end AttemptLedger.Json
