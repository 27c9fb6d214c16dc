import AttemptLedger.Json.Number

/-!
# Documents read as far as they go

The tree of a JSON text. A text that breaks off or goes wrong still has a tree: the containers that
were open then are marked as not closed, and where a value was due there is a broken one. Main
definitions: the trees without any such place, and those that may stand where a value is used.
-/

namespace AttemptLedger.Json

/-- The tree of a text, as far as it could be read; a text whose escapes spell no characters is
`none`. -/
inductive Value
  | null
  | bool (value : Bool)
  | number (literal : Number)
  | text (content : Option String)
  | array (items : List Value) (closed : Bool)
  | object (members : List (Option String × Value)) (closed : Bool)
  | broken

namespace Value

instance : Inhabited Value := ⟨.null⟩

mutual

/-- Whether the tree was read to its end: what is passed over needs no more. -/
def isWhole : Value → Bool
  | .array items closed => allWhole items && closed
  | .object members closed => allMembersWhole members && closed
  | .broken => false
  | _ => true

def allWhole : List Value → Bool
  | [] => true
  | item :: items => item.isWhole && allWhole items

def allMembersWhole : List (Option String × Value) → Bool
  | [] => true
  | (_, value) :: members => value.isWhole && allMembersWhole members

end

mutual

/-- Whether the tree can be taken in as a value: read to its end, every text a text, every number in
range, and no more than `room` containers inside each other. -/
def isUsable (room : Nat) : Value → Bool
  | .number literal => literal.reading?.isSome
  | .text content => content.isSome
  | .array items closed => room != 0 && allUsable (room - 1) items && closed
  | .object members closed => room != 0 && allMembersUsable (room - 1) members && closed
  | .broken => false
  | _ => true

def allUsable (room : Nat) : List Value → Bool
  | [] => true
  | item :: items => item.isUsable room && allUsable room items

def allMembersUsable (room : Nat) : List (Option String × Value) → Bool
  | [] => true
  | (key, value) :: members => key.isSome && value.isUsable room && allMembersUsable room members

end

end Value

end AttemptLedger.Json
