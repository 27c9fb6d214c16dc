import AttemptLedger.Json.Token
import AttemptLedger.Json.Value

/-!
# From tokens to a document

Tokens are taken in one by one over the containers that are open, the innermost first. At the first
token that does not fit, or at the end, the open containers become a tree that is marked as not
closed. A document is such a tree, and whether anything but spaces follows it.
-/

namespace AttemptLedger.Json

/-- A container that is open: what it holds so far, the latest first, and the key of a member whose
value is still due. -/
inductive Frame
  | array (items : List Value)
  | object (members : List (Option String × Value))
  | member (members : List (Option String × Value)) (key : Option String)

/-- What may come next in the innermost container. -/
inductive Expected
  | value
  | itemOrEnd
  | keyOrEnd
  | key
  | colon
  | separator
  deriving DecidableEq, Repr

/-- The tree of a text, and whether something follows the tree. -/
structure Document where
  value : Value
  trailing : Bool

inductive Progress
  /-- Containers are open, or no value was met yet. -/
  | reading (frames : List Frame) (expected : Expected)
  /-- The document is settled, whatever follows. -/
  | settled (document : Document)
  /-- A whole value was read. -/
  | complete (value : Value)

namespace Progress

/-- The tree of open containers around the innermost value, if one has been started. -/
def unclosed (inner : Option Value) : List Frame → Value
  | [] => inner.getD .broken
  | .array items :: frames => unclosed (some (.array (inner.toList ++ items).reverse false)) frames
  | .object members :: frames => unclosed (some (.object members.reverse false)) frames
  | .member members key :: frames =>
    unclosed (some (.object ((key, inner.getD .broken) :: members).reverse false)) frames

/-- Gives up at a token that does not fit. -/
def halt (frames : List Frame) : Progress := .settled ⟨unclosed none frames, false⟩

def receive (value : Value) : List Frame → Progress
  | [] => .complete value
  | .array items :: frames => .reading (.array (value :: items) :: frames) .separator
  | .member members key :: frames =>
    .reading (.object ((key, value) :: members) :: frames) .separator
  | frames => halt frames

def startValue (frames : List Frame) : Token → Progress
  | .null => receive .null frames
  | .bool value => receive (.bool value) frames
  | .number literal => receive (.number literal) frames
  | .text content => receive (.text content) frames
  | .openArray => .reading (.array [] :: frames) .itemOrEnd
  | .openObject => .reading (.object [] :: frames) .keyOrEnd
  | _ => halt frames

def step : Progress → Token → Progress
  | .settled document, _ => .settled document
  | .complete value, _ => .settled ⟨value, true⟩
  | .reading frames .value, token => startValue frames token
  | .reading frames .itemOrEnd, token =>
    match frames, token with
    | .array items :: frames, .closeArray => receive (.array items.reverse true) frames
    | frames, token => startValue frames token
  | .reading frames .keyOrEnd, token =>
    match frames, token with
    | .object members :: frames, .text key => .reading (.member members key :: frames) .colon
    | .object members :: frames, .closeObject => receive (.object members.reverse true) frames
    | frames, _ => halt frames
  | .reading frames .key, token =>
    match frames, token with
    | .object members :: frames, .text key => .reading (.member members key :: frames) .colon
    | frames, _ => halt frames
  | .reading frames .colon, token =>
    match token with
    | .colon => .reading frames .value
    | _ => halt frames
  | .reading frames .separator, token =>
    match frames, token with
    | .array items :: frames, .comma => .reading (.array items :: frames) .value
    | .array items :: frames, .closeArray => receive (.array items.reverse true) frames
    | .object members :: frames, .comma => .reading (.object members :: frames) .key
    | .object members :: frames, .closeObject => receive (.object members.reverse true) frames
    | frames, _ => halt frames

def finish : Progress → Document
  | .settled document => document
  | .complete value => ⟨value, false⟩
  | .reading frames _ => ⟨unclosed none frames, false⟩

end Progress

def Document.ofTokens (tokens : List Token) : Document :=
  (tokens.foldl Progress.step (.reading [] .value)).finish

def Document.ofText (text : String) : Document := .ofTokens (tokens text.toList)

end AttemptLedger.Json
