import AttemptLedger.Batch
import AttemptLedger.Json.Fault
import AttemptLedger.Wire.Fault
import AttemptLedger.Text.Utf8

/-!
# Errors

Everything that can be refused, by cause, and the wording of each error. Errors of the file system
and of the writers carry no wording of their own.
-/

namespace AttemptLedger

inductive Malformation
  | wire (fault : Wire.Fault)
  | json (fault : Json.Fault)
  | notUtf8 (fault : Text.Utf8.Fault)
  | flagOutOfRange (position : Nat)
  /-- A cause given by the service. -/
  | reported (text : String)

inductive Refusal
  | topK (k : Int64)
  | emptyBatchId
  | emptyRequestId
  | repeatedRequestId (id batch : String)
  | overSendLimit (batch : String) (size limit : Nat)
  | overReceiveLimit (size limit : Nat)
  | blankName (name : String)
  | pathName (name : String)
  | unsupportedExtension (path : String)
  | notDirectory (path : String)
  /-- A cause given by the service. -/
  | reported (text : String)
  deriving DecidableEq, Repr

inductive Error
  | malformed (cause : Malformation)
  | invalidParameter (cause : Refusal)
  | divisionByZero (text : String)
  | danglingParent (id parentId : Int64)
  | conflictingParent (id first second : Int64)
  | unknownStatus (text : String)
  | fileSystem
  | document
  | table

def Malformation.message : Malformation → String
  | .wire fault => fault.message
  | .json fault => fault.message
  | .notUtf8 fault => "JSON payload is not UTF-8: " ++ fault.message
  | .flagOutOfRange position => PositionSet.outOfRange position
  | .reported text => text

def Refusal.message : Refusal → String
  | .topK k => "k must be between 1 and 10, got " ++ Text.ofInt64 k
  | .emptyBatchId => "batch id must not be empty"
  | .emptyRequestId => "request id must not be empty"
  | .repeatedRequestId id batch =>
    "duplicate request id " ++ Text.quoted id ++ " in batch " ++ Text.quoted batch
  | .overSendLimit batch size limit =>
    "batch " ++ Text.quoted batch ++ " encodes to " ++ Text.ofNat size ++ " bytes, over the "
      ++ Text.ofNat limit ++ " byte send limit"
  | .overReceiveLimit size limit =>
    "reply of " ++ Text.ofNat size ++ " bytes is over the " ++ Text.ofNat limit
      ++ " byte receive limit"
  | .blankName name =>
    "artifact name must be non-empty without surrounding whitespace, got " ++ Text.quoted name
  | .pathName name =>
    "artifact name must not contain path components, got " ++ Text.quoted name
  | .unsupportedExtension path => "unsupported batch file extension: " ++ path
  | .notDirectory path => "not a directory: " ++ path
  | .reported text => text

def Error.message : Error → String
  | .malformed cause => "Malformed response: " ++ cause.message
  | .invalidParameter cause => "Invalid parameter: " ++ cause.message
  | .divisionByZero text => "Division by zero: " ++ text
  | .danglingParent id parentId =>
    "Dangling parent: edge " ++ Text.ofInt64 id ++ " refers to unknown parent "
      ++ Text.ofInt64 parentId
  | .conflictingParent id first second =>
    "Conflicting parent: edge " ++ Text.ofInt64 id ++ " listed under parents "
      ++ Text.ofInt64 first ++ " and " ++ Text.ofInt64 second
  | .unknownStatus text => "Unknown status: " ++ Text.quoted text
  | .fileSystem => "IO error"
  | .document => "JSON error"
  | .table => "CSV error"

/-- The colour class of a status that has one (`category`). -/
def Status.category (status : Status) : Except Error Category :=
  match status.category? with
  | some category => .ok category
  | none => .error (.unknownStatus status.text)

def PositionSet.ofFlagsChecked (flags : List Bool) : Except Error PositionSet :=
  match PositionSet.ofFlags flags with
  | .ok positions => .ok positions
  | .error position => .error (.malformed (.flagOutOfRange position))

end AttemptLedger
