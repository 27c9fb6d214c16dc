import AttemptLedger.Error
import AttemptLedger.Json.Decode
import AttemptLedger.Path
import AttemptLedger.Wire.Decode

/-!
# The two encodings of a batch

A batch is kept in its binary form or as a document; file extensions tell which, in capitals or not.
-/

namespace AttemptLedger

/-- The forms a batch is kept in (`BatchEncoding`). -/
inductive Encoding
  | binary
  | json
  deriving DecidableEq, Repr

namespace Encoding

def extension : Encoding → String
  | .binary => "bin"
  | .json => "json"

def ofExtension? (extension : String) : Option Encoding :=
  match String.ofList (extension.toList.map Char.toLower) with
  | "bin" => some .binary
  | "pb" => some .binary
  | "json" => some .json
  | _ => none

/-- The encoding that the extension of a path tells (`from_path`). -/
def ofPath? (path : String) : Option Encoding := (Path.extension? path).bind ofExtension?

end Encoding

namespace Batch

def ofBytes (bytes : Bytes) : Except Error Batch :=
  (Wire.decode bytes).mapError fun fault => .malformed (.wire fault)

def ofText (text : String) : Except Error Batch :=
  (Json.decode text).mapError fun fault => .malformed (.json fault)

/-- Reads a batch in an encoding (`decode`); a document has to be UTF-8. -/
def ofEncoded (encoding : Encoding) (bytes : Bytes) : Except Error Batch :=
  match encoding with
  | .binary => ofBytes bytes
  | .json =>
    match Text.Utf8.decode bytes with
    | .ok text => ofText text
    | .error fault => .error (.malformed (.notUtf8 fault))

end Batch

end AttemptLedger
