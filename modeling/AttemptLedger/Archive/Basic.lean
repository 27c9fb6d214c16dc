import AttemptLedger.Digest
import AttemptLedger.Export
import AttemptLedger.FileTree
import AttemptLedger.Json.Encode
import AttemptLedger.Wire.Encode

/-!
# Saved batches

A saved batch is three files of one name in one directory: its binary form, its document and the
export of its table. The name is checked before anything is touched; the files are written in this
order, and what was written before a failure stays.
-/

namespace AttemptLedger

/-- A step on a tree of files: an outcome, and the tree it leaves behind also when it fails. -/
abbrev Disk (α : Type) := FileTree → Except Error α × FileTree

/-- The paths of a saved batch, and the digest of its binary form (`SavedArtifacts`). -/
structure Saved where
  binary : String
  json : String
  csv : String
  sha256 : String
  deriving DecidableEq, Repr

namespace Archive

def andThen {α β : Type} (first : Disk α) (second : α → Disk β) : Disk β := fun tree =>
  match first tree with
  | (.ok a, tree) => second a tree
  | (.error e, tree) => (.error e, tree)

def makeDirectory (path : String) : Disk Unit := fun tree =>
  match tree.makeDirectories path with
  | (true, tree) => (.ok (), tree)
  | (false, tree) => (.error .fileSystem, tree)

def writeFile (path : String) (content : Bytes) : Disk Unit := fun tree =>
  match tree.write? path content with
  | some tree => (.ok (), tree)
  | none => (.error .fileSystem, tree)

/-- Checks that a name can stand for a saved batch: neither blank at an end nor part of a path
(`check_stem`). -/
def checkName (name : String) : Except Error Unit :=
  if Text.trim name = "" ∨ Text.trim name ≠ name then .error (.invalidParameter (.blankName name))
  else if name.toList.contains '/' ∨ name.toList.contains '\\' ∨ name = "." ∨ name = ".." then
    .error (.invalidParameter (.pathName name))
  else .ok ()

/-- Writes the three files of a batch (`write_artifacts`). -/
def saveFiles (directory name : String) (payload : Bytes) (batch : Batch) (includeCode : Bool) :
    Disk Saved :=
  let saved : Saved := {
    binary := Path.join directory (name ++ "." ++ Encoding.binary.extension)
    json := Path.join directory (name ++ "." ++ Encoding.json.extension)
    csv := Path.join directory (name ++ ".csv")
    sha256 := Digest.hex (Digest.sha256 payload) }
  andThen (makeDirectory directory) fun _ =>
  andThen (writeFile saved.binary payload) fun _ =>
  andThen (writeFile saved.json (Text.Utf8.encode (Json.encode batch))) fun _ =>
  andThen (writeFile saved.csv (Text.Utf8.encode (Export.print includeCode (Table.ofBatch batch).rows)))
    fun _ tree => (.ok saved, tree)

def saveAs (directory name : String) (payload : Bytes) (batch : Batch) (includeCode : Bool) :
    Disk Saved := fun tree =>
  match checkName name with
  | .error e => (.error e, tree)
  | .ok () => saveFiles directory name payload batch includeCode tree

/-- Saves a batch (`save_response`). -/
def save (directory name : String) (batch : Batch) (includeCode : Bool) : Disk Saved :=
  saveAs directory name (Wire.encode batch) batch includeCode

/-- Saves a binary form as it was received (`save_payload`), which has to be that of a batch. -/
def savePayload (directory name : String) (payload : Bytes) (includeCode : Bool) : Disk Saved :=
  fun tree =>
    match Batch.ofBytes payload with
    | .error e => (.error e, tree)
    | .ok batch => saveAs directory name payload batch includeCode tree

/-- Loads a saved batch, in the encoding that the extension tells (`load_response`). -/
def load (tree : FileTree) (path : String) : Except Error Batch :=
  match Encoding.ofPath? path with
  | none => .error (.invalidParameter (.unsupportedExtension path))
  | some encoding =>
    match tree.read? path with
    | none => .error .fileSystem
    | some content => Batch.ofEncoded encoding content

def loadTable (tree : FileTree) (path : String) : Except Error Table :=
  (load tree path).map Table.ofBatch

end Archive

end AttemptLedger
