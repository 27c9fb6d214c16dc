import AttemptLedger.Archive.Basic

/-!
# Finding saved batches

Below a directory, the files in either encoding are grouped by their path without the extension; of
each group one file is taken, a binary one if there is one, and the groups are listed in the order of
these paths. Which files there are is all that counts, not the order in which they are met.
-/

namespace AttemptLedger

structure Find where
  path : String
  encoding : Encoding
  deriving DecidableEq, Repr

namespace Find

def stem (found : Find) : List Component := Path.stem found.path

def ofPath? (path : String) : Option Find := (Encoding.ofPath? path).map (Find.mk path)

/-- Of two files of one stem, the one to keep when the second is met after the first. -/
def prefer (first second : Find) : Find :=
  if first.encoding = .binary ∧ second.encoding = .json then first else second

def insert (found : Find) : List Find → List Find
  | [] => [found]
  | first :: rest =>
    if Path.precedes found.stem first.stem then found :: first :: rest
    else if found.stem = first.stem then prefer first found :: rest
    else first :: insert found rest

/-- One file for each stem, in ascending order of the stems. -/
def select (paths : List String) : List Find :=
  (paths.filterMap ofPath?).foldl (fun kept found => insert found kept) []

end Find

namespace Archive

def pathBelow (directory : String) (location : Location) : String :=
  location.foldl Path.join directory

/-- Whether what lies at a location below a directory is met on a walk: a directory whose path is too
long to be resolved is passed over with everything in it. -/
def isMet (directory : String) (location : Location) : Bool :=
  FileTree.isResolvable (pathBelow directory location.dropLast)

def filePaths (tree : FileTree) (directory : String) (location : Location) : List String :=
  ((tree.filesBelow location).filter (isMet directory)).map (pathBelow directory)

/-- The saved batches below a directory (`discover_saved_batches`). -/
def discover (tree : FileTree) (directory : String) : Except Error (List String) :=
  if !tree.isDirectory directory then .error (.invalidParameter (.notDirectory directory))
  else
    match tree.locate directory with
    | none => .error (.invalidParameter (.notDirectory directory))
    | some location =>
      .ok ((Find.select (filePaths tree directory location)).map (·.path))

/-- The tables of files in order, up to the first that cannot be loaded. -/
def loadTables (tree : FileTree) : List String → Except Error (List Table)
  | [] => .ok []
  | path :: paths =>
    match loadTable tree path with
    | .error e => .error e
    | .ok table => (loadTables tree paths).map (table :: ·)

/-- All rows of the saved batches below a directory (`load_directory`). -/
def loadDirectory (tree : FileTree) (directory : String) : Except Error Table :=
  match discover tree directory with
  | .error e => .error e
  | .ok paths => (loadTables tree paths).map Table.concat

end Archive

end AttemptLedger
