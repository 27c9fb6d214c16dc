import AttemptLedger.Path
import AttemptLedger.Text.Utf8

/-!
# Trees of files

A working directory with everything below it: directories and files by their location, the list of
names that leads to them. Every entry is a directory or a file of its own, there are no links from one
place to another, and everything is permitted. Paths are taken from the working directory: one that
starts with a slash, or that leads above the working directory, is not resolved. The others are
resolved name by name, and every name but the last has to be that of a directory. Main statements:
what a location holds after something was put somewhere.
-/

namespace AttemptLedger

/-- The names that lead to a place below the working directory, which itself has none. -/
abbrev Location := List String

inductive Entry
  | directory
  | file (content : Bytes)
  deriving DecidableEq, Repr

/-- The entries below a working directory, each location once. -/
structure FileTree where
  entries : List (Location × Entry)
  distinct : (entries.map (·.1)).Nodup := by simp

namespace FileTree

def empty : FileTree := ⟨[], List.nodup_nil⟩

/-- What stands at a location; the working directory is a directory. -/
def get? (tree : FileTree) (location : Location) : Option Entry :=
  if location = [] then some .directory else tree.entries.lookup location

def putEntry (location : Location) (entry : Entry) :
    List (Location × Entry) → List (Location × Entry)
  | [] => [(location, entry)]
  | (l, e) :: rest =>
    if l = location then (l, entry) :: rest else (l, e) :: putEntry location entry rest

theorem map_fst_putEntry (location : Location) (entry : Entry) (entries : List (Location × Entry)) :
    (putEntry location entry entries).map (·.1)
      = if location ∈ entries.map (·.1) then entries.map (·.1)
        else entries.map (·.1) ++ [location] := by
  induction entries with
  | nil => simp [putEntry]
  | cons head rest ih =>
    obtain ⟨l, e⟩ := head
    simp only [putEntry]
    split
    · next h => simp [h]
    · next h =>
      have h' : ¬location = l := fun h'' => h h''.symm
      simp only [List.map_cons, ih, List.mem_cons, h', false_or]
      split <;> simp

theorem nodup_putEntry {location : Location} {entry : Entry} {entries : List (Location × Entry)}
    (h : (entries.map (·.1)).Nodup) : ((putEntry location entry entries).map (·.1)).Nodup := by
  rw [map_fst_putEntry]
  split
  · exact h
  · next hNot =>
    rw [List.nodup_append]
    refine ⟨h, by simp, fun a ha b hb => ?_⟩
    rw [List.mem_singleton] at hb
    rintro rfl
    exact hNot (hb ▸ ha)

def put (tree : FileTree) (location : Location) (entry : Entry) : FileTree :=
  ⟨putEntry location entry tree.entries, nodup_putEntry tree.distinct⟩

theorem lookup_putEntry (location other : Location) (entry : Entry)
    (entries : List (Location × Entry)) :
    (putEntry location entry entries).lookup other
      = if other = location then some entry else entries.lookup other := by
  induction entries with
  | nil =>
    simp only [putEntry, List.lookup_cons, List.lookup_nil]
    split
    · next h => simp [beq_iff_eq.1 h]
    · next h => simp [beq_eq_false_iff_ne.1 h]
  | cons head rest ih =>
    obtain ⟨l, e⟩ := head
    simp only [putEntry]
    split
    · next h =>
      subst h
      by_cases ho : other = l
      · simp [ho]
      · simp [List.lookup_cons, ho, beq_eq_false_iff_ne.2 ho]
    · next h =>
      by_cases ho : other = l
      · subst ho
        simp [h]
      · simp [List.lookup_cons, beq_eq_false_iff_ne.2 ho, ih]

theorem get?_put {tree : FileTree} {location other : Location} {entry : Entry}
    (h : location ≠ []) :
    (tree.put location entry).get? other = if other = location then some entry else tree.get? other := by
  by_cases ho : other = []
  · subst ho
    simp [get?, Ne.symm h]
  · simp [get?, put, ho, lookup_putEntry]

def maxName : Nat := 255

def maxPath : Nat := 4095

def isName (text : String) : Bool := (Text.Utf8.encode text).length ≤ maxName

/-- Whether a path can be resolved at all: relative, not too long, and without a zero character. -/
def isResolvable (path : String) : Bool :=
  !path.toList.contains '\x00' && path.toList.head? != some '/'
    && (Text.Utf8.encode path).length ≤ maxPath

def steps (path : String) : List String :=
  (Path.parts path).filter fun part => part != "" && part != "."

/-- Whether a path can only mean a directory: it ends in a slash or in dots. -/
def endsInDirectory (path : String) : Bool :=
  match (Path.parts path).getLast? with
  | some part => part == "" || part == "." || part == ".."
  | none => true

/-- Follows steps from a directory; every place that is left has to be a directory. -/
def follow (tree : FileTree) : Location → List String → Option Location
  | location, [] => some location
  | location, part :: parts =>
    if tree.get? location ≠ some .directory then none
    else if part = ".." then (if location = [] then none else tree.follow location.dropLast parts)
    else if isName part then tree.follow (location ++ [part]) parts
    else none

def locate (tree : FileTree) (path : String) : Option Location :=
  if path = "" ∨ !isResolvable path then none else tree.follow [] (steps path)

def find? (tree : FileTree) (path : String) : Option Entry := (tree.locate path).bind tree.get?

def isDirectory (tree : FileTree) (path : String) : Bool := tree.find? path == some .directory

def read? (tree : FileTree) (path : String) : Option Bytes :=
  match tree.find? path with
  | some (.file content) => if endsInDirectory path then none else some content
  | _ => none

def write? (tree : FileTree) (path : String) (content : Bytes) : Option FileTree :=
  match tree.locate path with
  | none => none
  | some location =>
    if endsInDirectory path ∨ tree.get? location = some .directory then none
    else some (tree.put location (.file content))

def makeAlong (tree : FileTree) : Location → List String → Bool × FileTree
  | _, [] => (true, tree)
  | location, part :: parts =>
    if part = ".." then
      if location = [] then (false, tree) else tree.makeAlong location.dropLast parts
    else if !isName part then (false, tree)
    else
      match tree.get? (location ++ [part]) with
      | some .directory => tree.makeAlong (location ++ [part]) parts
      | some (.file _) => (false, tree)
      | none => (tree.put (location ++ [part]) .directory).makeAlong (location ++ [part]) parts

def endsInDot (path : String) : Bool :=
  ((Path.parts path).filter (· != "")).getLast? == some "."

/-- Makes a directory and those above it, as far as possible, and tells whether it was. What stands
before a single dot at the end is not made, it has to be there. -/
def makeDirectories (tree : FileTree) (path : String) : Bool × FileTree :=
  if !isResolvable path then (false, tree)
  else if endsInDot path then
    let above := (tree.makeAlong [] (steps path).dropLast).2
    (above.isDirectory path, above)
  else tree.makeAlong [] (steps path)

def comesBefore (a b : Location × Entry) : Bool := !decide (b.1 < a.1)

/-- All entries in order, each directory before what it holds. -/
def walk (tree : FileTree) : List (Location × Entry) := tree.entries.mergeSort comesBefore

def filesBelow (tree : FileTree) (location : Location) : List Location :=
  tree.walk.filterMap fun (l, entry) =>
    match entry with
    | .file _ => if location.isPrefixOf l then some (l.drop location.length) else none
    | .directory => none

end FileTree

end AttemptLedger
