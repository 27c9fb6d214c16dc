/-!
# Paths

A path is text whose parts stand between slashes. Repeated slashes and single dots say nothing,
except for a dot in front; what counts are the components. Main definitions: the components and
their order, the extension of the last component, and the path without it.
-/

namespace AttemptLedger

inductive Component
  | root
  | here
  | up
  | name (text : String)
  deriving DecidableEq, Repr

/-- Components stand in the order of their kinds, names among each other in text order, which is that
of their bytes. -/
def Component.precedes : Component → Component → Bool
  | .name a, .name b => a < b
  | .name _, _ => false
  | _, .name _ => true
  | .root, .here | .root, .up | .here, .up => true
  | _, _ => false

namespace Path

/-- The order of paths: component by component, a path before what lies below it. -/
def precedes : List Component → List Component → Bool
  | _, [] => false
  | [], _ :: _ => true
  | a :: as, b :: bs => a.precedes b || (a == b && precedes as bs)

/-- The parts of a text between slashes; `part` holds what was read of the current one, backwards. -/
def splitFrom (part : List Char) : List Char → List String
  | [] => [String.ofList part.reverse]
  | c :: cs =>
    if c = '/' then String.ofList part.reverse :: splitFrom [] cs else splitFrom (c :: part) cs

def parts (path : String) : List String := splitFrom [] path.toList

def component? (part : String) : Option Component :=
  if part = "" ∨ part = "." then none else if part = ".." then some .up else some (.name part)

def components (path : String) : List Component :=
  match parts path with
  | [] => []
  | first :: rest =>
    let front :=
      if first = "" ∧ rest ≠ [] then [Component.root]
      else if first = "." then [Component.here]
      else (component? first).toList
    front ++ rest.filterMap component?

def fileName? (path : String) : Option String :=
  match (components path).getLast? with
  | some (.name text) => some text
  | _ => none

/-- A name cut at its last dot, unless that is its first character. -/
def splitExtension (name : String) : String × Option String :=
  let backwards := name.toList.reverse
  let after := (backwards.takeWhile (· != '.')).reverse
  let before := ((backwards.dropWhile (· != '.')).drop 1).reverse
  if before = [] then (name, none) else (String.ofList before, some (String.ofList after))

def extension? (path : String) : Option String :=
  (fileName? path).bind fun name => (splitExtension name).2

/-- What stands for a name without its extension; if only dots are left of it, one or two, it is the
step up. -/
def stemOfName (name : String) : Component :=
  let text := (splitExtension name).1
  if text = "." ∨ text = ".." then .up else .name text

def stem (path : String) : List Component :=
  let all := components path
  match all.getLast? with
  | some (.name text) => all.dropLast ++ [stemOfName text]
  | _ => all

def join (directory name : String) : String :=
  if directory = "" then name
  else if directory.toList.getLast? = some '/' then directory ++ name
  else directory ++ "/" ++ name

end Path

end AttemptLedger
