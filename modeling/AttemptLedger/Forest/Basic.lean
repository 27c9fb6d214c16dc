import AttemptLedger.Error
import AttemptLedger.Table

/-!
# Attempt forests

The attempts of a request hang below a root that stands for the seed program. Rows are inserted one
by one: the parent of a row must be there already, its status must have a category, and a row that
repeats an attempt must name the same parent. Depth counts the steps from the root; the level that
the engine reports plays no part.
-/

namespace AttemptLedger

/-- The seed program or an attempt (`TreeNode`). -/
structure Node where
  id : Int64
  label : String
  status : String
  category : Category
  depth : Nat
  deriving DecidableEq, Repr

def rootStatus : String := "ROOT"

def Node.isRoot (node : Node) : Bool := node.status == rootStatus

/-- An attempt of a forest and the index of its parent node; the root has index zero. -/
structure Branch where
  node : Node
  parent : Nat
  deriving DecidableEq, Repr

/-- The attempts of a request below its root, in the order of their insertion (`AttemptForest`). -/
structure Forest where
  seedLanguage : String
  targetLanguage : String
  branches : List Branch := []
  deriving DecidableEq, Repr

namespace Forest

def root (forest : Forest) : Node where
  id := rootId
  label := forest.seedLanguage
  status := rootStatus
  category := .skyBlue
  depth := 0

def nodes (forest : Forest) : List Node := forest.root :: forest.branches.map (·.node)

def nodeAt (forest : Forest) (index : Nat) : Node := forest.nodes.getD index forest.root

def branch? (forest : Forest) (id : Int64) : Option Branch :=
  forest.branches.find? (·.node.id == id)

def node? (forest : Forest) (id : Int64) : Option Node := (forest.branch? id).map (·.node)

/-- The index of the node with an id; the root's id always means the root. -/
def index? (forest : Forest) (id : Int64) : Option Nat :=
  if isRootParent id then some 0
  else (forest.branches.findIdx? (·.node.id == id)).map (· + 1)

def nodeCount (forest : Forest) : Nat := forest.nodes.length

def edgeCount (forest : Forest) : Nat := forest.branches.length

/-- The ids of the attempts below a node, in order; none below an id that is not there. -/
def children (forest : Forest) (id : Int64) : List Int64 :=
  match forest.index? id with
  | some index => (forest.branches.filter (·.parent == index)).map (·.node.id)
  | none => []

def edges (forest : Forest) : List (Int64 × Int64) :=
  forest.branches.map fun branch => ((forest.nodeAt branch.parent).id, branch.node.id)

def title (forest : Forest) : String := forest.seedLanguage ++ " -> " ++ forest.targetLanguage

def branchOf (forest : Forest) (row : Row) (category : Category) (parent : Nat) : Branch where
  node := {
    id := row.id
    label := row.targetLanguage
    status := row.status.text
    category := category
    depth := (forest.nodeAt parent).depth + 1 }
  parent := parent

/-- Inserts the attempt of a row, or checks that a repeated one keeps its parent (`insert`). -/
def insert (forest : Forest) (row : Row) : Except Error Forest :=
  match forest.index? row.parentId with
  | none => .error (.danglingParent row.id row.parentId)
  | some parent =>
    match row.status.category with
    | .error e => .error e
    | .ok category =>
      match forest.branch? row.id with
      | some branch =>
        let first := (forest.nodeAt branch.parent).id
        if first = row.parentId then .ok forest
        else .error (.conflictingParent row.id first row.parentId)
      | none =>
        .ok { forest with branches := forest.branches ++ [forest.branchOf row category parent] }

def insertAll (forest : Forest) : List Row → Except Error Forest
  | [] => .ok forest
  | row :: rows =>
    match forest.insert row with
    | .error e => .error e
    | .ok forest => forest.insertAll rows

end Forest

/-- The forest of some rows, if there are any (`TranslationTree`). -/
inductive Tree
  | empty
  | forest (forest : Forest)
  deriving DecidableEq, Repr

/-- The tree of rows (`assemble_tree`); the first row names the languages. -/
def Tree.ofRows : List Row → Except Error Tree
  | [] => .ok .empty
  | row :: rows =>
    (Forest.insertAll ⟨row.seedLanguage, row.requestTargetLanguage, []⟩ (row :: rows)).map .forest

/-- The tree of the rows of one request (`assemble_request_tree`). -/
def Table.requestTree (table : Table) (requestId : String) : Except Error Tree :=
  Tree.ofRows (table.forRequest requestId)

def Table.tree (table : Table) : Except Error Tree := Tree.ofRows table.rows

/-- A forest with its nodes and edges spelled out (`TreeSnapshot`). -/
structure Snapshot where
  title : String
  nodes : List Node
  edges : List (Int64 × Int64)
  deriving DecidableEq, Repr

def Forest.snapshot (forest : Forest) : Snapshot := ⟨forest.title, forest.nodes, forest.edges⟩

end AttemptLedger
