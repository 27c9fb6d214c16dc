import AttemptLedger.Forest.Basic

/-!
# Forests as graph descriptions

A forest in the DOT language: one statement for each node, with its label and colour, and one for
each edge. In labels a backslash makes the next character literal.
-/

namespace AttemptLedger.Dot

def labelChar (c : Char) : List Char :=
  if c = '\\' ∨ c = '"' then ['\\', c] else [c]

def label (text : String) : List Char := '"' :: text.toList.flatMap labelChar ++ ['"']

def index (n : Nat) : List Char := Nat.toDigits 10 n

def nodeLine (n : Nat) (node : Node) : List Char :=
  "    ".toList ++ index n ++ " [ label = ".toList ++ label node.label
    ++ " style = filled fillcolor = ".toList ++ node.category.color.toList ++ "]\n".toList

/-- The statements of nodes, the first of which has the given index. -/
def nodeLines : (first : Nat) → List Node → List Char
  | _, [] => []
  | n, node :: nodes => nodeLine n node ++ nodeLines (n + 1) nodes

def edgeLine (parent child : Nat) : List Char :=
  "    ".toList ++ index parent ++ " -> ".toList ++ index child ++ " [ ]\n".toList

/-- The statements of edges to the nodes from the given index on. -/
def edgeLines : (first : Nat) → List Branch → List Char
  | _, [] => []
  | n, branch :: branches => edgeLine branch.parent n ++ edgeLines (n + 1) branches

end AttemptLedger.Dot

namespace AttemptLedger

/-- The description of a forest (`to_dot`). -/
def Forest.toDot (forest : Forest) : String :=
  String.ofList ("digraph \x7b\n".toList ++ Dot.nodeLines 0 forest.nodes
    ++ Dot.edgeLines 1 forest.branches ++ "\x7d\n".toList)

end AttemptLedger
