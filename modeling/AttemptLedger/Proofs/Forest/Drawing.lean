import AttemptLedger.Proofs.Columns
import AttemptLedger.Proofs.Dot
import AttemptLedger.Proofs.Forest.Shape

/-!
# What the drawing of a forest states

The text of a forest spells one statement for each node and one for each edge, whatever its labels look
like. Reading it gives these statements back, so the text settles the labels, the categories and the edges.
-/

namespace AttemptLedger

theorem Category.color_injective : Function.Injective Category.color := by
  intro a b h
  cases a <;> cases b <;> first | rfl | exact absurd h (by decide)

namespace Dot

/-- The statement for a node: its index with its label, filled with the colour of its category. -/
def nodeStatement (n : Nat) (node : Node) : Statement where
  subject := .node (Text.ofNat n)
  attributes := [("label", node.label), ("style", "filled"), ("fillcolor", node.category.color)]

def edgeStatement (link : Nat × Nat) : Statement where
  subject := .edge (Text.ofNat link.1) (Text.ofNat link.2)

theorem nodeStatement_inj {n : Nat} {a b : Node} (h : nodeStatement n a = nodeStatement n b) :
    (a.label, a.category) = (b.label, b.category) := by
  simp only [nodeStatement, Statement.mk.injEq, List.cons.injEq, Prod.mk.injEq, true_and, and_true] at h
  rw [h.1, Category.color_injective h.2]

theorem edgeStatement_injective : Function.Injective edgeStatement := by
  intro a b h
  simp only [edgeStatement, Statement.mk.injEq, Subject.edge.injEq, and_true] at h
  exact Prod.ext (Text.ofNat_injective h.1) (Text.ofNat_injective h.2)

theorem map_shown_of_nodeStatements {as bs : List Node}
    (h : as.mapIdx nodeStatement = bs.mapIdx nodeStatement) :
    as.map (fun node => (node.label, node.category)) = bs.map fun node => (node.label, node.category) := by
  have hlength : as.length = bs.length := by simpa using congrArg List.length h
  apply List.ext_getElem
  · rw [List.length_map, List.length_map, hlength]
  · intro i ha hb
    rw [List.length_map] at ha hb
    have hi := congrArg (·[i]?) h
    simp only [List.getElem?_mapIdx, List.getElem?_eq_getElem ha, List.getElem?_eq_getElem hb,
      Option.map_some, Option.some.injEq] at hi
    rw [List.getElem_map, List.getElem_map]
    exact nodeStatement_inj hi

/-! ### Lines -/

theorem isNameChar_of_mem_index {n : Nat} {c : Char} (h : c ∈ index n) : Lexer.isNameChar c = true := by
  rw [index, ← Text.toList_ofNat] at h
  simp [Lexer.isNameChar, Char.isAlphanum, Text.isDigit_of_mem_ofNat h]

/-- An index spells its number in front of a blank. -/
theorem spells_index {text : List Char} {ts : List Token} (n : Nat) (hblank : text.head? = some ' ')
    (h : Spells text ts) : Spells (index n ++ text) (.name (Text.ofNat n) :: ts) := by
  have hname : Text.ofNat n = String.ofList (index n) := by
    rw [index, ← Text.toList_ofNat, String.ofList_toList]
  obtain ⟨rest, rfl⟩ := List.head?_eq_some_iff.1 hblank
  rw [hname]
  exact spells_name Nat.toDigits_ne_nil (fun _ => isNameChar_of_mem_index) rfl h

theorem spells_color (category : Category) :
    Spells (category.color.toList ++ "]\n".toList) [.name category.color, .closeBracket] := by
  intro before
  cases category <;> (simp only [Category.color, String.reduceToList]; rfl)

theorem spells_nodeLine (n : Nat) (node : Node) :
    Spells (nodeLine n node) (nodeStatement n node).tokens := by
  have hindent : Spells "    ".toList [] := fun _ => rfl
  have hopen : Spells " [ label = ".toList [.openBracket, .name "label", .equals] := by
    intro before
    simp only [String.reduceToList]
    rfl
  have hstyle : Spells " style = filled fillcolor = ".toList
      [.name "style", .equals, .name "filled", .name "fillcolor", .equals] := by
    intro before
    simp only [String.reduceToList]
    rfl
  have hbehind := hopen.append
    ((spells_label node.label).append (hstyle.append (spells_color node.category)))
  have hline := hindent.append (spells_index n (by simp) hbehind)
  unfold nodeLine
  simp only [List.append_assoc]
  exact hline

theorem spells_edgeLine (parent child : Nat) :
    Spells (edgeLine parent child) (edgeStatement (parent, child)).tokens := by
  have hindent : Spells "    ".toList [] := fun _ => rfl
  have harrow : Spells " -> ".toList [.arrow] := fun _ => rfl
  have hempty : Spells " [ ]\n".toList [.openBracket, .closeBracket] := fun _ => rfl
  have hchild := spells_index child (by simp) hempty
  have hline := hindent.append (spells_index parent (by simp) (harrow.append hchild))
  unfold edgeLine
  simp only [List.append_assoc]
  exact hline

/-- Lines that follow each other, numbered from the first one on, spell their statements one by one. -/
theorem spells_lines {α : Type} {lines : Nat → List α → List Char} {line : Nat → α → List Char}
    {statement : Nat → α → Statement} (hnil : ∀ n, lines n [] = [])
    (hcons : ∀ n a as, lines n (a :: as) = line n a ++ lines (n + 1) as)
    (hline : ∀ n a, Spells (line n a) (statement n a).tokens) (first : Nat) (as : List α) :
    Spells (lines first as)
      ((as.mapIdx fun i => statement (first + i)).flatMap Statement.tokens) := by
  induction as generalizing first with
  | nil =>
    rw [hnil]
    exact spells_nil
  | cons a as ih =>
    have hrest := ih (first + 1)
    simp only [Nat.add_assoc, Nat.add_comm 1] at hrest
    rw [hcons, List.mapIdx_cons, List.flatMap_cons]
    exact (hline first a).append hrest

theorem spells_nodeLines (nodes : List Node) :
    Spells (nodeLines 0 nodes) ((nodes.mapIdx nodeStatement).flatMap Statement.tokens) := by
  have hcons : ∀ n node nodes, nodeLines n (node :: nodes) = nodeLine n node ++ nodeLines (n + 1) nodes :=
    fun _ _ _ => rfl
  simpa only [Nat.zero_add] using spells_lines (fun _ => rfl) hcons spells_nodeLine 0 nodes

theorem spells_edgeLines (first : Nat) (branches : List Branch) :
    Spells (edgeLines first branches)
      ((branches.mapIdx fun i branch => edgeStatement (branch.parent, first + i)).flatMap
        Statement.tokens) := by
  have hcons : ∀ n branch branches, edgeLines n (branch :: branches)
      = edgeLine branch.parent n ++ edgeLines (n + 1) branches := fun _ _ _ => rfl
  have hline : ∀ n (branch : Branch), Spells (edgeLine branch.parent n)
      (edgeStatement (branch.parent, n)).tokens := fun n branch => spells_edgeLine branch.parent n
  exact spells_lines (fun _ => rfl) hcons hline first branches

end Dot

namespace Forest

/-- What the drawing of a forest states: the nodes by their indices, then the edges. -/
def statements (forest : Forest) : List Dot.Statement :=
  forest.nodes.mapIdx Dot.nodeStatement ++ forest.links.map Dot.edgeStatement

theorem map_edgeStatement_links (forest : Forest) :
    forest.links.map Dot.edgeStatement
      = forest.branches.mapIdx fun i branch => Dot.edgeStatement (branch.parent, 1 + i) := by
  apply List.ext_getElem
  · simp [links]
  · intro i _ _
    simp [links, Nat.add_comm]

/-- Reading the drawing gives the statements of the forest, whatever its labels look like. -/
theorem read_toDot (forest : Forest) : Dot.read forest.toDot = some forest.statements := by
  have hopen : Dot.Spells "digraph \x7b\n".toList [.name "digraph", .openBrace] := by
    intro before
    simp only [String.reduceToList]
    rfl
  have hclose : Dot.Spells "\x7d\n".toList [.closeBrace] := fun _ => rfl
  have hnodes := Dot.spells_nodeLines forest.nodes
  have hedges : Dot.Spells (Dot.edgeLines 1 forest.branches)
      ((forest.links.map Dot.edgeStatement).flatMap Dot.Statement.tokens) := by
    rw [map_edgeStatement_links]
    exact Dot.spells_edgeLines 1 forest.branches
  have htext := hopen.append (hnodes.append (hedges.append hclose))
  have hread := Dot.graph_tokens forest.statements
  simp only [statements, List.flatMap_append, List.append_assoc] at hread
  unfold toDot
  simp only [List.append_assoc]
  exact (Dot.read_of_spells htext).trans hread

/-- Forests that state the same agree in their nodes' statements and in their edges' statements. -/
theorem statements_inj {forest other : Forest} (h : other.statements = forest.statements) :
    other.nodes.mapIdx Dot.nodeStatement = forest.nodes.mapIdx Dot.nodeStatement
      ∧ other.links.map Dot.edgeStatement = forest.links.map Dot.edgeStatement := by
  -- There is one node more than there are edges, so the number of statements tells how many are edges.
  have hlength := congrArg List.length h
  simp only [statements, List.length_append, List.length_mapIdx, List.length_map, length_links] at hlength
  have hcount : other.nodeCount + other.edgeCount = forest.nodeCount + forest.edgeCount := hlength
  rw [nodeCount_eq, nodeCount_eq] at hcount
  refine List.append_inj' h ?_
  rw [List.length_map, List.length_map, length_links, length_links]
  omega

/-- The drawing of a forest states each node with its label and its category's colour and each edge with the
indices of its ends, both in order, and nothing else. So it settles the labels, categories and edges. -/
theorem toDot_faithful (forest : Forest) :
    ∃ nodes edges : List Dot.Statement,
      Dot.read forest.toDot = some (nodes ++ edges)
        ∧ nodes.length = forest.nodeCount
        ∧ nodes = forest.nodes.mapIdx Dot.nodeStatement
        ∧ edges.length = forest.edgeCount
        ∧ edges = forest.links.map Dot.edgeStatement
        ∧ forest.edges
          = forest.links.map (fun link => ((forest.nodeAt link.1).id, (forest.nodeAt link.2).id))
        ∧ ∀ other : Forest, other.toDot = forest.toDot →
          other.nodes.map (fun node => (node.label, node.category))
              = forest.nodes.map (fun node => (node.label, node.category))
            ∧ other.links = forest.links := by
  refine ⟨_, _, forest.read_toDot, List.length_mapIdx, rfl, ?_, rfl, forest.edges_eq_map_links, ?_⟩
  · rw [List.length_map, length_links]
  · intro other htext
    have hread := other.read_toDot
    rw [htext, forest.read_toDot, Option.some.injEq] at hread
    obtain ⟨hnodes, hlinks⟩ := statements_inj hread.symm
    exact ⟨Dot.map_shown_of_nodeStatements hnodes, Dot.edgeStatement_injective.list_map hlinks⟩

end Forest

end AttemptLedger
