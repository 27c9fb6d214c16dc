import AttemptLedger.Proofs.Forest.Shape
import Mathlib.Logic.Function.Basic

/-!
# Forests as graphs with a map of ids

The representation that `assemble_tree` builds: a directed graph of nodes under their indices, its edges,
and apart from it a map from the ids of attempts to the indices of their nodes. A forest says the same in
one list of branches. Inserting a row commutes with going over from the one to the other, faults included,
so the map stays in step with the graph, and what is read off the graph is what is read off the forest.
-/

namespace AttemptLedger

/-- A directed graph of nodes, and the index of each attempt's node under its id. -/
structure Graph where
  nodes : List Node
  edges : List (Nat × Nat) := []
  indices : Int64 → Option Nat := fun _ => none

namespace Graph

def start (seedLanguage : String) : Graph where
  nodes := [⟨rootId, seedLanguage, rootStatus, .skyBlue, 0⟩]

def index? (graph : Graph) (id : Int64) : Option Nat :=
  if isRootParent id then some 0 else graph.indices id

def idAt (graph : Graph) (index : Nat) : Int64 := (graph.nodes[index]?.map (·.id)).getD rootId

def depthAt (graph : Graph) (index : Nat) : Nat := (graph.nodes[index]?.map (·.depth)).getD 0

/-- The id of the node that the latest edge to a node comes from; the root's id if there is no edge. -/
def parentId (graph : Graph) (index : Nat) : Int64 :=
  match graph.edges.reverse.find? (·.2 == index) with
  | some edge => graph.idAt edge.1
  | none => rootId

/-- A new node behind the others, an edge to it from its parent, and its index under its id. -/
def add (graph : Graph) (node : Node) (parent : Nat) : Graph where
  nodes := graph.nodes ++ [node]
  edges := graph.edges ++ [(parent, graph.nodes.length)]
  indices := Function.update graph.indices node.id (some graph.nodes.length)

def insert (graph : Graph) (row : Row) : Except Error Graph :=
  match graph.index? row.parentId with
  | none => .error (.danglingParent row.id row.parentId)
  | some parent =>
    match row.status.category with
    | .error e => .error e
    | .ok category =>
      match graph.indices row.id with
      | some existing =>
        if graph.parentId existing = row.parentId then .ok graph
        else .error (.conflictingParent row.id (graph.parentId existing) row.parentId)
      | none =>
        .ok (graph.add ⟨row.id, row.targetLanguage, row.status.text, category, graph.depthAt parent + 1⟩
          parent)

def insertAll (graph : Graph) : List Row → Except Error Graph
  | [] => .ok graph
  | row :: rows =>
    match graph.insert row with
    | .error e => .error e
    | .ok graph => graph.insertAll rows

/-- The graph of rows, if there are any. -/
def ofRows : List Row → Except Error (Option Graph)
  | [] => .ok none
  | row :: rows => ((start row.seedLanguage).insertAll (row :: rows)).map some

def node? (graph : Graph) (id : Int64) : Option Node :=
  (graph.indices id).bind fun index => graph.nodes[index]?

/-- The ids of the nodes that edges from a node lead to, in the order of their indices. -/
def children (graph : Graph) (id : Int64) : List Int64 :=
  match graph.index? id with
  -- The edges of a node are met from the latest one back, so what they lead to is sorted.
  | some index => (((graph.edges.reverse.filter (·.1 == index)).map (·.2)).mergeSort).map graph.idAt
  | none => []

def edgeIds (graph : Graph) : List (Int64 × Int64) :=
  graph.edges.map fun edge => (graph.idAt edge.1, graph.idAt edge.2)

end Graph

/-! ### The graph of a forest -/

namespace Forest

def graph (forest : Forest) : Graph where
  nodes := forest.nodes
  edges := forest.links
  indices id := (forest.branches.findIdx? (·.node.id == id)).map (· + 1)

variable {forest : Forest}

theorem idAt_graph (forest : Forest) (index : Nat) :
    forest.graph.idAt index = (forest.nodeAt index).id := by
  rw [Graph.idAt, nodeAt, List.getD_eq_getElem?_getD]
  show (forest.nodes[index]?.map (·.id)).getD rootId = _
  cases forest.nodes[index]? <;> rfl

theorem depthAt_graph (forest : Forest) (index : Nat) :
    forest.graph.depthAt index = (forest.nodeAt index).depth := by
  rw [Graph.depthAt, nodeAt, List.getD_eq_getElem?_getD]
  show (forest.nodes[index]?.map (·.depth)).getD 0 = _
  cases forest.nodes[index]? <;> rfl

/-- Exactly one edge leads to the node of a branch, so it is the one that is found. -/
theorem parentId_graph {i : Nat} (hi : i < forest.branches.length) :
    forest.graph.parentId (i + 1) = (forest.nodeAt forest.branches[i].parent).id := by
  have hlink : (forest.branches[i].parent, i + 1) ∈ forest.graph.edges.reverse :=
    List.mem_reverse.2 (List.mem_mapIdx.2 ⟨i, hi, rfl⟩)
  rw [Graph.parentId]
  cases hfind : forest.graph.edges.reverse.find? (·.2 == i + 1) with
  | none =>
    have hnot := List.find?_eq_none.1 hfind _ hlink
    exact absurd (beq_self_eq_true _) hnot
  | some edge =>
    obtain ⟨j, hj, rfl⟩ := List.mem_mapIdx.1 (List.mem_reverse.1 (List.mem_of_find?_eq_some hfind))
    obtain rfl : j = i := by simpa using List.find?_some hfind
    exact idAt_graph forest _

theorem indices_graph_eq_none_iff {id : Int64} :
    forest.graph.indices id = none ↔ forest.branch? id = none := by
  rw [graph, Option.map_eq_none_iff, List.findIdx?_eq_none_iff, branch?, List.find?_eq_none]
  simp

theorem exists_indices_graph {id : Int64} {branch : Branch} (h : forest.branch? id = some branch) :
    ∃ (i : Nat) (hi : i < forest.branches.length),
      forest.branches[i] = branch ∧ forest.graph.indices id = some (i + 1) := by
  obtain ⟨hid, i, hi, hbranch, hbefore⟩ := List.find?_eq_some_iff_getElem.1 h
  refine ⟨i, hi, hbranch, Option.map_eq_some_iff.2 ⟨i, ?_, rfl⟩⟩
  exact List.findIdx?_eq_some_iff_getElem.2 ⟨hi, by rwa [hbranch], by simpa using hbefore⟩

/-- No two branches of a forest of rows have one id, so the first with an id is the only one. -/
theorem indices_graph_eq_some_iff {rows : List Row} (h : forest.Mirrors rows) {id : Int64} {index : Nat} :
    forest.graph.indices id = some index
      ↔ 0 < index ∧ ∃ node, forest.nodes[index]? = some node ∧ node.id = id := by
  have hdistinct : forest.branches.Pairwise fun a b => a.node.id ≠ b.node.id := by
    rw [← List.pairwise_map, h.map_id_branches, map_id_firstRows]
    exact nodup_firstSeen _
  constructor
  · intro hindex
    obtain ⟨i, hfind, rfl⟩ := Option.map_eq_some_iff.1 hindex
    obtain ⟨hi, hid, _⟩ := List.findIdx?_eq_some_iff_getElem.1 hfind
    exact ⟨Nat.succ_pos i, _, getElem?_nodes_succ hi, beq_iff_eq.1 hid⟩
  · rintro ⟨hpos, node, hnode, rfl⟩
    obtain ⟨i, rfl⟩ := Nat.exists_eq_add_one.2 hpos
    have hi : i < forest.branches.length := by
      have hlt := (List.getElem?_eq_some_iff.1 hnode).1
      rwa [nodes, List.length_cons, List.length_map, Nat.add_lt_add_iff_right] at hlt
    obtain rfl := Option.some.inj ((getElem?_nodes_succ hi).symm.trans hnode)
    refine Option.map_eq_some_iff.2 ⟨i, List.findIdx?_eq_some_iff_getElem.2 ⟨hi, by simp, ?_⟩, rfl⟩
    intro j hj hsame
    exact List.pairwise_iff_getElem.1 hdistinct j i (Nat.lt_trans hj hi) hi hj (beq_iff_eq.1 hsame)

theorem indices_push {branch : Branch} (h : forest.branch? branch.node.id = none) :
    (forest.push branch).graph.indices
      = Function.update forest.graph.indices branch.node.id (some forest.nodes.length) := by
  funext id
  have hlast : (forest.push branch).graph.indices id = (forest.graph.indices id).or
      (if branch.node.id = id then some forest.nodes.length else none) := by
    simp only [graph, push, List.findIdx?_append, List.findIdx?_singleton, nodes, List.length_cons,
      List.length_map, beq_iff_eq]
    cases forest.branches.findIdx? (·.node.id == id) with
    | some position => rfl
    | none => by_cases hid : branch.node.id = id <;> simp [hid]
  by_cases hid : id = branch.node.id
  · subst hid
    rw [hlast, indices_graph_eq_none_iff.2 h, if_pos rfl, Function.update_self]
    rfl
  · rw [hlast, if_neg (Ne.symm hid), Option.or_none, Function.update_of_ne hid]

theorem graph_push {branch : Branch} (h : forest.branch? branch.node.id = none) :
    (forest.push branch).graph = forest.graph.add branch.node branch.parent := by
  have hnodes : (forest.push branch).nodes = forest.nodes ++ [branch.node] := by
    rw [nodes, push, List.map_append]
    rfl
  have hlinks : (forest.push branch).links = forest.links ++ [(branch.parent, forest.nodes.length)] := by
    rw [links, push, List.mapIdx_append]
    simp [links, nodes]
  show Graph.mk _ _ (forest.push branch).graph.indices = _
  rw [hnodes, hlinks, indices_push h]
  rfl

/-- Inserting a row into the graph of a forest is inserting it into the forest. -/
theorem insert_graph (forest : Forest) (row : Row) :
    forest.graph.insert row = (forest.insert row).map graph := by
  have hindex : forest.graph.index? row.parentId = forest.index? row.parentId := rfl
  rw [Graph.insert, Forest.insert, hindex]
  -- Both sides check in the same order: the parent, the status, and whether the id is repeated.
  cases forest.index? row.parentId with
  | none => rfl
  | some parent =>
    cases row.status.category with
    | error e => rfl
    | ok category =>
      cases hbranch : forest.branch? row.id with
      | some branch =>
        obtain ⟨i, hi, rfl, hindices⟩ := exists_indices_graph hbranch
        simp only [hindices, parentId_graph hi]
        split <;> rfl
      | none =>
        simp only [indices_graph_eq_none_iff.2 hbranch, depthAt_graph]
        exact congrArg Except.ok (@graph_push forest (forest.branchOf row category parent) hbranch).symm

theorem insertAll_graph (forest : Forest) (rows : List Row) :
    forest.graph.insertAll rows = (forest.insertAll rows).map graph := by
  induction rows generalizing forest with
  | nil => rfl
  | cons row rows ih =>
    rw [Graph.insertAll, insertAll, insert_graph]
    cases forest.insert row with
    | error e => rfl
    | ok next => exact ih next

/-! ### What is read off a graph -/

theorem node?_graph (forest : Forest) (id : Int64) : forest.graph.node? id = forest.node? id := by
  rw [Graph.node?, node?]
  cases hbranch : forest.branch? id with
  | none =>
    rw [indices_graph_eq_none_iff.2 hbranch]
    rfl
  | some branch =>
    obtain ⟨i, hi, rfl, hindices⟩ := exists_indices_graph hbranch
    rw [hindices]
    exact getElem?_nodes_succ hi

theorem edgeIds_graph (forest : Forest) : forest.graph.edgeIds = forest.edges := by
  rw [Graph.edgeIds, edges_eq_map_links]
  simp only [idAt_graph]
  rfl

/-- The nodes that edges from a node lead to, in the order of the edges: their indices ascend. -/
theorem pairwise_targets (forest : Forest) (index : Nat) :
    ((forest.links.filter (·.1 == index)).map (·.2)).Pairwise (· < ·) := by
  refine List.Pairwise.sublist (List.filter_sublist.map _) ?_
  rw [map_snd_links]
  exact List.pairwise_lt_range'

theorem map_idAt_targets (forest : Forest) (index : Nat) :
    ((forest.links.filter (·.1 == index)).map (·.2)).map forest.graph.idAt
      = (forest.branches.filter (·.parent == index)).map (·.node.id) := by
  have hends : forest.links.map (fun link => (link.1, forest.graph.idAt link.2))
      = forest.branches.map fun branch => (branch.parent, branch.node.id) := by
    apply List.ext_getElem
    · simp [links]
    · intro i hi _
      have hi' : i < forest.branches.length := by simpa [links] using hi
      simp [links, idAt_graph, nodeAt_succ hi']
  have hfilter := congrArg (List.map Prod.snd) (congrArg (List.filter (·.1 == index)) hends)
  rw [List.filter_map, List.filter_map, List.map_map, List.map_map] at hfilter
  rw [List.map_map]
  exact hfilter

theorem mergeSort_reverse {l : List Nat} (h : l.Pairwise (· < ·)) : l.reverse.mergeSort = l := by
  have hsorted : l.reverse.mergeSort.Pairwise fun a b => decide (a ≤ b) = true :=
    List.pairwise_mergeSort (by simpa using fun _ _ _ => Nat.le_trans) (by simpa using Nat.le_total) _
  refine List.Perm.eq_of_pairwise ?_ hsorted (h.imp fun hlt => decide_eq_true (Nat.le_of_lt hlt))
    ((List.mergeSort_perm _ _).trans l.reverse_perm)
  intro a b _ _ hab hba
  exact Nat.le_antisymm (of_decide_eq_true hab) (of_decide_eq_true hba)

theorem children_graph (forest : Forest) (id : Int64) :
    forest.graph.children id = forest.children id := by
  have hindex : forest.graph.index? id = forest.index? id := rfl
  rw [Graph.children, children, hindex]
  cases forest.index? id with
  | none => rfl
  | some index =>
    show (((forest.links.reverse.filter (·.1 == index)).map (·.2)).mergeSort).map _ = _
    rw [List.filter_reverse, List.map_reverse, mergeSort_reverse (pairwise_targets forest index),
      map_idAt_targets]

end Forest

def Tree.graph? : Tree → Option Graph
  | .empty => none
  | .forest assembled => some assembled.graph

namespace Graph

/-- Rows give the graph of the forest that they give, or the same fault. -/
theorem ofRows_eq (rows : List Row) : ofRows rows = (Tree.ofRows rows).map Tree.graph? := by
  cases rows with
  | nil => rfl
  | cons row rows =>
    have hstart : start row.seedLanguage = (Forest.mk row.seedLanguage row.requestTargetLanguage []).graph :=
      rfl
    rw [ofRows, hstart, Forest.insertAll_graph, Tree.ofRows]
    cases Forest.insertAll ⟨row.seedLanguage, row.requestTargetLanguage, []⟩ (row :: rows) <;> rfl

/-- The map is in step with the graph: under an id it has the index of the one node behind the root that
has this id. -/
theorem indices_eq_some_iff {rows : List Row} {graph : Graph} (h : ofRows rows = .ok (some graph))
    {id : Int64} {index : Nat} :
    graph.indices id = some index ↔ 0 < index ∧ ∃ node, graph.nodes[index]? = some node ∧ node.id = id := by
  rw [ofRows_eq, map_eq_ok_iff] at h
  obtain ⟨tree, htree, hgraph⟩ := h
  cases tree with
  | empty => cases hgraph
  | forest assembled =>
    obtain rfl : assembled.graph = graph := Option.some.inj hgraph
    exact Forest.indices_graph_eq_some_iff (Tree.mirrors_of_ofRows htree)

end Graph

end AttemptLedger
