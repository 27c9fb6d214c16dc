import AttemptLedger.Proofs.Forest.Assembly
import Mathlib.Data.List.Forall2
import Mathlib.Logic.Relation

/-!
# The tree that rows describe

The forest of some rows has the root and one node for the first row of every attempt, in order, below
the node of the parent that this row names. The invariant ties each branch to its row while rows are
inserted; what can be read off a forest, that is its edges, children, nodes and depths, follows from it.
-/

namespace AttemptLedger

/-! ### First rows -/

/-- The first row of every attempt, in the order in which the attempts are met. -/
def firstRows : List Row → List Row
  | [] => []
  | row :: rows => row :: (firstRows rows).filter (·.id ≠ row.id)

theorem mem_firstRows_iff {rows : List Row} {row : Row} :
    row ∈ firstRows rows ↔ rows.find? (·.id == row.id) = some row := by
  induction rows with
  | nil => simp [firstRows]
  | cons first rows ih =>
    rw [firstRows, List.mem_cons, List.mem_filter, ih]
    by_cases hid : first.id = row.id
    · have hfind : (first :: rows).find? (·.id == row.id) = some first := by simp [hid]
      rw [hfind, Option.some.injEq]
      simp [hid, eq_comm]
    · have hne : row ≠ first := by
        rintro rfl
        exact hid rfl
      have hfind : (first :: rows).find? (·.id == row.id) = rows.find? (·.id == row.id) := by
        simp [hid]
      rw [hfind]
      simp [hne, Ne.symm hid]

theorem exists_firstRows_iff {rows : List Row} {id : Int64} :
    (∃ row ∈ firstRows rows, row.id = id) ↔ ∃ row ∈ rows, row.id = id := by
  constructor
  · rintro ⟨row, hrow, rfl⟩
    exact ⟨row, List.mem_of_find?_eq_some (mem_firstRows_iff.1 hrow), rfl⟩
  · rintro ⟨row, hrow, rfl⟩
    cases hfind : rows.find? (·.id == row.id) with
    | none => simpa using List.find?_eq_none.1 hfind row hrow
    | some first =>
      have hid : first.id = row.id := by simpa using List.find?_some hfind
      refine ⟨first, mem_firstRows_iff.2 ?_, hid⟩
      rw [hid, hfind]

theorem firstRows_concat (rows : List Row) (row : Row) :
    firstRows (rows ++ [row])
      = firstRows rows ++ if rows.any (·.id == row.id) then [] else [row] := by
  induction rows with
  | nil => rfl
  | cons first rows ih =>
    rw [List.cons_append, firstRows, ih, List.filter_append, firstRows, List.cons_append,
      List.any_cons]
    by_cases hid : first.id = row.id
    · simp [hid]
    · simp [hid, Ne.symm hid]

theorem map_id_firstRows (rows : List Row) :
    (firstRows rows).map (·.id) = firstSeen (rows.map (·.id)) := by
  induction rows with
  | nil => rfl
  | cons row rows ih =>
    rw [firstRows, List.map_cons, List.map_cons, firstSeen, ← ih, List.filter_map]
    rfl

theorem nodup_firstSeen {α : Type} [DecidableEq α] (as : List α) : (firstSeen as).Nodup := by
  induction as with
  | nil => exact List.nodup_nil
  | cons a as ih =>
    rw [firstSeen, List.nodup_cons]
    exact ⟨by simp, ih.filter _⟩

theorem eq_of_mem_firstRows {rows : List Row} {row other : Row} (hrow : row ∈ firstRows rows)
    (hother : other ∈ firstRows rows) (hid : row.id = other.id) : row = other := by
  rw [mem_firstRows_iff] at hrow hother
  rw [hid, hother] at hrow
  exact (Option.some.inj hrow).symm

/-! ### Branches and their rows -/

/-- A node that shows an attempt as a row describes it. -/
structure Row.Shows (row : Row) (node : Node) : Prop where
  id : node.id = row.id
  label : node.label = row.targetLanguage
  status : node.status = row.status.text
  category : row.status.category? = some node.category

namespace Forest

/-- A branch for a row: its node shows the row, below the node of the parent that the row names. -/
structure Stands (forest : Forest) (branch : Branch) (row : Row) : Prop where
  shows : row.Shows branch.node
  parent : forest.index? row.parentId = some branch.parent
  depth : branch.node.depth = (forest.nodeAt branch.parent).depth + 1

/-- The forest of the rows so far: one branch for each first row, below nodes that were there before. -/
structure Mirrors (forest : Forest) (rows : List Row) : Prop where
  stands : List.Forall₂ forest.Stands forest.branches (firstRows rows)
  earlier : ∀ i (h : i < forest.branches.length), forest.branches[i].parent ≤ i

variable {forest next : Forest} {rows earlier : List Row} {row : Row}

theorem index?_push {id : Int64} {index : Nat} (h : forest.index? id = some index) (branch : Branch) :
    (forest.push branch).index? id = some index := by
  unfold index? push at *
  split
  · next hroot =>
    rw [if_pos hroot] at h
    exact h
  · next hroot =>
    rw [if_neg hroot] at h
    obtain ⟨position, hposition, rfl⟩ := Option.map_eq_some_iff.1 h
    rw [List.findIdx?_append, hposition]
    rfl

theorem Stands.push {branch : Branch} (h : forest.Stands branch row) (new : Branch) :
    (forest.push new).Stands branch row where
  shows := h.shows
  parent := index?_push h.parent new
  depth := by rw [nodeAt_push (nodeAt_index? h.parent).1, h.depth]

/-- What inserting a row can do: nothing if its attempt is there, else it adds one branch. -/
theorem insert_eq_ok_cases (h : forest.insert row = .ok next) :
    ∃ parent category, forest.index? row.parentId = some parent
      ∧ row.status.category? = some category
      ∧ ((forest.branch? row.id ≠ none ∧ next = forest)
        ∨ (forest.branch? row.id = none ∧ next = forest.push (forest.branchOf row category parent))) := by
  unfold insert at h
  cases hparent : forest.index? row.parentId with
  | none =>
    rw [hparent] at h
    cases h
  | some parent =>
    rw [hparent] at h
    unfold Status.category at h
    cases hcategory : row.status.category? with
    | none =>
      rw [hcategory] at h
      cases h
    | some category =>
      rw [hcategory] at h
      refine ⟨parent, category, rfl, rfl, ?_⟩
      cases hbranch : forest.branch? row.id with
      | none =>
        rw [hbranch] at h
        cases h
        exact Or.inr ⟨rfl, rfl⟩
      | some branch =>
        rw [hbranch] at h
        dsimp only at h
        split at h
        · cases h
          exact Or.inl ⟨nofun, rfl⟩
        · cases h

namespace Mirrors

theorem start (seedLanguage targetLanguage : String) :
    Mirrors ⟨seedLanguage, targetLanguage, []⟩ [] where
  stands := .nil
  earlier _ h := absurd h (Nat.not_lt_zero _)

theorem map_id_branches (h : forest.Mirrors rows) :
    forest.branches.map (·.node.id) = (firstRows rows).map (·.id) := by
  rw [← List.forall₂_eq_eq_eq, List.forall₂_map_left_iff, List.forall₂_map_right_iff]
  exact h.stands.imp fun _ _ hstands => hstands.shows.id

theorem branch?_eq_none_iff (h : forest.Mirrors rows) {id : Int64} :
    forest.branch? id = none ↔ ∀ row ∈ rows, row.id ≠ id := by
  have hfirst : (∃ row ∈ rows, row.id = id) ↔ ∃ branch ∈ forest.branches, branch.node.id = id := by
    rw [← exists_firstRows_iff]
    simp only [← List.mem_map, h.map_id_branches]
  rw [branch?, List.find?_eq_none]
  constructor
  · intro hnone row hrow hid
    obtain ⟨branch, hbranch, hsame⟩ := hfirst.1 ⟨row, hrow, hid⟩
    simpa [hsame] using hnone branch hbranch
  · intro hnone branch hbranch
    rw [beq_iff_eq]
    intro hid
    obtain ⟨row, hrow, hsame⟩ := hfirst.2 ⟨branch, hbranch, hid⟩
    exact hnone row hrow hsame

theorem any_eq_true_iff (h : forest.Mirrors earlier) {id : Int64} :
    earlier.any (·.id == id) = true ↔ forest.branch? id ≠ none := by
  rw [Ne, h.branch?_eq_none_iff]
  simp

/-- A row that is inserted keeps the forest the one of the rows so far. -/
theorem insert (h : forest.Mirrors earlier) (hinsert : forest.insert row = .ok next) :
    next.Mirrors (earlier ++ [row]) := by
  obtain ⟨parent, category, hparent, hcategory, ⟨hbranch, rfl⟩ | ⟨hbranch, rfl⟩⟩ :=
    insert_eq_ok_cases hinsert
  · refine ⟨?_, h.earlier⟩
    rw [firstRows_concat, if_pos (h.any_eq_true_iff.2 hbranch), List.append_nil]
    exact h.stands
  · have hle := (nodeAt_index? hparent).1
    refine ⟨?_, ?_⟩
    · have hnew : (forest.push (forest.branchOf row category parent)).Stands
          (forest.branchOf row category parent) row := by
        refine ⟨⟨rfl, rfl, rfl, hcategory⟩, index?_push hparent _, ?_⟩
        rw [branchOf, nodeAt_push hle]
      rw [firstRows_concat, if_neg (fun hany => h.any_eq_true_iff.1 hany hbranch)]
      exact List.rel_append (h.stands.imp fun _ _ hstands => hstands.push _) (.cons hnew .nil)
    · intro i hi
      simp only [push, List.length_append, List.length_singleton] at hi
      rcases Nat.lt_succ_iff_lt_or_eq.1 hi with hlt | rfl
      · simp only [push, List.getElem_append_left hlt]
        exact h.earlier i hlt
      · simp only [push, List.getElem_concat_length]
        exact hle

theorem insertAll (h : forest.Mirrors earlier) (hinsert : forest.insertAll rows = .ok next) :
    next.Mirrors (earlier ++ rows) := by
  induction rows generalizing forest earlier with
  | nil =>
    cases hinsert
    rwa [List.append_nil]
  | cons row rows ih =>
    obtain ⟨middle, hrow, hrows⟩ := insertAll_cons_eq_ok_iff.1 hinsert
    have hall := ih (h.insert hrow) hrows
    rwa [List.append_assoc] at hall

end Mirrors

theorem index?_rootId (forest : Forest) : forest.index? rootId = some 0 := rfl

theorem node?_of_index? {id : Int64} {index : Nat} (hroot : id ≠ rootId)
    (h : forest.index? id = some index) : forest.node? id = some (forest.nodeAt index) := by
  have hbranches : (forest.branches.findIdx? (·.node.id == id)).map (· + 1) = some index := by
    rwa [index?, isRootParent, if_neg (by simpa using hroot)] at h
  obtain ⟨position, hposition, rfl⟩ := Option.map_eq_some_iff.1 hbranches
  obtain ⟨hlt, hid, hbefore⟩ := List.findIdx?_eq_some_iff_getElem.1 hposition
  rw [nodeAt_succ hlt, node?, branch?]
  have hfind : forest.branches.find? (·.node.id == id) = some forest.branches[position] := by
    rw [List.find?_eq_some_iff_getElem]
    exact ⟨hid, position, hlt, rfl, by simpa using hbefore⟩
  rw [hfind]
  rfl

/-! ### Nodes as a graph -/

theorem nodeCount_eq (forest : Forest) : forest.nodeCount = forest.edgeCount + 1 := by
  rw [nodeCount, nodes, List.length_cons, List.length_map, edgeCount]

/-- The edges of the graph as pairs of node indices, in order. -/
def links (forest : Forest) : List (Nat × Nat) :=
  forest.branches.mapIdx fun i branch => (branch.parent, i + 1)

theorem length_links (forest : Forest) : forest.links.length = forest.edgeCount := List.length_mapIdx

/-- Whether an edge leads from one node to another, both given by their indices. -/
def Leads (forest : Forest) (parent child : Nat) : Prop := (parent, child) ∈ forest.links

/-- The edges end at the nodes one, two and so on, at each of them once and never at the root. -/
theorem map_snd_links (forest : Forest) :
    forest.links.map (·.2) = List.range' 1 forest.edgeCount := by
  apply List.ext_getElem
  · simp [links, edgeCount]
  · intro i _ _
    simp [links, Nat.add_comm]

theorem edges_eq_map_links (forest : Forest) :
    forest.edges
      = forest.links.map fun link => ((forest.nodeAt link.1).id, (forest.nodeAt link.2).id) := by
  apply List.ext_getElem
  · simp [links, edges]
  · intro i hi _
    have hi' : i < forest.branches.length := by simpa [edges] using hi
    simp [links, edges, nodeAt_succ hi']

namespace Mirrors

theorem exists_stands (h : forest.Mirrors rows) {branch : Branch} (hbranch : branch ∈ forest.branches) :
    ∃ row ∈ firstRows rows, forest.Stands branch row := by
  obtain ⟨i, hi, rfl⟩ := List.mem_iff_getElem.1 hbranch
  have hlength := h.stands.length_eq
  exact ⟨_, List.getElem_mem _, h.stands.get hi (by omega)⟩

/-- The branch found under the id of a first row is the one for this row. -/
theorem exists_branch? (h : forest.Mirrors rows) (hrow : row ∈ firstRows rows) :
    ∃ branch, forest.branch? row.id = some branch ∧ forest.Stands branch row := by
  cases hbranch : forest.branch? row.id with
  | none =>
    have hin : row ∈ rows := List.mem_of_find?_eq_some (mem_firstRows_iff.1 hrow)
    exact absurd rfl (h.branch?_eq_none_iff.1 hbranch row hin)
  | some branch =>
    have hid : branch.node.id = row.id := by simpa using List.find?_some hbranch
    obtain ⟨other, hother, hstands⟩ := h.exists_stands (List.mem_of_find?_eq_some hbranch)
    have hsame : row = other :=
      eq_of_mem_firstRows hrow hother (hid.symm.trans hstands.shows.id)
    rw [hsame]
    exact ⟨branch, rfl, hstands⟩

theorem lt_of_leads (h : forest.Mirrors rows) {parent child : Nat} (hleads : forest.Leads parent child) :
    parent < child := by
  obtain ⟨i, hi, heq⟩ := List.mem_mapIdx.1 hleads
  cases heq
  exact Nat.lt_succ_of_le (h.earlier i hi)

theorem lt_of_transGen (h : forest.Mirrors rows) {first last : Nat}
    (hpath : Relation.TransGen forest.Leads first last) : first < last := by
  induction hpath with
  | single hleads => exact h.lt_of_leads hleads
  | tail _ hleads ih => exact Nat.lt_trans ih (h.lt_of_leads hleads)

theorem reachable (h : forest.Mirrors rows) (index : Nat) (hindex : index < forest.nodeCount) :
    Relation.ReflTransGen forest.Leads 0 index := by
  induction index using Nat.strongRecOn with
  | ind index ih =>
    cases index with
    | zero => exact .refl
    | succ i =>
      have hi : i < forest.branches.length := by
        simp only [nodeCount, nodes, List.length_cons, List.length_map] at hindex
        omega
      have hle := h.earlier i hi
      have hleads : forest.Leads forest.branches[i].parent (i + 1) := List.mem_mapIdx.2 ⟨i, hi, rfl⟩
      exact .tail (ih _ (by omega) (by omega)) hleads

theorem edges_eq (h : forest.Mirrors rows) :
    forest.edges = (firstRows rows).map fun row => (row.parentId, row.id) := by
  rw [edges, ← List.forall₂_eq_eq_eq, List.forall₂_map_left_iff, List.forall₂_map_right_iff]
  refine h.stands.imp fun branch row hstands => ?_
  rw [(nodeAt_index? hstands.parent).2, hstands.shows.id]

theorem children_eq (h : forest.Mirrors rows) (id : Int64) :
    forest.children id = ((firstRows rows).filter (·.parentId = id)).map (·.id) := by
  unfold children
  cases hindex : forest.index? id with
  | none =>
    have hnone : (firstRows rows).filter (·.parentId = id) = [] := by
      rw [List.filter_eq_nil_iff]
      intro row hrow hparent
      rw [decide_eq_true_eq] at hparent
      obtain ⟨branch, _, hstands⟩ := h.exists_branch? hrow
      have hsome := hstands.parent
      rw [hparent, hindex] at hsome
      cases hsome
    rw [hnone]
    rfl
  | some index =>
    -- The node with an id has one index, so the same parent index means the same parent id.
    have hsame : ∀ branch row, forest.Stands branch row →
        ((branch.parent == index) = true ↔ decide (row.parentId = id) = true) := by
      intro branch row hstands
      rw [beq_iff_eq, decide_eq_true_eq]
      constructor
      · rintro rfl
        rw [← (nodeAt_index? hstands.parent).2, (nodeAt_index? hindex).2]
      · rintro rfl
        exact Option.some.inj (hstands.parent.symm.trans hindex)
    rw [← List.forall₂_eq_eq_eq, List.forall₂_map_left_iff, List.forall₂_map_right_iff]
    exact (List.rel_filter hsame h.stands).imp fun _ _ hstands => hstands.shows.id

theorem exists_node? (h : forest.Mirrors rows) (hrow : row ∈ firstRows rows) :
    ∃ node, forest.node? row.id = some node ∧ row.Shows node
      ∧ (row.parentId = rootId → node.depth = 1)
      ∧ (row.parentId ≠ rootId → ∃ parent, forest.node? row.parentId = some parent
        ∧ node.depth = parent.depth + 1) := by
  obtain ⟨branch, hbranch, hstands⟩ := h.exists_branch? hrow
  refine ⟨branch.node, by rw [node?, hbranch]; rfl, hstands.shows, ?_, ?_⟩
  · intro hroot
    have hparent := hstands.parent
    rw [hroot, index?_rootId, Option.some.injEq] at hparent
    rw [hstands.depth, ← hparent]
    rfl
  · intro hroot
    exact ⟨_, node?_of_index? hroot hstands.parent, hstands.depth⟩

end Mirrors

end Forest

/-! ### Assembled trees -/

theorem Status.text_ne_rootStatus {status : Status} {category : Category}
    (h : status.category? = some category) : status.text ≠ rootStatus := by
  cases status with
  | unrecognized text => cases h
  | _ => decide

theorem Tree.mirrors_of_ofRows {rows : List Row} {forest : Forest}
    (h : Tree.ofRows rows = .ok (.forest forest)) : forest.Mirrors rows := by
  cases rows with
  | nil => cases h
  | cons row rows =>
    obtain ⟨next, hnext, heq⟩ := map_eq_ok_iff.1 h
    cases heq
    exact (Forest.Mirrors.start _ _).insertAll hnext

/-- The level of a row plays no part in the tree. -/
theorem Tree.ofRows_map_level (rows : List Row) (level : Row → Int64) :
    Tree.ofRows (rows.map fun row => { row with level := level row }) = Tree.ofRows rows := by
  have hall : ∀ (forest : Forest) (rows : List Row),
      forest.insertAll (rows.map fun row => { row with level := level row })
        = forest.insertAll rows := by
    intro forest rows
    induction rows generalizing forest with
    | nil => rfl
    | cons row rows ih =>
      have hrow : forest.insert { row with level := level row } = forest.insert row := rfl
      rw [List.map_cons, Forest.insertAll, Forest.insertAll, hrow]
      cases forest.insert row with
      | error error => rfl
      | ok next => exact ih next
  cases rows with
  | nil => rfl
  | cons row rows => exact congrArg (Except.map Tree.forest) (hall _ (row :: rows))

/-- The tree that rows describe, said of a forest. -/
structure Forest.IsTreeOf (forest : Forest) (rows : List Row) : Prop where
  /-- One node for each id, in the order in which the ids are met, behind the root. -/
  ids : forest.nodes.map (·.id) = rootId :: firstSeen (rows.map (·.id))
  nodeCount : forest.nodeCount = forest.edgeCount + 1
  edges_links : forest.edges
    = forest.links.map fun link => ((forest.nodeAt link.1).id, (forest.nodeAt link.2).id)
  /-- One edge ends at each node but the root, and none at the root. -/
  entered_once : forest.links.map (·.2) = List.range' 1 forest.edgeCount
  entered_from_earlier : ∀ parent child, forest.Leads parent child → parent < child
  reachable : ∀ index < forest.nodeCount, Relation.ReflTransGen forest.Leads 0 index
  acyclic : ∀ index, ¬Relation.TransGen forest.Leads index index
  /-- Every node but the root shows the first row with its id. -/
  shows : ∃ attempts, forest.nodes = forest.root :: attempts
    ∧ List.Forall₂ Row.Shows (firstRows rows) attempts
  edges : forest.edges = (firstRows rows).map fun row => (row.parentId, row.id)
  children : ∀ id, forest.children id = ((firstRows rows).filter (·.parentId = id)).map (·.id)
  children_absent : ∀ id, id ≠ rootId → (∀ row ∈ rows, row.id ≠ id) → forest.children id = []
  /-- A node stands one step below the node of its parent, or one below the root. -/
  node : ∀ row ∈ firstRows rows, ∃ node, forest.node? row.id = some node ∧ row.Shows node
    ∧ (row.parentId = rootId → node.depth = 1)
    ∧ (row.parentId ≠ rootId → ∃ parent, forest.node? row.parentId = some parent
      ∧ node.depth = parent.depth + 1)
  isRoot : ∀ index node, forest.nodes[index]? = some node → (node.isRoot = true ↔ index = 0)
  level : ∀ level : Row → Int64,
    Tree.ofRows (rows.map fun row => { row with level := level row }) = .ok (.forest forest)

namespace Forest.Mirrors

variable {forest : Forest} {rows : List Row}

theorem map_id_nodes (h : forest.Mirrors rows) :
    forest.nodes.map (·.id) = rootId :: firstSeen (rows.map (·.id)) := by
  rw [nodes, List.map_cons, List.map_map, ← map_id_firstRows, ← h.map_id_branches]
  rfl

theorem forall₂_shows (h : forest.Mirrors rows) :
    List.Forall₂ Row.Shows (firstRows rows) (forest.branches.map (·.node)) := by
  rw [List.forall₂_map_right_iff]
  exact (h.stands.imp fun _ _ hstands => hstands.shows).flip

theorem children_eq_nil (h : forest.Mirrors rows) {id : Int64} (hroot : id ≠ rootId)
    (habsent : ∀ row ∈ rows, row.id ≠ id) : forest.children id = [] := by
  have hindex : forest.index? id = none :=
    index?_eq_none_iff.2 ⟨hroot, h.branch?_eq_none_iff.2 habsent⟩
  rw [children, hindex]

theorem isRoot_iff (h : forest.Mirrors rows) {index : Nat} {node : Node}
    (hnode : forest.nodes[index]? = some node) : node.isRoot = true ↔ index = 0 := by
  cases index with
  | zero =>
    cases hnode
    exact iff_of_true rfl rfl
  | succ i =>
    refine iff_of_false ?_ (Nat.succ_ne_zero i)
    rw [nodes, List.getElem?_cons_succ] at hnode
    obtain ⟨branch, hbranch, rfl⟩ := List.mem_map.1 (List.mem_of_getElem? hnode)
    obtain ⟨row, _, hstands⟩ := h.exists_stands hbranch
    rw [Node.isRoot, beq_iff_eq, hstands.shows.status]
    exact Status.text_ne_rootStatus hstands.shows.category

end Forest.Mirrors

/-- The forest of rows is the tree that the rows describe. -/
theorem Tree.isTreeOf_of_ofRows {rows : List Row} {forest : Forest}
    (h : Tree.ofRows rows = .ok (.forest forest)) : forest.IsTreeOf rows := by
  have hmirrors := Tree.mirrors_of_ofRows h
  exact {
    ids := hmirrors.map_id_nodes
    nodeCount := forest.nodeCount_eq
    edges_links := forest.edges_eq_map_links
    entered_once := forest.map_snd_links
    entered_from_earlier := fun _ _ => hmirrors.lt_of_leads
    reachable := hmirrors.reachable
    acyclic := fun _ hcycle => Nat.lt_irrefl _ (hmirrors.lt_of_transGen hcycle)
    shows := ⟨_, rfl, hmirrors.forall₂_shows⟩
    edges := hmirrors.edges_eq
    children := hmirrors.children_eq
    children_absent := fun _ => hmirrors.children_eq_nil
    node := fun _ => hmirrors.exists_node?
    isRoot := fun _ _ => hmirrors.isRoot_iff
    level := fun level => by rw [Tree.ofRows_map_level, h] }

/-- Ids below the root and out of order, an attempt with the root's id, and a repeated row. -/
theorem Tree.isTreeOf_merged_rows :
    let row (id parentId : Int64) (status : Status) : Row :=
      ⟨"C", "Rust", "r", "C", "Go", 9, id, parentId, status, false, false, "", "", []⟩
    let rows := [row 7 (-1) .translated, row (-1) (-1) .failed, row 3 7 .found, row 7 (-1) .pending,
      row 2 7 .failed]
    ∃ forest, Tree.ofRows rows = .ok (.forest forest) ∧ forest.IsTreeOf rows
      ∧ forest.children 7 = [3, 2] ∧ forest.children (-1) = [7, -1] := by
  intro row rows
  exact ⟨_, rfl, Tree.isTreeOf_of_ofRows rfl, by decide, by decide⟩

end AttemptLedger
