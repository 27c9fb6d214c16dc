import AttemptLedger.Proofs.Forest.Success
import Mathlib.Data.List.Nodup

/-!
# Rows in another order

The chains of a request may be listed in any order in which each attempt comes behind its parent. The
order decides the indices of nodes and which row of an attempt is the first; but the depth of a node is
the number of steps up to the root along the parents that the rows name, whatever their order, and the
edges are the pairs of parent and attempt that the rows have. So rows that agree on each attempt have
forests that differ in the order of their branches alone.
-/

namespace AttemptLedger

namespace Row

variable {rows others : List Row} {id : Int64} {depth : Nat}

/-- The number of steps from an attempt up to the root, along the parents that some rows name. -/
inductive HasDepth (rows : List Row) : Int64 → Nat → Prop
  | direct {row : Row} : row ∈ rows → row.parentId = rootId → HasDepth rows row.id 1
  | step {row : Row} {depth : Nat} : row ∈ rows → row.parentId ≠ rootId →
      HasDepth rows row.parentId depth → HasDepth rows row.id (depth + 1)

theorem HasDepth.mono (h : HasDepth rows id depth) (hsubset : rows ⊆ others) :
    HasDepth others id depth := by
  induction h with
  | direct hrow hroot => exact .direct (hsubset hrow) hroot
  | step hrow hroot _ ih => exact .step (hsubset hrow) hroot ih

/-- Rows that repeat an attempt name one parent. -/
def ParentsAgree (rows : List Row) : Prop :=
  ∀ row ∈ rows, ∀ other ∈ rows, row.id = other.id → row.parentId = other.parentId

theorem AllGood.parentsAgree (h : AllGood rows) : ParentsAgree rows := by
  intro row hrow other hother hid
  obtain ⟨first, hfirst, hsame⟩ := exists_mem_firstRows hrow
  rw [← h.parentId_eq hrow hfirst hsame, ← h.parentId_eq hother hfirst (hsame.trans hid)]

/-- An attempt comes by its depth through a row of its own. -/
theorem HasDepth.exists_row (h : HasDepth rows id depth) :
    ∃ row ∈ rows, row.id = id ∧ ((row.parentId = rootId ∧ depth = 1)
      ∨ (row.parentId ≠ rootId ∧ ∃ above, HasDepth rows row.parentId above ∧ depth = above + 1)) := by
  cases h with
  | direct hrow hroot => exact ⟨_, hrow, rfl, Or.inl ⟨hroot, rfl⟩⟩
  | step hrow hroot habove => exact ⟨_, hrow, rfl, Or.inr ⟨hroot, _, habove, rfl⟩⟩

/-- Parents that agree leave one way up. -/
theorem HasDepth.unique (h : HasDepth rows id depth) (hagree : ParentsAgree rows) {depth' : Nat}
    (h' : HasDepth rows id depth') : depth = depth' := by
  induction h generalizing depth' with
  | direct hrow hroot =>
    obtain ⟨other, hother, hid, ⟨_, hone⟩ | ⟨hbelow, _⟩⟩ := h'.exists_row
    · exact hone.symm
    · rw [← hagree other hother _ hrow hid] at hroot
      exact absurd hroot hbelow
  | step hrow hbelow _ ih =>
    obtain ⟨other, hother, hid, ⟨hroot, _⟩ | ⟨_, above, habove, hdepth⟩⟩ := h'.exists_row
    · rw [hagree other hother _ hrow hid] at hroot
      exact absurd hroot hbelow
    · rw [hagree other hother _ hrow hid] at habove
      rw [ih habove, hdepth]

/-- Rows that are about one request and say the same of an attempt wherever they repeat it. -/
structure Consistent (rows : List Row) : Prop where
  seedLanguage : ∀ row ∈ rows, ∀ other ∈ rows, row.seedLanguage = other.seedLanguage
  requestTargetLanguage : ∀ row ∈ rows, ∀ other ∈ rows,
    row.requestTargetLanguage = other.requestTargetLanguage
  statuses : StatusesAgree rows
  targetLanguage : ∀ row ∈ rows, ∀ other ∈ rows, row.id = other.id →
    row.targetLanguage = other.targetLanguage

theorem Consistent.mono (h : Consistent rows) (hsubset : others ⊆ rows) : Consistent others where
  seedLanguage row hrow other hother := h.seedLanguage row (hsubset hrow) other (hsubset hother)
  requestTargetLanguage row hrow other hother :=
    h.requestTargetLanguage row (hsubset hrow) other (hsubset hother)
  statuses row hrow other hother := h.statuses row (hsubset hrow) other (hsubset hother)
  targetLanguage row hrow other hother := h.targetLanguage row (hsubset hrow) other (hsubset hother)

theorem Shows.eq_of_agree {row other : Row} {node shown : Node} (h : row.Shows node)
    (hother : other.Shows shown) (hid : row.id = other.id)
    (hlanguage : row.targetLanguage = other.targetLanguage) (hstatus : row.status = other.status)
    (hdepth : node.depth = shown.depth) : node = shown := by
  have hcategory := h.category
  rw [hstatus, hother.category, Option.some.injEq] at hcategory
  have htext : row.status.text = other.status.text := congrArg Status.text hstatus
  cases node
  cases shown
  rw [Node.mk.injEq]
  exact ⟨h.id.trans (hid.trans hother.id.symm), h.label.trans (hlanguage.trans hother.label.symm),
    h.status.trans (htext.trans hother.status.symm), hcategory.symm, hdepth⟩

end Row

namespace Forest

variable {forest next : Forest} {rows : List Row} {row : Row} {id : Int64} {node : Node}

/-! ### Languages -/

theorem languages_insert (h : forest.insert row = .ok next) :
    next.seedLanguage = forest.seedLanguage ∧ next.targetLanguage = forest.targetLanguage := by
  obtain ⟨_, _, _, _, ⟨_, rfl⟩ | ⟨_, rfl⟩⟩ := insert_eq_ok_cases h
  · exact ⟨rfl, rfl⟩
  · exact ⟨rfl, rfl⟩

theorem languages_insertAll (h : forest.insertAll rows = .ok next) :
    next.seedLanguage = forest.seedLanguage ∧ next.targetLanguage = forest.targetLanguage := by
  induction rows generalizing forest with
  | nil =>
    cases h
    exact ⟨rfl, rfl⟩
  | cons row rows ih =>
    obtain ⟨middle, hrow, hrows⟩ := insertAll_cons_eq_ok_iff.1 h
    obtain ⟨hseed, htarget⟩ := languages_insert hrow
    rw [← hseed, ← htarget]
    exact ih hrows

/-! ### Nodes and depths -/

namespace Mirrors

theorem node?_eq_none_iff (h : forest.Mirrors rows) :
    forest.node? id = none ↔ ∀ row ∈ rows, row.id ≠ id := by
  rw [node?, Option.map_eq_none_iff, h.branch?_eq_none_iff]

/-- A node shows the first row of its attempt. -/
theorem exists_first_of_node? (h : forest.Mirrors rows) (hnode : forest.node? id = some node) :
    ∃ row ∈ firstRows rows, row.id = id ∧ row.Shows node
      ∧ (row.parentId = rootId → node.depth = 1)
      ∧ (row.parentId ≠ rootId → ∃ parent, forest.node? row.parentId = some parent
        ∧ node.depth = parent.depth + 1) := by
  have hmet : ∃ row ∈ rows, row.id = id := by
    by_contra hnone
    push Not at hnone
    rw [h.node?_eq_none_iff.2 hnone] at hnode
    cases hnode
  obtain ⟨row, hrow, rfl⟩ := exists_firstRows_iff.2 hmet
  obtain ⟨shown, hshown, hspec⟩ := h.exists_node? hrow
  rw [hnode] at hshown
  cases hshown
  exact ⟨row, hrow, rfl, hspec⟩

/-- The depth of a node is that of its attempt among the rows: one step above it is its parent's. -/
theorem hasDepth (h : forest.Mirrors rows) (hnode : forest.node? id = some node) :
    Row.HasDepth rows id node.depth := by
  generalize hdepth : node.depth = depth
  induction depth using Nat.strongRecOn generalizing id node with
  | ind depth ih =>
    obtain ⟨row, hrow, rfl, _, hdirect, hbelow⟩ := h.exists_first_of_node? hnode
    have hmem := mem_of_mem_firstRows hrow
    by_cases hroot : row.parentId = rootId
    · rw [← hdepth, hdirect hroot]
      exact .direct hmem hroot
    · obtain ⟨parent, hparent, habove⟩ := hbelow hroot
      rw [← hdepth, habove]
      exact .step hmem hroot (ih parent.depth (by omega) hparent rfl)

end Mirrors

/-- The children of a node are the attempts that edges lead to from it. -/
theorem Mirrors.children_eq_map_edges (h : forest.Mirrors rows) (id : Int64) :
    forest.children id = (forest.edges.filter (·.1 = id)).map (·.2) := by
  rw [h.children_eq, h.edges_eq, List.filter_map, List.map_map]
  rfl

theorem Mirrors.nodup_edges (h : forest.Mirrors rows) : forest.edges.Nodup := by
  have hids : forest.edges.map (·.2) = firstSeen (rows.map (·.id)) := by
    rw [h.edges_eq, List.map_map, ← map_id_firstRows]
    rfl
  have hnodup : (forest.edges.map (·.2)).Nodup := hids ▸ nodup_firstSeen _
  exact hnodup.of_map

theorem length_edges (forest : Forest) : forest.edges.length = forest.edgeCount := by
  rw [edges, List.length_map, edgeCount]

end Forest

namespace Tree

variable {rows others : List Row} {forest other : Forest}

theorem exists_languages (h : ofRows rows = .ok (.forest forest)) : ∃ row ∈ rows,
    forest.seedLanguage = row.seedLanguage ∧ forest.targetLanguage = row.requestTargetLanguage := by
  cases rows with
  | nil => cases h
  | cons row rows =>
    obtain ⟨next, hnext, heq⟩ := map_eq_ok_iff.1 h
    cases heq
    exact ⟨row, List.mem_cons_self, Forest.languages_insertAll hnext⟩

theorem mem_edges_iff (h : ofRows rows = .ok (.forest forest)) {edge : Int64 × Int64} :
    edge ∈ forest.edges ↔ ∃ row ∈ rows, (row.parentId, row.id) = edge := by
  rw [(mirrors_of_ofRows h).edges_eq, List.mem_map]
  constructor
  · rintro ⟨row, hrow, hedge⟩
    exact ⟨row, mem_of_mem_firstRows hrow, hedge⟩
  · rintro ⟨row, hrow, hedge⟩
    obtain ⟨first, hfirst, hid⟩ := exists_mem_firstRows hrow
    refine ⟨first, hfirst, ?_⟩
    rw [hid, (allGood_of_ofRows h).parentId_eq hrow hfirst hid, hedge]

theorem edges_perm (hperm : others.Perm rows) (h : ofRows rows = .ok (.forest forest))
    (hother : ofRows others = .ok (.forest other)) : other.edges.Perm forest.edges := by
  rw [List.perm_ext_iff_of_nodup (mirrors_of_ofRows hother).nodup_edges
    (mirrors_of_ofRows h).nodup_edges]
  intro edge
  simp only [mem_edges_iff h, mem_edges_iff hother, hperm.mem_iff]

theorem node?_of_perm (hperm : others.Perm rows) (hagree : Row.Consistent rows)
    (h : ofRows rows = .ok (.forest forest)) (hother : ofRows others = .ok (.forest other))
    {id : Int64} {node : Node} (hnode : forest.node? id = some node) : other.node? id = some node := by
  obtain ⟨row, hrow, rfl, hshows, _⟩ := (mirrors_of_ofRows h).exists_first_of_node? hnode
  have hmem := mem_of_mem_firstRows hrow
  obtain ⟨row', hrow', hid⟩ := exists_mem_firstRows (hperm.symm.subset hmem)
  have hmem' := hperm.subset (mem_of_mem_firstRows hrow')
  obtain ⟨node', hnode', hshows', _⟩ := (mirrors_of_ofRows hother).exists_node? hrow'
  rw [hid] at hnode'
  have hdepth : node'.depth = node.depth :=
    (((mirrors_of_ofRows hother).hasDepth hnode').mono hperm.subset).unique
      (allGood_of_ofRows h).parentsAgree ((mirrors_of_ofRows h).hasDepth hnode)
  rw [hnode', hshows'.eq_of_agree hshows hid (hagree.targetLanguage row' hmem' row hmem hid)
    (hagree.statuses row' hmem' row hmem hid) hdepth]

theorem node?_eq_of_perm (hperm : others.Perm rows) (hagree : Row.Consistent rows)
    (h : ofRows rows = .ok (.forest forest)) (hother : ofRows others = .ok (.forest other))
    (id : Int64) : other.node? id = forest.node? id :=
  Option.ext fun _ => ⟨node?_of_perm hperm.symm (hagree.mono hperm.subset) hother h,
    node?_of_perm hperm hagree h hother⟩

end Tree

/-- Rows of one request in two orders that both assemble have forests with the same title, the same root
and the same node for each attempt, at the same depth; edges and children are the same up to their order.
The rows must say the same of an attempt wherever they repeat it; that they name one parent for it follows
from their being accepted. -/
theorem Tree.forests_of_perm {rows others : List Row} {forest other : Forest}
    (hperm : others.Perm rows) (hagree : Row.Consistent rows)
    (hforest : Tree.ofRows rows = .ok (.forest forest))
    (hother : Tree.ofRows others = .ok (.forest other)) :
    other.title = forest.title ∧ other.root = forest.root ∧ other.nodeCount = forest.nodeCount
      ∧ other.edgeCount = forest.edgeCount ∧ (∀ id, other.node? id = forest.node? id)
      ∧ (∀ id, (other.children id).Perm (forest.children id)) ∧ other.edges.Perm forest.edges := by
  obtain ⟨row, hrow, hseed, htarget⟩ := exists_languages hforest
  obtain ⟨row', hrow', hseed', htarget'⟩ := exists_languages hother
  have hmem := hperm.subset hrow'
  have hseeds : other.seedLanguage = forest.seedLanguage := by
    rw [hseed', hseed, hagree.seedLanguage row' hmem row hrow]
  have htargets : other.targetLanguage = forest.targetLanguage := by
    rw [htarget', htarget, hagree.requestTargetLanguage row' hmem row hrow]
  have hedges := edges_perm hperm hforest hother
  have hcount : other.edgeCount = forest.edgeCount := by
    rw [← Forest.length_edges, ← Forest.length_edges, hedges.length_eq]
  refine ⟨?_, ?_, ?_, hcount, node?_eq_of_perm hperm hagree hforest hother, ?_, hedges⟩
  · rw [Forest.title, hseeds, htargets, Forest.title]
  · rw [Forest.root, hseeds, Forest.root]
  · rw [Forest.nodeCount_eq, Forest.nodeCount_eq, hcount]
  · intro id
    rw [(mirrors_of_ofRows hother).children_eq_map_edges, (mirrors_of_ofRows hforest).children_eq_map_edges]
    exact (hedges.filter _).map _

/-- Two chains of three steps, one attempt with the root's id and one repeated row, listed in two orders. -/
theorem Tree.forests_of_perm_chains :
    let row (id parentId level : Int64) (status : Status) : Row :=
      ⟨"C", "Rust", "r", "C", "Go", level, id, parentId, status, false, false, "", "", []⟩
    let rows := [row 5 (-1) 0 .translated, row 7 5 0 .failed, row 9 7 0 .found, row (-1) (-1) 0 .failed,
      row 8 (-1) 0 .pending, row 5 (-1) 1 .translated]
    let others := [row 8 (-1) 0 .pending, row 5 (-1) 1 .translated, row 5 (-1) 0 .translated,
      row (-1) (-1) 0 .failed, row 7 5 0 .failed, row 9 7 0 .found]
    ∃ forest other, Tree.ofRows rows = .ok (.forest forest) ∧ Tree.ofRows others = .ok (.forest other)
      ∧ others.Perm rows ∧ Row.Consistent rows
      ∧ (∀ id, other.node? id = forest.node? id) ∧ (forest.node? 9).map (·.depth) = some 3
      ∧ other.edges.Perm forest.edges ∧ other.edges ≠ forest.edges := by
  intro row rows others
  have hperm : others.Perm rows := by decide
  have hagree : Row.Consistent rows :=
    ⟨by decide, by decide, by unfold Row.StatusesAgree; decide, by decide⟩
  obtain ⟨_, _, _, _, hnode, _, hedges⟩ := @forests_of_perm rows others _ _ hperm hagree rfl rfl
  exact ⟨_, _, rfl, rfl, hperm, hagree, hnode, by decide, hedges, by decide⟩

end AttemptLedger
