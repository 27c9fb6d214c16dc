import AttemptLedger.Accuracy
import AttemptLedger.Proofs.Forest.Shape
import Mathlib.Data.List.Perm.Basic

/-!
# Requests that succeeded, by rows and by trees

A request succeeded if one of its attempts was found, and directly so if that attempt starts from the
request itself. Accuracy counts such requests over the rows of a table; the forests of the requests show
the same: an attempt that was found is a green node, and a direct one stands at depth one. A forest has
only the first row of an attempt, so the two agree as long as rows that repeat an attempt repeat its
status.
-/

namespace AttemptLedger

theorem Status.category?_eq_green_iff {status : Status} :
    status.category? = some .green ↔ status.isFound = true := by
  cases status <;> simp [category?, isFound]

/-- Rows that repeat an attempt repeat its status. -/
def Row.StatusesAgree (rows : List Row) : Prop :=
  ∀ row ∈ rows, ∀ other ∈ rows, row.id = other.id → row.status = other.status

/-! ### First rows speak for their repetitions -/

theorem exists_mem_firstRows {rows : List Row} {row : Row} (h : row ∈ rows) :
    ∃ first ∈ firstRows rows, first.id = row.id :=
  exists_firstRows_iff.2 ⟨row, h, rfl⟩

theorem mem_of_mem_firstRows {rows : List Row} {row : Row} (h : row ∈ firstRows rows) : row ∈ rows :=
  List.mem_of_find?_eq_some (mem_firstRows_iff.1 h)

/-- Good rows that repeat an attempt name the parent that its first row names. -/
theorem Row.AllGood.parentId_eq {rows : List Row} (h : Row.AllGood rows) {row first : Row}
    (hrow : row ∈ rows) (hfirst : first ∈ firstRows rows) (hid : first.id = row.id) :
    first.parentId = row.parentId := by
  induction rows using List.reverseRecOn with
  | nil => cases hrow
  | append_singleton rows last ih =>
    obtain ⟨hrows, hlast⟩ := Row.allGood_concat_iff.1 h
    rw [firstRows_concat, List.mem_append] at hfirst
    rcases List.mem_append.1 hrow with hrow | hrow
    · rcases hfirst with hfirst | hfirst
      · exact ih hrows hrow hfirst
      · -- The last row is no first one, since its attempt was met before.
        split at hfirst
        · cases hfirst
        · next hnew =>
          rw [List.mem_singleton.1 hfirst] at hid
          exact absurd (List.any_eq_true.2 ⟨row, hrow, by simp [hid]⟩) hnew
    · rw [List.mem_singleton.1 hrow] at hid ⊢
      rcases hfirst with hfirst | hfirst
      · refine hlast.agrees first ?_
        rw [← hid]
        exact mem_firstRows_iff.1 hfirst
      · split at hfirst
        · cases hfirst
        · rw [List.mem_singleton.1 hfirst]

theorem Tree.allGood_of_ofRows {rows : List Row} {forest : Forest}
    (h : Tree.ofRows rows = .ok (.forest forest)) : Row.AllGood rows := by
  rcases Row.allGood_or_first_bad rows with hall | ⟨before, row, after, rfl, hbefore, hbad⟩
  · exact hall
  · obtain ⟨error, hfault⟩ := Row.exists_fault_of_not_good hbad
    have hne : before ++ row :: after ≠ [] := List.append_ne_nil_of_right_ne_nil _ (List.cons_ne_nil _ _)
    obtain ⟨start, htracks, hstart⟩ := Tree.ofRows_of_ne_nil hne
    rw [hstart, Forest.insertAll_fault hbefore hfault htracks] at h
    cases h

/-! ### Nodes of attempts that were found -/

def Node.isGreen (node : Node) : Bool := node.category == .green

def Node.isDirect (node : Node) : Bool := node.depth == 1

namespace Forest

variable {forest : Forest} {rows : List Row} {branch : Branch} {row : Row}

theorem Stands.isGreen_iff (h : forest.Stands branch row) :
    branch.node.isGreen = true ↔ row.status.isFound = true := by
  rw [← Status.category?_eq_green_iff, h.shows.category, Option.some.injEq, Node.isGreen, beq_iff_eq]

namespace Mirrors

/-- The attempts at depth one are those whose parent is the request itself. -/
theorem isDirect_iff (h : forest.Mirrors rows) (hstands : forest.Stands branch row) :
    branch.node.isDirect = true ↔ isRootParent row.parentId = true := by
  have hdepth := hstands.depth
  have hparent := hstands.parent
  rw [Node.isDirect, isRootParent, beq_iff_eq, beq_iff_eq]
  constructor
  · intro hone
    -- Every node but the root is below another one, so depth zero is the root's alone.
    cases hindex : branch.parent with
    | zero =>
      rw [hindex] at hparent
      exact (nodeAt_index? hparent).2.symm
    | succ i =>
      rw [hindex] at hparent hdepth
      have hi : i < forest.branches.length := (nodeAt_index? hparent).1
      obtain ⟨_, _, habove⟩ := h.exists_stands (List.getElem_mem hi)
      rw [nodeAt_succ hi, habove.depth] at hdepth
      omega
  · intro hroot
    rw [hroot, index?_rootId, Option.some.injEq] at hparent
    rw [hdepth, ← hparent]
    rfl

/-- A forest has a node of some kind exactly when some first row is of the kind, unless the root is. -/
theorem any_nodes_iff (h : forest.Mirrors rows) {kind : Node → Bool} {wanted : Row → Prop}
    (hroot : kind forest.root = false)
    (hkind : ∀ branch row, forest.Stands branch row → (kind branch.node = true ↔ wanted row)) :
    forest.nodes.any kind = true ↔ ∃ row ∈ firstRows rows, wanted row := by
  rw [nodes, List.any_cons, hroot, Bool.false_or, List.any_map, List.any_eq_true]
  constructor
  · rintro ⟨branch, hbranch, hnode⟩
    obtain ⟨row, hrow, hstands⟩ := h.exists_stands hbranch
    exact ⟨row, hrow, (hkind branch row hstands).1 hnode⟩
  · rintro ⟨row, hrow, hwanted⟩
    obtain ⟨branch, hbranch, hstands⟩ := h.exists_branch? hrow
    exact ⟨branch, List.mem_of_find?_eq_some hbranch, (hkind branch row hstands).2 hwanted⟩

end Mirrors

end Forest

namespace Tree

variable {forest : Forest} {rows : List Row}

theorem any_isGreen_iff (h : ofRows rows = .ok (.forest forest)) (hagree : Row.StatusesAgree rows) :
    forest.nodes.any Node.isGreen = true ↔ ∃ row ∈ rows, row.status.isFound = true := by
  rw [(mirrors_of_ofRows h).any_nodes_iff rfl fun _ _ hstands => hstands.isGreen_iff]
  constructor
  · rintro ⟨first, hfirst, hfound⟩
    exact ⟨first, mem_of_mem_firstRows hfirst, hfound⟩
  · rintro ⟨row, hrow, hfound⟩
    obtain ⟨first, hfirst, hid⟩ := exists_mem_firstRows hrow
    refine ⟨first, hfirst, ?_⟩
    rwa [hagree first (mem_of_mem_firstRows hfirst) row hrow hid]

theorem any_isGreen_isDirect_iff (h : ofRows rows = .ok (.forest forest))
    (hagree : Row.StatusesAgree rows) :
    forest.nodes.any (fun node => node.isGreen && node.isDirect) = true
      ↔ ∃ row ∈ rows, row.status.isFound = true ∧ isRootParent row.parentId = true := by
  have hmirrors := mirrors_of_ofRows h
  have hkind : ∀ branch row, forest.Stands branch row →
      ((branch.node.isGreen && branch.node.isDirect) = true
        ↔ row.status.isFound = true ∧ isRootParent row.parentId = true) := by
    intro branch row hstands
    rw [Bool.and_eq_true, hstands.isGreen_iff, hmirrors.isDirect_iff hstands]
  rw [hmirrors.any_nodes_iff rfl hkind]
  constructor
  · rintro ⟨first, hfirst, hfound⟩
    exact ⟨first, mem_of_mem_firstRows hfirst, hfound⟩
  · rintro ⟨row, hrow, hfound, hparent⟩
    obtain ⟨first, hfirst, hid⟩ := exists_mem_firstRows hrow
    refine ⟨first, hfirst, ?_, ?_⟩
    · rwa [hagree first (mem_of_mem_firstRows hfirst) row hrow hid]
    · rwa [(allGood_of_ofRows h).parentId_eq hrow hfirst hid]

end Tree

/-! ### Tables -/

theorem mem_firstSeen_iff {α : Type} [DecidableEq α] {a : α} {as : List α} :
    a ∈ firstSeen as ↔ a ∈ as := by
  induction as with
  | nil => rfl
  | cons b as ih =>
    rw [firstSeen, List.mem_cons, List.mem_filter, ih, List.mem_cons]
    by_cases hab : a = b <;> simp [hab]

namespace Table

/-- The forest of a request, if its rows have one. -/
def forest? (table : Table) (requestId : String) : Option Forest :=
  match table.requestTree requestId with
  | .ok (.forest forest) => some forest
  | _ => none

/-- Among the requests with a forest, the share of those whose forest has a node of some kind. -/
def forestShare (kind : Node → Bool) (table : Table) : Share where
  part := table.requestIds.countP fun id => (table.forest? id).any fun forest => forest.nodes.any kind
  whole := table.requestIds.countP fun id => (table.forest? id).isSome

variable {table : Table} {id : String}

theorem mem_foundRequests_iff {condition : Row → Bool} :
    id ∈ table.foundRequests condition
      ↔ ∃ row ∈ table.forRequest id, row.status.isFound = true ∧ condition row = true := by
  simp only [foundRequests, mem_firstSeen_iff, List.mem_map, List.mem_filter, forRequest,
    Bool.and_eq_true, beq_iff_eq]
  constructor
  · rintro ⟨row, ⟨hrow, hfound⟩, hid⟩
    exact ⟨row, ⟨hrow, hid⟩, hfound⟩
  · rintro ⟨row, ⟨hrow, hid⟩, hfound⟩
    exact ⟨row, ⟨hrow, hfound⟩, hid⟩

theorem mem_requestIds_iff : id ∈ table.requestIds ↔ table.forRequest id ≠ [] := by
  simp [requestIds, mem_firstSeen_iff, forRequest, List.filter_eq_nil_iff]

theorem exists_forest (h : ∃ tree, table.requestTree id = .ok tree) (hid : id ∈ table.requestIds) :
    ∃ forest, Tree.ofRows (table.forRequest id) = .ok (.forest forest)
      ∧ table.forest? id = some forest := by
  obtain ⟨tree, htree⟩ := h
  have hrows := mem_requestIds_iff.1 hid
  have hforest : ∃ forest, tree = .forest forest := by
    obtain ⟨start, _, hstart⟩ := Tree.ofRows_of_ne_nil hrows
    rw [requestTree, hstart] at htree
    obtain ⟨forest, _, rfl⟩ := map_eq_ok_iff.1 htree
    exact ⟨forest, rfl⟩
  obtain ⟨forest, rfl⟩ := hforest
  exact ⟨forest, htree, by rw [forest?, htree]⟩

theorem length_foundRequests {condition : Row → Bool} {succeeded : String → Bool}
    (h : ∀ id ∈ table.requestIds, succeeded id = true
      ↔ ∃ row ∈ table.forRequest id, row.status.isFound = true ∧ condition row = true) :
    (table.foundRequests condition).length = table.requestIds.countP succeeded := by
  have hmem : ∀ id, id ∈ table.foundRequests condition ↔ id ∈ table.requestIds.filter succeeded := by
    intro id
    rw [List.mem_filter, mem_foundRequests_iff]
    constructor
    · rintro ⟨row, hrow, hfound⟩
      have hid : id ∈ table.requestIds := mem_requestIds_iff.2 (List.ne_nil_of_mem hrow)
      exact ⟨hid, (h id hid).2 ⟨row, hrow, hfound⟩⟩
    · rintro ⟨hid, hsucceeded⟩
      exact (h id hid).1 hsucceeded
  have hnodup : (table.requestIds.filter succeeded).Nodup := (nodup_firstSeen _).filter _
  rw [List.countP_eq_length_filter]
  exact ((List.perm_ext_iff_of_nodup (nodup_firstSeen _) hnodup).2 hmem).length_eq

theorem share_eq_forestShare {condition : Row → Bool} {kind : Node → Bool}
    (hassembles : ∀ id ∈ table.requestIds, ∃ tree, table.requestTree id = .ok tree)
    (hkind : ∀ id forest, Tree.ofRows (table.forRequest id) = .ok (.forest forest) →
      (forest.nodes.any kind = true
        ↔ ∃ row ∈ table.forRequest id, row.status.isFound = true ∧ condition row = true)) :
    ⟨(table.foundRequests condition).length, table.requestIds.length⟩ = table.forestShare kind := by
  have hwhole : table.requestIds.countP (fun id => (table.forest? id).isSome)
      = table.requestIds.length := by
    rw [List.countP_eq_length]
    intro id hid
    obtain ⟨forest, _, hforest⟩ := exists_forest (hassembles id hid) hid
    rw [hforest]
    rfl
  rw [forestShare, hwhole]
  congr 1
  refine length_foundRequests fun id hid => ?_
  obtain ⟨forest, hrows, hforest⟩ := exists_forest (hassembles id hid) hid
  rw [hforest, Option.any_some, hkind id forest hrows]

end Table

/-- If the rows of every request assemble and repeat the statuses of repeated attempts, the shares that
accuracy is computed from are those of the requests whose forests have a green node, and a green node at
depth one, among the requests with a forest. -/
theorem Table.shares_eq_forestShares (table : Table)
    (hassembles : ∀ id ∈ table.requestIds, ∃ tree, table.requestTree id = .ok tree)
    (hagree : ∀ id ∈ table.requestIds, Row.StatusesAgree (table.forRequest id)) :
    table.overallShare = table.forestShare Node.isGreen
      ∧ table.directShare = table.forestShare (fun node => node.isGreen && node.isDirect)
      ∧ table.accuracyReport
        = ((table.forestShare fun node => node.isGreen && node.isDirect).percentage "requests").bind
          fun direct => ((table.forestShare Node.isGreen).percentage "requests").map fun all =>
            ⟨direct, all⟩ := by
  have hstatuses : ∀ id forest, Tree.ofRows (table.forRequest id) = .ok (.forest forest) →
      Row.StatusesAgree (table.forRequest id) := by
    intro id forest hforest
    refine hagree id (Table.mem_requestIds_iff.2 ?_)
    intro hnone
    rw [hnone] at hforest
    cases hforest
  have hoverall : table.overallShare = table.forestShare Node.isGreen := by
    refine share_eq_forestShare hassembles fun id forest hforest => ?_
    rw [Tree.any_isGreen_iff hforest (hstatuses id forest hforest)]
    simp
  have hdirect : table.directShare
      = table.forestShare fun node => node.isGreen && node.isDirect :=
    share_eq_forestShare hassembles fun id forest hforest =>
      Tree.any_isGreen_isDirect_iff hforest (hstatuses id forest hforest)
  refine ⟨hoverall, hdirect, ?_⟩
  rw [accuracyReport, hoverall, hdirect]
  cases (table.forestShare fun node => node.isGreen && node.isDirect).percentage "requests" with
  | error e => rfl
  | ok direct => rfl

/-- Rows of three requests in turn: one with a found attempt two steps down and a repeated row, one whose
found attempt has the root's id, and one without any. -/
theorem Table.shares_eq_forestShares_interleaved :
    let row (request : String) (id parentId : Int64) (status : Status) : Row :=
      ⟨"C", "Rust", request, "C", "Go", 0, id, parentId, status, false, false, "", "", []⟩
    let table : Table := ⟨[row "a" 1 (-1) .translated, row "b" (-1) (-1) .found, row "a" 2 1 .found,
      row "c" 1 (-1) .failed, row "a" 1 (-1) .translated]⟩
    (∀ id ∈ table.requestIds, ∃ tree, table.requestTree id = .ok tree)
      ∧ (∀ id ∈ table.requestIds, Row.StatusesAgree (table.forRequest id))
      ∧ table.overallShare = table.forestShare Node.isGreen
      ∧ table.directShare = table.forestShare (fun node => node.isGreen && node.isDirect)
      ∧ table.forestShare Node.isGreen = ⟨2, 3⟩
      ∧ table.forestShare (fun node => node.isGreen && node.isDirect) = ⟨1, 3⟩ := by
  intro row table
  have hids : table.requestIds = ["a", "b", "c"] := by decide
  have hassembles : ∀ id ∈ table.requestIds, ∃ tree, table.requestTree id = .ok tree := by
    rw [hids]
    exact List.forall_mem_cons.2 ⟨⟨_, rfl⟩, List.forall_mem_cons.2 ⟨⟨_, rfl⟩,
      List.forall_mem_singleton.2 ⟨_, rfl⟩⟩⟩
  have hagree : ∀ id ∈ table.requestIds, Row.StatusesAgree (table.forRequest id) := by
    rw [hids]
    unfold Row.StatusesAgree
    decide
  obtain ⟨hoverall, hdirect, _⟩ := shares_eq_forestShares table hassembles hagree
  exact ⟨hassembles, hagree, hoverall, hdirect, by decide, by decide⟩

end AttemptLedger
