import AttemptLedger.Forest.Basic
import AttemptLedger.Proofs.Outcome
import Mathlib.Data.List.Induction
import Mathlib.Tactic.Push

/-!
# Which rows a forest can be assembled from

A row is good when its parent is an earlier row or the root, its status is known, and the first earlier
row of its attempt, if any, names the same parent. While good rows are inserted the forest keeps, for
each id met so far, the parent of the first row with that id; so assembly goes through exactly when
every row is good, and otherwise ends with the fault of the first bad row.
-/

namespace AttemptLedger

theorem Status.exists_category {status : Status} (h : status.isRecognized = true) :
    ∃ category, status.category = .ok category := by
  unfold Status.category
  cases hcategory : status.category? with
  | none =>
    rw [Status.category?_eq_none_iff.1 hcategory] at h
    cases h
  | some category => exact ⟨category, rfl⟩

namespace Row

def Attached (earlier : List Row) (row : Row) : Prop :=
  row.parentId = rootId ∨ ∃ other ∈ earlier, other.id = row.parentId

def Agrees (earlier : List Row) (row : Row) : Prop :=
  ∀ first, earlier.find? (·.id == row.id) = some first → first.parentId = row.parentId

structure Good (earlier : List Row) (row : Row) : Prop where
  attached : row.Attached earlier
  recognized : row.status.isRecognized = true
  agrees : row.Agrees earlier

/-- What is wrong with a bad row; of several faults the first in this order counts. -/
inductive Fault (earlier : List Row) (row : Row) : Error → Prop
  | danglingParent : ¬row.Attached earlier → Fault earlier row (.danglingParent row.id row.parentId)
  | unknownStatus : row.Attached earlier → row.status.isRecognized = false →
      Fault earlier row (.unknownStatus row.status.text)
  | conflictingParent {first : Row} : row.Attached earlier → row.status.isRecognized = true →
      earlier.find? (·.id == row.id) = some first → first.parentId ≠ row.parentId →
      Fault earlier row (.conflictingParent row.id first.parentId row.parentId)

def AllGood (rows : List Row) : Prop := ∀ i (h : i < rows.length), rows[i].Good (rows.take i)

variable {earlier : List Row} {row : Row}

theorem exists_fault_of_not_good (h : ¬row.Good earlier) : ∃ error, row.Fault earlier error := by
  by_cases hattached : row.Attached earlier
  · by_cases hknown : row.status.isRecognized = true
    · have hdisagrees : ¬row.Agrees earlier := fun hagrees => h ⟨hattached, hknown, hagrees⟩
      unfold Agrees at hdisagrees
      push Not at hdisagrees
      obtain ⟨first, hfirst, hconflict⟩ := hdisagrees
      exact ⟨_, .conflictingParent hattached hknown hfirst hconflict⟩
    · exact ⟨_, .unknownStatus hattached (Bool.eq_false_iff.2 hknown)⟩
  · exact ⟨_, .danglingParent hattached⟩

theorem AllGood.left {rows more : List Row} (h : AllGood (rows ++ more)) : AllGood rows := by
  intro i hi
  have hgood := h i (by rw [List.length_append]; omega)
  rwa [List.getElem_append_left hi, List.take_append_of_le_length (Nat.le_of_lt hi)] at hgood

theorem allGood_concat_iff {rows : List Row} {row : Row} :
    AllGood (rows ++ [row]) ↔ AllGood rows ∧ row.Good rows := by
  constructor
  · intro h
    have hgood := h rows.length (by simp)
    rw [List.getElem_concat_length rfl, List.take_left] at hgood
    exact ⟨h.left, hgood⟩
  · rintro ⟨hrows, hrow⟩ i hi
    rw [List.length_append, List.length_singleton] at hi
    rcases Nat.lt_succ_iff_lt_or_eq.1 hi with hlt | rfl
    · rw [List.getElem_append_left hlt, List.take_append_of_le_length (Nat.le_of_lt hlt)]
      exact hrows i hlt
    · rw [List.getElem_concat_length rfl, List.take_left]
      exact hrow

theorem allGood_take {rows : List Row} {i : Nat} (hi : i < rows.length)
    (h : ∀ j (hj : j < i), rows[j].Good (rows.take j)) : AllGood (rows.take i) := by
  intro j hj
  have hlt : j < i := by
    rw [List.length_take] at hj
    omega
  rw [List.getElem_take, List.take_take, Nat.min_eq_left (Nat.le_of_lt hlt)]
  exact h j hlt

theorem allGood_or_first_bad (rows : List Row) :
    AllGood rows
      ∨ ∃ before row after, rows = before ++ row :: after ∧ AllGood before ∧ ¬row.Good before := by
  induction rows using List.reverseRecOn with
  | nil =>
    left
    intro i hi
    exact absurd hi (Nat.not_lt_zero i)
  | append_singleton rows row ih =>
    rcases ih with hrows | ⟨before, bad, after, rfl, hbefore, hbad⟩
    · by_cases hrow : row.Good rows
      · exact Or.inl (allGood_concat_iff.2 ⟨hrows, hrow⟩)
      · exact Or.inr ⟨rows, row, [], rfl, hrows, hrow⟩
    · refine Or.inr ⟨before, bad, after ++ [row], ?_, hbefore, hbad⟩
      rw [List.append_assoc, List.cons_append]

end Row

namespace Forest

def parentOf (forest : Forest) (branch : Branch) : Int64 := (forest.nodeAt branch.parent).id

/-- The forest made of the earlier rows: it has a branch for each id that they have, below the parent
that the first row with the id names. -/
structure Tracks (forest : Forest) (earlier : List Row) : Prop where
  parent_le : ∀ branch ∈ forest.branches, branch.parent ≤ forest.branches.length
  first : ∀ id, (forest.branch? id).map forest.parentOf
    = (earlier.find? (·.id == id)).map (·.parentId)

variable {forest : Forest} {earlier : List Row} {row : Row}

theorem getElem?_nodes_succ {index : Nat} (h : index < forest.branches.length) :
    forest.nodes[index + 1]? = some forest.branches[index].node := by
  rw [nodes, List.getElem?_cons_succ, List.getElem?_map, List.getElem?_eq_getElem h]
  rfl

theorem nodeAt_succ {index : Nat} (h : index < forest.branches.length) :
    forest.nodeAt (index + 1) = forest.branches[index].node := by
  rw [nodeAt, List.getD_eq_getElem?_getD, getElem?_nodes_succ h]
  rfl

def push (forest : Forest) (branch : Branch) : Forest :=
  { forest with branches := forest.branches ++ [branch] }

theorem nodeAt_push {index : Nat} (h : index ≤ forest.branches.length) (branch : Branch) :
    (forest.push branch).nodeAt index = forest.nodeAt index := by
  cases index with
  | zero => rfl
  | succ index =>
    have hlong : index < (forest.push branch).branches.length := by
      rw [push, List.length_append]
      omega
    rw [nodeAt_succ h, nodeAt_succ hlong]
    exact congrArg Branch.node (List.getElem_append_left h)

theorem parentOf_push {branch : Branch} (h : branch.parent ≤ forest.branches.length)
    (new : Branch) : (forest.push new).parentOf branch = forest.parentOf branch :=
  congrArg Node.id (nodeAt_push h new)

theorem branch?_push (branch : Branch) (id : Int64) :
    (forest.push branch).branch? id
      = (forest.branch? id).or (if branch.node.id = id then some branch else none) := by
  unfold branch? push
  rw [List.find?_append, List.find?_singleton]
  simp

theorem index?_eq_none_iff {id : Int64} :
    forest.index? id = none ↔ id ≠ rootId ∧ forest.branch? id = none := by
  unfold index? branch? isRootParent
  by_cases hroot : id = rootId
  · simp [hroot]
  · simp [hroot, List.findIdx?_eq_none_iff, List.find?_eq_none]

theorem nodeAt_index? {id : Int64} {index : Nat} (h : forest.index? id = some index) :
    index ≤ forest.branches.length ∧ (forest.nodeAt index).id = id := by
  unfold index? isRootParent at h
  split at h
  · next hroot =>
    cases h
    rw [beq_iff_eq] at hroot
    exact ⟨Nat.zero_le _, hroot.symm⟩
  · obtain ⟨position, hposition, rfl⟩ := Option.map_eq_some_iff.1 h
    obtain ⟨hlt, hid, _⟩ := List.findIdx?_eq_some_iff_getElem.1 hposition
    refine ⟨hlt, ?_⟩
    rw [nodeAt_succ hlt]
    exact beq_iff_eq.1 hid

namespace Tracks

theorem start (seedLanguage targetLanguage : String) :
    Tracks ⟨seedLanguage, targetLanguage, []⟩ [] where
  parent_le branch hbranch := by cases hbranch
  first _ := rfl

theorem branch?_eq_none_iff (h : forest.Tracks earlier) {id : Int64} :
    forest.branch? id = none ↔ ∀ other ∈ earlier, other.id ≠ id := by
  have hnone : earlier.find? (·.id == id) = none ↔ ∀ other ∈ earlier, other.id ≠ id := by
    simp [List.find?_eq_none]
  rw [← hnone, ← Option.map_eq_none_iff, h.first id, Option.map_eq_none_iff]

theorem index?_eq_none_iff (h : forest.Tracks earlier) :
    forest.index? row.parentId = none ↔ ¬row.Attached earlier := by
  rw [Forest.index?_eq_none_iff, h.branch?_eq_none_iff, Row.Attached, not_or]
  simp

theorem exists_index? (h : forest.Tracks earlier) (hattached : row.Attached earlier) :
    ∃ index, forest.index? row.parentId = some index := by
  cases hindex : forest.index? row.parentId with
  | none => exact absurd hattached (h.index?_eq_none_iff.1 hindex)
  | some index => exact ⟨index, rfl⟩

theorem insert_fault (h : forest.Tracks earlier) {error : Error} (hfault : row.Fault earlier error) :
    forest.insert row = .error error := by
  unfold insert
  cases hfault with
  | danglingParent hdangling => rw [h.index?_eq_none_iff.2 hdangling]
  | unknownStatus hattached hunknown =>
    obtain ⟨index, hindex⟩ := h.exists_index? hattached
    have hcategory := Status.category?_eq_none_iff.2 hunknown
    rw [hindex]
    dsimp only
    rw [Status.category, hcategory]
  | @conflictingParent first hattached hknown hfirst hconflict =>
    obtain ⟨index, hindex⟩ := h.exists_index? hattached
    obtain ⟨category, hcategory⟩ := Status.exists_category hknown
    have hbranch := h.first row.id
    rw [hfirst] at hbranch
    obtain ⟨branch, hbranch, hparent⟩ := Option.map_eq_some_iff.1 hbranch
    unfold parentOf at hparent
    rw [hindex, hcategory, hbranch]
    dsimp only
    rw [hparent, if_neg hconflict]

theorem repeated (h : forest.Tracks earlier) {branch : Branch}
    (hbranch : forest.branch? row.id = some branch) : forest.Tracks (earlier ++ [row]) where
  parent_le := h.parent_le
  first id := by
    rw [h.first id, List.find?_append]
    cases hfind : earlier.find? (·.id == id) with
    | some other => rfl
    | none =>
      have hid : row.id ≠ id := by
        rintro rfl
        have hnone : forest.branch? row.id = none :=
          h.branch?_eq_none_iff.2 fun other hother => by simpa using List.find?_eq_none.1 hfind other hother
        rw [hbranch] at hnone
        cases hnone
      have hrow : [row].find? (·.id == id) = none := by simp [hid]
      rw [hrow]
      rfl

theorem added (h : forest.Tracks earlier) (category : Category) {parent : Nat}
    (hparent : forest.index? row.parentId = some parent) :
    (forest.push (forest.branchOf row category parent)).Tracks (earlier ++ [row]) := by
  obtain ⟨hle, hid⟩ := nodeAt_index? hparent
  refine ⟨?_, ?_⟩
  · intro branch hbranch
    rw [push, List.length_append, List.length_singleton]
    rcases List.mem_append.1 hbranch with hbranch | hbranch
    · exact Nat.le_succ_of_le (h.parent_le branch hbranch)
    · rw [List.mem_singleton.1 hbranch]
      exact Nat.le_succ_of_le hle
  · -- An id with a branch keeps it and its first row; any other id may be the one of the new row.
    intro id
    have hfirst := h.first id
    rw [branch?_push, List.find?_append]
    cases hfind : forest.branch? id with
    | some branch =>
      rw [hfind] at hfirst
      obtain ⟨other, hother, hsame⟩ := Option.map_eq_some_iff.1 hfirst.symm
      have hkept := parentOf_push (h.parent_le branch (List.mem_of_find?_eq_some hfind))
        (forest.branchOf row category parent)
      rw [hother, Option.some_or, Option.some_or, Option.map_some, Option.map_some, hkept, hsame]
    | none =>
      rw [hfind] at hfirst
      rw [Option.map_eq_none_iff.1 hfirst.symm, Option.none_or, Option.none_or]
      have hnode : (forest.branchOf row category parent).node.id = row.id := rfl
      by_cases hrow : row.id = id
      · have hnew : (forest.push (forest.branchOf row category parent)).parentOf
            (forest.branchOf row category parent) = row.parentId :=
          (parentOf_push hle _).trans hid
        simp [hnode, hrow, hnew]
      · simp [hnode, hrow]

/-- A good row is inserted, and the forest goes on keeping the first parents. -/
theorem insert_good (h : forest.Tracks earlier) (hgood : row.Good earlier) :
    ∃ next, forest.insert row = .ok next ∧ next.Tracks (earlier ++ [row]) := by
  obtain ⟨parent, hparent⟩ := h.exists_index? hgood.attached
  obtain ⟨category, hcategory⟩ := Status.exists_category hgood.recognized
  cases hbranch : forest.branch? row.id with
  | none =>
    refine ⟨_, ?_, h.added category hparent⟩
    rw [insert, hparent, hcategory, hbranch]
    rfl
  | some branch =>
    have hfirst := h.first row.id
    rw [hbranch] at hfirst
    obtain ⟨first, hfind, hsame⟩ := Option.map_eq_some_iff.1 hfirst.symm
    have hagrees : (forest.nodeAt branch.parent).id = row.parentId :=
      hsame.symm.trans (hgood.agrees first hfind)
    refine ⟨forest, ?_, h.repeated hbranch⟩
    rw [insert, hparent, hcategory, hbranch]
    exact if_pos hagrees

end Tracks

theorem insertAll_cons (forest : Forest) (row : Row) (rows : List Row) :
    forest.insertAll (row :: rows) = (forest.insert row).bind (·.insertAll rows) := by
  rw [insertAll]
  cases forest.insert row <;> rfl

theorem insertAll_cons_eq_ok_iff {rows : List Row} {last : Forest} :
    forest.insertAll (row :: rows) = .ok last
      ↔ ∃ next, forest.insert row = .ok next ∧ next.insertAll rows = .ok last := by
  rw [insertAll_cons, bind_eq_ok_iff]

theorem insertAll_append_eq_bind (forest : Forest) (rows more : List Row) :
    forest.insertAll (rows ++ more) = (forest.insertAll rows).bind (·.insertAll more) := by
  induction rows generalizing forest with
  | nil => rfl
  | cons row rows ih =>
    rw [List.cons_append, insertAll_cons, insertAll_cons]
    cases forest.insert row with
    | error error => rfl
    | ok next => exact ih next

theorem insertAll_append {rows more : List Row} {next : Forest}
    (h : forest.insertAll rows = .ok next) : forest.insertAll (rows ++ more) = next.insertAll more := by
  rw [insertAll_append_eq_bind, h]
  rfl

theorem exists_insertAll {rows : List Row} (h : Row.AllGood rows)
    (hstart : forest.Tracks []) : ∃ next, forest.insertAll rows = .ok next ∧ next.Tracks rows := by
  induction rows using List.reverseRecOn with
  | nil => exact ⟨forest, rfl, hstart⟩
  | append_singleton rows row ih =>
    obtain ⟨hrows, hrow⟩ := Row.allGood_concat_iff.1 h
    obtain ⟨middle, hmiddle, htracks⟩ := ih hrows
    obtain ⟨next, hnext, htracks⟩ := htracks.insert_good hrow
    refine ⟨next, ?_, htracks⟩
    rw [insertAll_append hmiddle, insertAll, hnext]
    rfl

theorem insertAll_fault {before after : List Row} (h : Row.AllGood before)
    {error : Error} (hfault : row.Fault before error) (hstart : forest.Tracks []) :
    forest.insertAll (before ++ row :: after) = .error error := by
  obtain ⟨middle, hmiddle, htracks⟩ := exists_insertAll h hstart
  rw [insertAll_append hmiddle, insertAll, htracks.insert_fault hfault]

end Forest

/-- The first row names the languages, so whatever stands behind it is inserted into the same forest. -/
theorem Tree.exists_start {rows : List Row} (h : rows ≠ []) :
    ∃ start : Forest, start.Tracks []
      ∧ ∀ more, Tree.ofRows (rows ++ more) = (start.insertAll (rows ++ more)).map .forest := by
  cases rows with
  | nil => exact absurd rfl h
  | cons row rows =>
    exact ⟨_, Forest.Tracks.start row.seedLanguage row.requestTargetLanguage, fun _ => rfl⟩

theorem Tree.ofRows_of_ne_nil {rows : List Row} (h : rows ≠ []) :
    ∃ start : Forest, start.Tracks []
      ∧ Tree.ofRows rows = (start.insertAll rows).map .forest := by
  obtain ⟨start, htracks, hstart⟩ := Tree.exists_start h
  refine ⟨start, htracks, ?_⟩
  rw [← List.append_nil rows, hstart]

/-- No rows have the empty tree. Other rows have a forest exactly when every row is good after the ones
in front of it; if not, the outcome is the fault of the first bad row. -/
theorem Tree.ofRows_forest_or_first_fault (rows : List Row) :
    (Tree.ofRows rows = .ok .empty ↔ rows = [])
      ∧ (rows ≠ [] → ((∃ forest, Tree.ofRows rows = .ok (.forest forest))
          ↔ ∀ i (h : i < rows.length), rows[i].Good (rows.take i)))
      ∧ ∀ i (h : i < rows.length), (∀ j (hj : j < i), rows[j].Good (rows.take j)) →
          ¬rows[i].Good (rows.take i) →
          ∃ error, rows[i].Fault (rows.take i) error ∧ Tree.ofRows rows = .error error := by
  refine ⟨⟨?_, ?_⟩, ?_, ?_⟩
  · intro h
    by_contra hne
    obtain ⟨start, _, hstart⟩ := Tree.ofRows_of_ne_nil hne
    rw [hstart] at h
    cases hrun : start.insertAll rows with
    | error error =>
      rw [hrun] at h
      cases h
    | ok forest =>
      rw [hrun] at h
      cases h
  · rintro rfl
    rfl
  · intro hne
    obtain ⟨start, htracks, hstart⟩ := Tree.ofRows_of_ne_nil hne
    rw [hstart]
    constructor
    · rintro ⟨forest, hforest⟩
      rcases Row.allGood_or_first_bad rows with hall | ⟨before, row, after, rfl, hbefore, hbad⟩
      · exact hall
      · obtain ⟨error, hfault⟩ := Row.exists_fault_of_not_good hbad
        rw [Forest.insertAll_fault hbefore hfault htracks] at hforest
        cases hforest
    · intro hall
      obtain ⟨forest, hrun, _⟩ := Forest.exists_insertAll hall htracks
      exact ⟨forest, by rw [hrun]; rfl⟩
  · intro i hi hbefore hbad
    have hne : rows ≠ [] := List.ne_nil_of_length_pos (Nat.lt_of_le_of_lt (Nat.zero_le i) hi)
    obtain ⟨start, htracks, hstart⟩ := Tree.ofRows_of_ne_nil hne
    obtain ⟨error, hfault⟩ := Row.exists_fault_of_not_good hbad
    -- The rows up to the bad one decide: whatever stands behind it is never looked at.
    have hsplit : rows = rows.take i ++ rows[i] :: rows.drop (i + 1) := by
      rw [← List.drop_eq_getElem_cons hi, List.take_append_drop]
    refine ⟨error, hfault, ?_⟩
    rw [hstart, hsplit, Forest.insertAll_fault (Row.allGood_take hi hbefore) hfault htracks]
    rfl

end AttemptLedger
