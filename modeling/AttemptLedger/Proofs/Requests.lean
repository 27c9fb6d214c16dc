import AttemptLedger.Proofs.Accuracy

/-!
# Shares by request

Whatever accuracy asks of a request, it asks of the request's own rows in their order: whether one of the
first few was found, whether any was, or whether one was that starts from the request itself. So each
share is that of the requests whose rows have some property, and what holds of such shares for every
property holds of accuracy. Here are the requests and their rows in tables put behind one another.
-/

namespace AttemptLedger

/-! ### Values in the order in which they are seen -/

theorem firstSeen_append_of_disjoint {α : Type} [DecidableEq α] {as bs : List α}
    (h : ∀ a ∈ as, a ∉ bs) : firstSeen (as ++ bs) = firstSeen as ++ firstSeen bs := by
  rw [firstSeen_append, List.filter_eq_self.2]
  intro b hb
  rw [decide_eq_true_eq]
  exact fun hmem => h b hmem (mem_firstSeen_iff.1 hb)

theorem firstSeen_append_of_subset {α : Type} [DecidableEq α] {as bs : List α} (h : bs ⊆ as) :
    firstSeen (as ++ bs) = firstSeen as := by
  rw [firstSeen_append, List.filter_eq_nil_iff.2, List.append_nil]
  intro b hb
  rw [decide_eq_true_eq]
  exact fun hnew => hnew (h (mem_firstSeen_iff.1 hb))

namespace Table

/-- Among the requests of a table, the share of those whose rows have some property. -/
def requestShare (succeeds : List Row → Bool) (table : Table) : Share where
  part := table.requestIds.countP fun id => succeeds (table.forRequest id)
  whole := table.requestIds.length

theorem topKShare_eq_requestShare (k : Nat) (table : Table) :
    table.topKShare k = table.requestShare fun rows => (rows.take k).any (·.status.isFound) :=
  topKShare_eq k table

theorem overallShare_eq_requestShare (table : Table) :
    table.overallShare = table.requestShare fun rows => rows.any (·.status.isFound) := by
  rw [requestShare, ← overallShare_part]
  rfl

theorem directShare_eq_requestShare (table : Table) :
    table.directShare = table.requestShare fun rows =>
      rows.any fun row => row.status.isFound && isRootParent row.parentId := by
  rw [requestShare, ← directShare_part]
  rfl

/-! ### Tables behind one another -/

variable {table other : Table}

theorem rows_concat (table other : Table) :
    (concat [table, other]).rows = table.rows ++ other.rows := by
  simp [concat]

theorem forRequest_append (table other : Table) (id : String) :
    (concat [table, other]).forRequest id = table.forRequest id ++ other.forRequest id := by
  rw [forRequest, rows_concat, List.filter_append]
  rfl

theorem mem_map_requestId_iff {id : String} :
    id ∈ table.rows.map (·.requestId) ↔ id ∈ table.requestIds := mem_firstSeen_iff.symm

theorem requestIds_append_of_disjoint (h : ∀ id ∈ table.requestIds, id ∉ other.requestIds) :
    (concat [table, other]).requestIds = table.requestIds ++ other.requestIds := by
  rw [requestIds, rows_concat, List.map_append, firstSeen_append_of_disjoint]
  · rfl
  · intro id hid
    rw [mem_map_requestId_iff] at hid ⊢
    exact h id hid

theorem requestIds_append_self (table : Table) :
    (concat [table, table]).requestIds = table.requestIds := by
  rw [requestIds, rows_concat, List.map_append, firstSeen_append_of_subset fun _ hid => hid]
  rfl

theorem forRequest_eq_nil_of_not_mem {id : String} (h : id ∉ table.requestIds) :
    table.forRequest id = [] := by
  rw [mem_requestIds_iff, not_not] at h
  exact h

end Table

end AttemptLedger
