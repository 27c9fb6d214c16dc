import AttemptLedger.Proofs.Requests
import AttemptLedger.Proofs.Timeout
import Mathlib.Data.List.Sort
import Mathlib.Logic.Equiv.Basic

/-!
# Shares of mixed tables

Tables of several runs are put behind one another, and the rows of several requests may come in turn.
A share of requests depends on the rows of each request alone, so rows of different requests may stand in
any order; where only counts or the presence of a row matter, rows of one request may as well. Tables
without a common request add up, and a table behind itself has the shares it had.
-/

namespace AttemptLedger

/-- Two shares of different things, counted together. -/
instance : Add Share where
  add share other := ⟨share.part + other.part, share.whole + other.whole⟩

theorem Share.mk_add_mk (part whole part' whole' : Nat) :
    Share.mk part whole + Share.mk part' whole' = ⟨part + part', whole + whole'⟩ := rfl

namespace Table

variable {table other mixed : Table} {succeeds : List Row → Bool}

/-! ### Rows in other places -/

/-- The positions of the rows of a request, in order. -/
def positions (table : Table) (id : String) : List (Fin table.rows.length) :=
  (List.finRange table.rows.length).filter fun i => table.rows[i].requestId == id

theorem mem_positions_iff {id : String} {i : Fin table.rows.length} :
    i ∈ table.positions id ↔ table.rows[i].requestId = id := by
  simp [positions]

theorem pairwise_lt_positions (table : Table) (id : String) :
    (table.positions id).Pairwise (· < ·) := (List.pairwise_lt_finRange _).filter _

theorem forRequest_eq_map_positions (table : Table) (id : String) :
    table.forRequest id = (table.positions id).map fun i => table.rows[i] := by
  have hrows : table.rows = (List.finRange table.rows.length).map fun i => table.rows[i] :=
    (List.map_getElem_finRange table.rows).symm
  rw [forRequest]
  conv_lhs => rw [hrows]
  rw [List.filter_map]
  rfl

/-- Whether a table has the rows of another one, each in a place of its own, so that rows of one request
stand in the same order. -/
def IsMixOf (mixed table : Table) : Prop :=
  ∃ place : Fin table.rows.length ≃ Fin mixed.rows.length,
    (∀ i, mixed.rows[place i] = table.rows[i])
      ∧ ∀ i j, i < j → table.rows[i].requestId = table.rows[j].requestId → place i < place j

/-- The places of the rows of a request ascend, so they are its positions in the mixed table. -/
theorem IsMixOf.forRequest_eq (h : mixed.IsMixOf table) (id : String) :
    mixed.forRequest id = table.forRequest id := by
  obtain ⟨place, hrow, horder⟩ := h
  have hascending : ((table.positions id).map place).Pairwise (· < ·) := by
    rw [List.pairwise_map]
    refine (table.pairwise_lt_positions id).imp_of_mem fun {i j} hi hj hlt => horder i j hlt ?_
    rw [mem_positions_iff.1 hi, mem_positions_iff.1 hj]
  have hmem : ∀ j, j ∈ (table.positions id).map place ↔ j ∈ mixed.positions id := by
    intro j
    rw [List.mem_map, mem_positions_iff]
    constructor
    · rintro ⟨i, hi, rfl⟩
      rw [hrow]
      exact mem_positions_iff.1 hi
    · intro hj
      obtain ⟨i, rfl⟩ := place.surjective j
      rw [hrow] at hj
      exact ⟨i, mem_positions_iff.2 hj, rfl⟩
  have hplaces := hascending.eq_of_mem_iff (mixed.pairwise_lt_positions id) hmem
  rw [forRequest_eq_map_positions, forRequest_eq_map_positions, ← hplaces, List.map_map]
  exact List.map_congr_left fun i _ => hrow i

theorem mem_requestIds_iff_of_forRequest {id : String}
    (h : mixed.forRequest id = table.forRequest id) :
    id ∈ mixed.requestIds ↔ id ∈ table.requestIds := by
  rw [mem_requestIds_iff, mem_requestIds_iff, h]

/-! ### Shares by request -/

/-- Tables with the same requests have the same share if each request fares alike in both. -/
theorem requestShare_congr (hids : ∀ id, id ∈ other.requestIds ↔ id ∈ table.requestIds)
    (hrows : ∀ id, succeeds (other.forRequest id) = succeeds (table.forRequest id)) :
    other.requestShare succeeds = table.requestShare succeeds := by
  have hperm : other.requestIds.Perm table.requestIds :=
    (List.perm_ext_iff_of_nodup (nodup_firstSeen _) (nodup_firstSeen _)).2 hids
  simp only [requestShare, hrows]
  rw [hperm.countP_eq, hperm.length_eq]

theorem requestShare_of_isMixOf (h : mixed.IsMixOf table) :
    mixed.requestShare succeeds = table.requestShare succeeds :=
  requestShare_congr (fun id => mem_requestIds_iff_of_forRequest (h.forRequest_eq id))
    fun id => congrArg succeeds (h.forRequest_eq id)

/-- What asks for the presence of a row alone holds of rows in any order. -/
theorem requestShare_any_of_perm (h : other.rows.Perm table.rows) (found : Row → Bool) :
    other.requestShare (·.any found) = table.requestShare (·.any found) := by
  refine requestShare_congr (fun id => ?_) fun id => (h.filter _).any_eq
  rw [← mem_map_requestId_iff, ← mem_map_requestId_iff, (h.map _).mem_iff]

theorem requestShare_append (h : ∀ id ∈ table.requestIds, id ∉ other.requestIds) :
    (concat [table, other]).requestShare succeeds
      = table.requestShare succeeds + other.requestShare succeeds := by
  have hfirst : ∀ id ∈ table.requestIds,
      (concat [table, other]).forRequest id = table.forRequest id := by
    intro id hid
    rw [forRequest_append, forRequest_eq_nil_of_not_mem (h id hid), List.append_nil]
  have hsecond : ∀ id ∈ other.requestIds,
      (concat [table, other]).forRequest id = other.forRequest id := by
    intro id hid
    rw [forRequest_append, forRequest_eq_nil_of_not_mem fun hmem => h id hmem hid, List.nil_append]
  simp only [requestShare, Share.mk_add_mk]
  rw [requestIds_append_of_disjoint h, List.countP_append, List.length_append]
  congr 2
  · exact List.countP_congr fun id hid => by rw [hfirst id hid]
  · exact List.countP_congr fun id hid => by rw [hsecond id hid]

theorem requestShare_append_self (h : ∀ rows, succeeds (rows ++ rows) = succeeds rows) :
    (concat [table, table]).requestShare succeeds = table.requestShare succeeds := by
  refine requestShare_congr (fun id => by rw [requestIds_append_self]) fun id => ?_
  rw [forRequest_append, h]

theorem any_append_self (rows : List Row) (found : Row → Bool) :
    (rows ++ rows).any found = rows.any found := by
  rw [List.any_append, Bool.or_self]

/-- Of rows behind themselves, the first few have no row that the first few of them have not. -/
theorem any_take_append_self (k : Nat) (rows : List Row) (found : Row → Bool) :
    ((rows ++ rows).take k).any found = (rows.take k).any found := by
  have hagain : (rows.take (k - rows.length)).any found = true → (rows.take k).any found = true := by
    intro hany
    obtain ⟨row, hrow, hfound⟩ := List.any_eq_true.1 hany
    have hprefix : rows.take (k - rows.length) <+: rows.take k :=
      List.take_prefix_take_left (Nat.sub_le k _)
    exact List.any_eq_true.2 ⟨row, hprefix.mem hrow, hfound⟩
  rw [List.take_append, List.any_append, Bool.or_eq_left_iff_imp]
  exact hagain

/-! ### Tests -/

theorem timeoutShare_of_perm (h : other.rows.Perm table.rows) :
    other.timeoutShare = table.timeoutShare := by
  have htests : other.tests.Perm table.tests := h.flatMap_right _
  rw [timeoutShare_eq, timeoutShare_eq, htests.countP_eq, htests.countP_eq]

theorem timeoutShare_append (table other : Table) :
    (concat [table, other]).timeoutShare = table.timeoutShare + other.timeoutShare := by
  have htests : (concat [table, other]).tests = table.tests ++ other.tests := by
    rw [tests, rows_concat, List.flatMap_append]
    rfl
  rw [timeoutShare_eq, htests, List.countP_append, List.countP_append, timeoutShare_eq,
    timeoutShare_eq, Share.mk_add_mk]

end Table

/-- How tables are mixed plays no part in their shares. Rows of different requests may stand in any order,
and for all shares but those within the first rows of a request, rows of one request as well. Tables
without a common request add up. The accuracy of a table is that of the table behind itself. -/
theorem Table.shares_of_mixed (table : Table) :
    (∀ mixed : Table, mixed.IsMixOf table → ∀ k, mixed.topKShare k = table.topKShare k)
      ∧ (∀ other : Table, other.rows.Perm table.rows →
        other.directShare = table.directShare ∧ other.overallShare = table.overallShare
          ∧ other.timeoutShare = table.timeoutShare)
      ∧ (∀ other : Table, (∀ id ∈ table.requestIds, id ∉ other.requestIds) →
        (∀ k, (concat [table, other]).topKShare k = table.topKShare k + other.topKShare k)
          ∧ (concat [table, other]).directShare = table.directShare + other.directShare
          ∧ (concat [table, other]).overallShare = table.overallShare + other.overallShare
          ∧ (concat [table, other]).timeoutShare = table.timeoutShare + other.timeoutShare)
      ∧ (∀ k, (concat [table, table]).topKShare k = table.topKShare k)
      ∧ (concat [table, table]).directShare = table.directShare
      ∧ (concat [table, table]).overallShare = table.overallShare
      ∧ (∀ k, (concat [table, table]).topKAccuracy k = table.topKAccuracy k)
      ∧ (concat [table, table]).accuracyReport = table.accuracyReport := by
  have htop : ∀ k, (concat [table, table]).topKShare k = table.topKShare k := by
    intro k
    rw [topKShare_eq_requestShare, topKShare_eq_requestShare]
    exact requestShare_append_self fun rows => any_take_append_self k rows _
  have hdirect : (concat [table, table]).directShare = table.directShare := by
    rw [directShare_eq_requestShare, directShare_eq_requestShare]
    exact requestShare_append_self fun rows => any_append_self rows _
  have hoverall : (concat [table, table]).overallShare = table.overallShare := by
    rw [overallShare_eq_requestShare, overallShare_eq_requestShare]
    exact requestShare_append_self fun rows => any_append_self rows _
  refine ⟨?_, ?_, ?_, htop, hdirect, hoverall, ?_, ?_⟩
  · intro mixed hmixed k
    rw [topKShare_eq_requestShare, topKShare_eq_requestShare]
    exact requestShare_of_isMixOf hmixed
  · intro other hperm
    simp only [directShare_eq_requestShare, overallShare_eq_requestShare]
    exact ⟨requestShare_any_of_perm hperm _, requestShare_any_of_perm hperm _,
      timeoutShare_of_perm hperm⟩
  · intro other hdisjoint
    simp only [topKShare_eq_requestShare, directShare_eq_requestShare, overallShare_eq_requestShare]
    exact ⟨fun _ => requestShare_append hdisjoint, requestShare_append hdisjoint,
      requestShare_append hdisjoint, timeoutShare_append table other⟩
  · intro k
    simp only [topKAccuracy, htop]
  · rw [accuracyReport, hdirect, hoverall]
    rfl

/-- Rows of three requests in turn, two of them put in other places; the same rows from the last to the
first, where one request more is found at once; and a table of another request, with a timeout. -/
theorem Table.shares_of_mixed_three :
    let row (request : String) (id parentId : Int64) (status : Status) (tests : List TestRecord) : Row :=
      ⟨"C", "Rust", request, "C", "Go", 0, id, parentId, status, false, false, "", "", tests⟩
    let timeout := TestRecord.ofResult "1" (some "CMD_TIMEOUT_KILLED") false
    let table : Table := ⟨[row "a" 1 (-1) .failed [timeout], row "b" 1 (-1) .found [],
      row "a" 2 1 .found [.ofResult "1" (some "2") true, .ofResult "1" none false],
      row "c" 1 (-1) .failed []]⟩
    let mixed : Table := ⟨[row "b" 1 (-1) .found [], row "a" 1 (-1) .failed [timeout],
      row "a" 2 1 .found [.ofResult "1" (some "2") true, .ofResult "1" none false],
      row "c" 1 (-1) .failed []]⟩
    let reversed : Table := ⟨table.rows.reverse⟩
    let other : Table := ⟨[row "d" 1 (-1) .found [timeout]]⟩
    mixed.IsMixOf table ∧ mixed.topKShare 1 = table.topKShare 1 ∧ table.topKShare 1 = ⟨1, 3⟩
      ∧ reversed.rows.Perm table.rows ∧ reversed.directShare = table.directShare
      ∧ reversed.timeoutShare = table.timeoutShare ∧ reversed.topKShare 1 = ⟨2, 3⟩
      ∧ (∀ id ∈ table.requestIds, id ∉ other.requestIds)
      ∧ (concat [table, other]).topKShare 1 = ⟨1, 3⟩ + ⟨1, 1⟩
      ∧ (concat [table, other]).timeoutShare = ⟨1, 2⟩ + ⟨1, 1⟩
      ∧ (concat [table, table]).topKShare 1 = ⟨1, 3⟩ := by
  intro row timeout table mixed reversed other
  have hmixed : mixed.IsMixOf table :=
    ⟨Equiv.swap (0 : Fin 4) (1 : Fin 4), by decide +kernel, by decide +kernel⟩
  have hperm : reversed.rows.Perm table.rows := List.reverse_perm table.rows
  have hdisjoint : ∀ id ∈ table.requestIds, id ∉ other.requestIds := by decide +kernel
  have htable : table.topKShare 1 = ⟨1, 3⟩ := by decide +kernel
  have hother : other.topKShare 1 = ⟨1, 1⟩ := by decide +kernel
  have htimeouts : table.timeoutShare = ⟨1, 2⟩ ∧ other.timeoutShare = ⟨1, 1⟩ := by decide +kernel
  obtain ⟨hmix, horder, happend, hself, _⟩ := shares_of_mixed table
  obtain ⟨hdirect, _, htimeout⟩ := horder reversed hperm
  obtain ⟨htop, _, _, htests⟩ := happend other hdisjoint
  refine ⟨hmixed, hmix mixed hmixed 1, htable, hperm, hdirect, htimeout, by decide +kernel, hdisjoint, ?_,
    ?_, ?_⟩
  · rw [htop, htable, hother]
  · rw [htests, htimeouts.1, htimeouts.2]
  · rw [hself, htable]

end AttemptLedger
