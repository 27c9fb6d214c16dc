import AttemptLedger.Proofs.Forest.Success

/-!
# Accuracy within the first rows of each request

One pass over the rows of a table keeps a tally for each request, in the order in which requests are met.
A tally is that of the request's own rows, however they are spread over the table: how many were counted,
and whether one of the first few was found. So the requests that succeed within a limit are no fewer
under a higher one, and in the end they are those that succeed at all.
-/

namespace AttemptLedger

/-! ### One request -/

def Tally.ofRows (k : Nat) (rows : List Row) : Tally := rows.foldl (Tally.count k) {}

theorem Tally.ofRows_concat (k : Nat) (rows : List Row) (row : Row) :
    ofRows k (rows ++ [row]) = (ofRows k rows).count k row := by
  rw [ofRows, List.foldl_append]
  rfl

/-- A tally stops at its limit: the rows behind it are not looked at. -/
theorem Tally.ofRows_eq (k : Nat) (rows : List Row) :
    ofRows k rows = ⟨min k rows.length, (rows.take k).any (·.status.isFound)⟩ := by
  induction rows using List.reverseRecOn with
  | nil => simp [ofRows]
  | append_singleton rows row ih =>
    rw [ofRows_concat, ih, count, List.length_append, List.length_singleton]
    by_cases hlimit : rows.length < k
    · have hmin : min k rows.length = rows.length := by omega
      have hnext : min k (rows.length + 1) = rows.length + 1 := by omega
      have hshort : (rows ++ [row]).length ≤ k := by
        rw [List.length_append, List.length_singleton]
        omega
      rw [hmin, hnext, if_pos hlimit, List.take_of_length_le hshort,
        List.take_of_length_le (Nat.le_of_lt hlimit)]
      simp
    · have hmin : min k rows.length = k := by omega
      have hnext : min k (rows.length + 1) = k := by omega
      rw [hmin, hnext, if_neg (Nat.lt_irrefl k), List.take_append_of_le_length (Nat.not_lt.1 hlimit)]

/-! ### All requests in one pass -/

theorem firstSeen_append {α : Type} [DecidableEq α] (as bs : List α) :
    firstSeen (as ++ bs) = firstSeen as ++ (firstSeen bs).filter (· ∉ as) := by
  induction as with
  | nil => simp [firstSeen]
  | cons a as ih =>
    have hfilter : ((firstSeen bs).filter (· ∉ as)).filter (· ≠ a)
        = (firstSeen bs).filter (· ∉ a :: as) := by
      rw [List.filter_filter]
      refine List.filter_congr fun b _ => ?_
      simp [List.mem_cons, not_or]
    rw [List.cons_append, firstSeen, ih, List.filter_append, hfilter, firstSeen, List.cons_append]

theorem firstSeen_concat {α : Type} [DecidableEq α] (as : List α) (a : α) :
    firstSeen (as ++ [a]) = if a ∈ as then firstSeen as else firstSeen as ++ [a] := by
  rw [firstSeen_append]
  by_cases ha : a ∈ as <;> simp [firstSeen, ha]

/-- Counting a row changes the tally of its request, or starts one behind all others. -/
theorem Tallies.count_map {k : Nat} {row : Row} {ids : List String} (hids : ids.Nodup)
    (tally : String → Tally) :
    Tallies.count k row (ids.map fun id => (id, tally id))
      = if row.requestId ∈ ids then
          ids.map fun id => (id, if id = row.requestId then (tally id).count k row else tally id)
        else ids.map (fun id => (id, tally id)) ++ [(row.requestId, Tally.count k {} row)] := by
  induction ids with
  | nil => rfl
  | cons id ids ih =>
    obtain ⟨hid, hrest⟩ := List.nodup_cons.1 hids
    rw [List.map_cons, count]
    by_cases heq : id = row.requestId
    · have hothers : ids.map (fun id => (id, tally id))
          = ids.map fun id => (id, if id = row.requestId then (tally id).count k row else tally id) := by
        refine List.map_congr_left fun other hother => ?_
        have hne : other ≠ row.requestId := fun h => hid (heq.trans h.symm ▸ hother)
        rw [if_neg hne]
      simp [heq, hothers]
    · have hne : row.requestId ≠ id := Ne.symm heq
      rw [if_neg heq, ih hrest]
      by_cases hmem : row.requestId ∈ ids <;> simp [hmem, heq, hne]

namespace Table

variable {table : Table} {id : String}

theorem forRequest_concat (rows : List Row) (row : Row) (id : String) :
    forRequest ⟨rows ++ [row]⟩ id
      = if id = row.requestId then forRequest ⟨rows⟩ id ++ [row] else forRequest ⟨rows⟩ id := by
  unfold forRequest
  rw [List.filter_append]
  by_cases h : id = row.requestId
  · simp [h]
  · simp [h, Ne.symm h]

/-- The pass over a table tallies each request by its own rows. -/
theorem tallies_eq (k : Nat) (table : Table) :
    table.tallies k = table.requestIds.map fun id => (id, Tally.ofRows k (table.forRequest id)) := by
  obtain ⟨rows⟩ := table
  -- By induction on the rows that were passed; the last one belongs to a request met before, or not.
  induction rows using List.reverseRecOn with
  | nil => rfl
  | append_singleton rows row ih =>
    have hstep : tallies k ⟨rows ++ [row]⟩ = (tallies k ⟨rows⟩).count k row := by
      simp [tallies, List.foldl_append]
    have hids : requestIds ⟨rows ++ [row]⟩
        = if row.requestId ∈ requestIds ⟨rows⟩ then requestIds ⟨rows⟩
          else requestIds ⟨rows⟩ ++ [row.requestId] := by
      simp only [requestIds, List.map_append, List.map_singleton, firstSeen_concat, mem_firstSeen_iff]
    have htallies : ∀ id, Tally.ofRows k (forRequest ⟨rows ++ [row]⟩ id)
        = if id = row.requestId then (Tally.ofRows k (forRequest ⟨rows⟩ id)).count k row
          else Tally.ofRows k (forRequest ⟨rows⟩ id) := by
      intro id
      rw [forRequest_concat]
      split
      · exact Tally.ofRows_concat k _ row
      · rfl
    have hnodup : (requestIds ⟨rows⟩).Nodup := nodup_firstSeen _
    rw [hstep, ih, Tallies.count_map hnodup, hids]
    simp only [htallies]
    split
    · rfl
    · next hnew =>
      have hnone : forRequest ⟨rows⟩ row.requestId = [] := by
        by_contra hrows
        exact hnew (mem_requestIds_iff.2 hrows)
      have hothers : ∀ id ∈ requestIds ⟨rows⟩, id ≠ row.requestId := fun id hid heq => hnew (heq ▸ hid)
      rw [List.map_append, List.map_singleton, if_pos rfl, hnone]
      congr 1
      refine List.map_congr_left fun id hid => ?_
      rw [if_neg (hothers id hid)]

/-! ### Requests that succeed -/

/-- The number of requests with a found attempt among their first rows. -/
def foundWithin (k : Nat) (table : Table) : Nat :=
  table.requestIds.countP fun id => ((table.forRequest id).take k).any (·.status.isFound)

theorem topKShare_eq (k : Nat) (table : Table) :
    table.topKShare k = ⟨table.foundWithin k, table.requestIds.length⟩ := by
  rw [topKShare, tallies_eq, List.countP_map, List.length_map]
  congr 1
  refine List.countP_congr fun id _ => ?_
  simp [Tally.ofRows_eq]

theorem foundWithin_le_succ (k : Nat) (table : Table) :
    table.foundWithin k ≤ table.foundWithin (k + 1) := by
  refine List.countP_mono_left fun id _ hfound => ?_
  obtain ⟨row, hrow, hstatus⟩ := List.any_eq_true.1 hfound
  have htake : (table.forRequest id).take k <+: (table.forRequest id).take (k + 1) :=
    List.take_prefix_take_left (Nat.le_succ k)
  exact List.any_eq_true.2 ⟨row, htake.mem hrow, hstatus⟩

theorem foundWithin_le_length (k : Nat) (table : Table) :
    table.foundWithin k ≤ table.requestIds.length := List.countP_le_length

theorem overallShare_part (table : Table) :
    table.overallShare.part
      = table.requestIds.countP fun id => (table.forRequest id).any (·.status.isFound) :=
  length_foundRequests fun id _ => by simp [List.any_eq_true]

theorem directShare_part (table : Table) :
    table.directShare.part = table.requestIds.countP fun id =>
      (table.forRequest id).any fun row => row.status.isFound && isRootParent row.parentId :=
  length_foundRequests fun id _ => by simp [List.any_eq_true]

theorem foundWithin_le_overall (k : Nat) (table : Table) :
    table.foundWithin k ≤ table.overallShare.part := by
  rw [overallShare_part]
  refine List.countP_mono_left fun id _ hfound => ?_
  obtain ⟨row, hrow, hstatus⟩ := List.any_eq_true.1 hfound
  exact List.any_eq_true.2 ⟨row, List.mem_of_mem_take hrow, hstatus⟩

theorem foundWithin_eq_overall {k : Nat}
    (h : ∀ id ∈ table.requestIds, (table.forRequest id).length ≤ k) :
    table.foundWithin k = table.overallShare.part := by
  rw [overallShare_part]
  refine List.countP_congr fun id hid => ?_
  rw [List.take_of_length_le (h id hid)]

theorem directShare_part_le (table : Table) : table.directShare.part ≤ table.overallShare.part := by
  rw [directShare_part, overallShare_part]
  refine List.countP_mono_left fun id _ hfound => ?_
  obtain ⟨row, hrow, hstatus⟩ := List.any_eq_true.1 hfound
  exact List.any_eq_true.2 ⟨row, hrow, (Bool.and_eq_true_iff.1 hstatus).1⟩

theorem requestIds_eq_nil_iff : table.requestIds = [] ↔ table.rows = [] := by
  obtain ⟨rows⟩ := table
  cases rows <;> simp [requestIds, firstSeen]

end Table

/-! ### Limits -/

theorem checkTopK_of_le {k : Int64} (h : 1 ≤ k ∧ k ≤ 10) : checkTopK k = .ok k.toInt.toNat := if_pos h

theorem checkTopK_of_lt {k : Int64} (h : k < 1 ∨ 10 < k) :
    checkTopK k = .error (.invalidParameter (.topK k)) := by
  refine if_neg fun hk => ?_
  simp only [minTopK, maxTopK, Int64.le_iff_toInt_le] at hk
  simp only [Int64.lt_iff_toInt_lt] at h
  omega

theorem Share.divisionByZero_iff {what : String} {share : Share} :
    (∃ text, share.percentage what = .error (.divisionByZero text)) ↔ share.whole = 0 := by
  unfold percentage
  split <;> simp_all

/-- Accuracy within a limit from one to ten is the share of the requests with a found attempt among as
many of their first rows, in percent; there is none of an empty table, and no other limit. The requests
are no fewer under a higher limit, and all that succeed are among them once the limit passes no row
over; direct attempts are no more than all. -/
theorem Table.topKAccuracy_eq (table : Table) (k : Int64) :
    (k < 1 ∨ 10 < k → table.topKAccuracy k = .error (.invalidParameter (.topK k)))
      ∧ (1 ≤ k ∧ k ≤ 10 →
        table.topKAccuracy k
            = (Share.mk (table.foundWithin k.toInt.toNat) table.requestIds.length).percentage "requests"
          ∧ ((∃ text, table.topKAccuracy k = .error (.divisionByZero text)) ↔ table.rows = []))
      ∧ (∀ n, table.foundWithin n ≤ table.foundWithin (n + 1)
        ∧ table.foundWithin (n + 1) ≤ table.requestIds.length
        ∧ table.foundWithin n ≤ table.overallShare.part
        ∧ ((∀ id ∈ table.requestIds, (table.forRequest id).length ≤ n) →
          table.foundWithin n = table.overallShare.part))
      ∧ table.directShare.part ≤ table.overallShare.part := by
  refine ⟨?_, ?_, ?_, directShare_part_le table⟩
  · intro hk
    rw [topKAccuracy, checkTopK_of_lt hk]
    rfl
  · intro hk
    have haccuracy : table.topKAccuracy k
        = (Share.mk (table.foundWithin k.toInt.toNat) table.requestIds.length).percentage "requests" := by
      rw [topKAccuracy, checkTopK_of_le hk, ← topKShare_eq]
      rfl
    refine ⟨haccuracy, ?_⟩
    rw [haccuracy, Share.divisionByZero_iff, List.length_eq_zero_iff, requestIds_eq_nil_iff]
  · intro n
    exact ⟨foundWithin_le_succ n table, foundWithin_le_length (n + 1) table,
      foundWithin_le_overall n table, foundWithin_eq_overall⟩

/-- Rows of three requests in turn: one found at its second row, one at its first, one never. -/
theorem Table.topKAccuracy_eq_interleaved :
    let row (request : String) (id : Int64) (status : Status) : Row :=
      ⟨"C", "Rust", request, "C", "Go", 0, id, -1, status, false, false, "", "", []⟩
    let table : Table := ⟨[row "a" 1 .failed, row "b" 1 .found, row "a" 2 .found, row "c" 1 .failed,
      row "b" 2 .failed]⟩
    table.topKAccuracy 0 = .error (.invalidParameter (.topK 0))
      ∧ table.topKAccuracy 11 = .error (.invalidParameter (.topK 11))
      ∧ table.topKAccuracy 1 = (Share.mk 1 3).percentage "requests"
      ∧ table.topKAccuracy 10 = (Share.mk (table.foundWithin 10) 3).percentage "requests"
      ∧ (∀ id ∈ table.requestIds, (table.forRequest id).length ≤ 2)
      ∧ table.foundWithin 1 = 1 ∧ table.foundWithin 2 = 2
      ∧ table.foundWithin 2 = table.overallShare.part := by
  intro row table
  have hlengths : ∀ id ∈ table.requestIds, (table.forRequest id).length ≤ 2 := by decide
  have hone := ((topKAccuracy_eq table 1).2.1 (by decide)).1
  have hten := ((topKAccuracy_eq table 10).2.1 (by decide)).1
  exact ⟨(topKAccuracy_eq table 0).1 (by decide), (topKAccuracy_eq table 11).1 (by decide), hone, hten,
    hlengths, by decide, by decide, ((topKAccuracy_eq table 2).2.2.1 2).2.2.2 hlengths⟩

end AttemptLedger
