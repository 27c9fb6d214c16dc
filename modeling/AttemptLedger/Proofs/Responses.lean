import AttemptLedger.Proofs.Requests

/-!
# Accuracy of a batch, by its responses

The table of a batch has the rows of its responses behind one another, a response's rows are those of its
chains, and each row shows one attempt. If no two responses answer one request, the rows of a request are
those of its response, so each share of requests is a share of the responses with an attempt, and can be
read off the batch without the table.
-/

namespace AttemptLedger

/-! ### Rows of a response -/

namespace Response

variable {β : Type} {response : Response} {column : Row → β} {value : Attempt → β}

/-- What rows take from the request and their attempts stands in the order of the attempts. -/
theorem map_rows
    (h : ∀ memoized attempt, column (.ofAttempt response.request memoized attempt) = value attempt) :
    response.rows.map column = response.attempts.map value := by
  have hchain : ∀ (chain : Chain) (index : Nat) (attempts : List Attempt),
      (chain.rowsFrom response.request index attempts).map column = attempts.map value := by
    intro chain index attempts
    induction attempts generalizing index with
    | nil => rfl
    | cons attempt attempts ih => rw [Chain.rowsFrom, List.map_cons, List.map_cons, h, ih]
  rw [rows, attempts, List.map_flatMap, List.map_flatMap]
  exact List.flatMap_congr fun chain _ => hchain chain 0 chain.attempts

theorem map_requestId_rows (response : Response) :
    response.rows.map (·.requestId) = List.replicate response.attempts.length response.request.id := by
  rw [map_rows fun _ _ => rfl, List.map_const']

theorem requestId_of_mem_rows {row : Row} (h : row ∈ response.rows) :
    row.requestId = response.request.id := by
  have hid : row.requestId ∈ response.rows.map (·.requestId) := List.mem_map_of_mem h
  rw [map_requestId_rows] at hid
  exact List.eq_of_mem_replicate hid

theorem rows_eq_nil_iff : response.rows = [] ↔ response.attempts = [] := by
  rw [← List.length_eq_zero_iff, length_rows, List.length_eq_zero_iff]

/-- The ids that a response's rows show: its request's, unless there is no attempt to show it. -/
theorem firstSeen_map_requestId_rows (response : Response) :
    firstSeen (response.rows.map (·.requestId))
      = if response.attempts = [] then [] else [response.request.id] := by
  rw [map_requestId_rows]
  cases response.attempts with
  | nil => rfl
  | cons attempt attempts =>
    rw [List.length_cons, List.replicate_succ, ← List.singleton_append, firstSeen_append_of_subset]
    · rfl
    · exact fun id hid => List.mem_singleton.2 (List.eq_of_mem_replicate hid)

end Response

/-! ### Responses to different requests -/

/-- Whether no two responses of a batch answer the same request. -/
def Batch.AnswersOnce (batch : Batch) : Prop := (batch.responses.map (·.request.id)).Nodup

theorem Batch.answersOnce_cons_iff {first : Response} {responses : List Response} :
    AnswersOnce ⟨first :: responses⟩
      ↔ (∀ other ∈ responses, other.request.id ≠ first.request.id) ∧ AnswersOnce ⟨responses⟩ := by
  rw [AnswersOnce, List.map_cons, List.nodup_cons, List.mem_map]
  simp [AnswersOnce]

namespace Table

variable {batch : Batch} {response : Response} {succeeds : List Row → Bool} {id : String}

theorem rows_ofBatch_cons (response : Response) (responses : List Response) :
    (ofBatch ⟨response :: responses⟩).rows = response.rows ++ (ofBatch ⟨responses⟩).rows := rfl

theorem exists_response_of_mem_requestIds (h : id ∈ (ofBatch batch).requestIds) :
    ∃ response ∈ batch.responses, response.request.id = id := by
  obtain ⟨row, hrow, rfl⟩ := List.mem_map.1 (mem_map_requestId_iff.2 h)
  obtain ⟨response, hresponse, hrow⟩ := List.mem_flatMap.1 hrow
  exact ⟨response, hresponse, (Response.requestId_of_mem_rows hrow).symm⟩

theorem forRequest_ofBatch_cons (first : Response) (responses : List Response) (id : String) :
    (ofBatch ⟨first :: responses⟩).forRequest id
      = (if first.request.id = id then first.rows else []) ++ (ofBatch ⟨responses⟩).forRequest id := by
  rw [forRequest, rows_ofBatch_cons, List.filter_append, ← forRequest]
  congr 1
  split
  · next hid =>
    refine List.filter_eq_self.2 fun row hrow => ?_
    rw [Response.requestId_of_mem_rows hrow, beq_iff_eq]
    exact hid
  · next hid =>
    refine List.filter_eq_nil_iff.2 fun row hrow => ?_
    rw [Response.requestId_of_mem_rows hrow, beq_iff_eq]
    exact hid

theorem forRequest_ofBatch (h : batch.AnswersOnce) (hresponse : response ∈ batch.responses) :
    (ofBatch batch).forRequest response.request.id = response.rows := by
  obtain ⟨responses⟩ := batch
  induction responses with
  | nil => cases hresponse
  | cons first responses ih =>
    obtain ⟨hfirst, hrest⟩ := Batch.answersOnce_cons_iff.1 h
    rw [forRequest_ofBatch_cons]
    rcases List.mem_cons.1 hresponse with rfl | hresponse
    · have hothers : response.request.id ∉ (ofBatch ⟨responses⟩).requestIds := by
        intro hid
        obtain ⟨other, hother, hsame⟩ := exists_response_of_mem_requestIds hid
        exact hfirst other hother hsame
      rw [if_pos rfl, forRequest_eq_nil_of_not_mem hothers, List.append_nil]
    · rw [if_neg (hfirst response hresponse).symm, List.nil_append]
      exact ih hrest hresponse

theorem requestIds_ofBatch (h : batch.AnswersOnce) :
    (ofBatch batch).requestIds
      = (batch.responses.filter (·.attempts ≠ [])).map (·.request.id) := by
  obtain ⟨responses⟩ := batch
  induction responses with
  | nil => rfl
  | cons first responses ih =>
    obtain ⟨hfirst, hrest⟩ := Batch.answersOnce_cons_iff.1 h
    have hdisjoint : ∀ id ∈ first.rows.map (·.requestId),
        id ∉ (ofBatch ⟨responses⟩).rows.map (·.requestId) := by
      intro id hid hmem
      obtain ⟨row, hrow, rfl⟩ := List.mem_map.1 hid
      obtain ⟨other, hother, hsame⟩ := exists_response_of_mem_requestIds (mem_map_requestId_iff.1 hmem)
      exact hfirst other hother (hsame.trans (Response.requestId_of_mem_rows hrow))
    have hids := ih hrest
    rw [requestIds] at hids
    rw [requestIds, rows_ofBatch_cons, List.map_append, firstSeen_append_of_disjoint hdisjoint, hids,
      Response.firstSeen_map_requestId_rows]
    by_cases hempty : first.attempts = [] <;> simp [hempty]

/-- A share of requests, read off the responses: those without attempts count for nothing. -/
theorem requestShare_ofBatch (h : batch.AnswersOnce) (hnone : succeeds [] = false) :
    (ofBatch batch).requestShare succeeds
      = ⟨batch.responses.countP fun response => succeeds response.rows,
        batch.responses.countP (·.attempts ≠ [])⟩ := by
  rw [requestShare, requestIds_ofBatch h, List.countP_map, List.length_map,
    ← List.countP_eq_length_filter, List.countP_filter]
  congr 1
  refine List.countP_congr fun response hresponse => ?_
  rw [Function.comp_apply, forRequest_ofBatch h hresponse, Bool.and_eq_true, decide_eq_true_eq]
  refine ⟨fun hboth => hboth.1, fun hsucceeds => ⟨hsucceeds, fun hempty => ?_⟩⟩
  rw [Response.rows_eq_nil_iff.2 hempty, hnone] at hsucceeds
  cases hsucceeds

end Table

/-! ### What accuracy asks of a response -/

theorem Status.isFound_iff {status : Status} : status.isFound = true ↔ status = .found := by
  cases status <;> simp [isFound]

namespace Response

theorem any_take_rows (k : Nat) (condition : Status → Int64 → Bool) (response : Response) :
    ((response.rows.take k).any fun row => condition row.status row.parentId)
      = (response.attempts.take k).any fun attempt => condition attempt.status attempt.parentId := by
  have hpairs : response.rows.map (fun row => (row.status, row.parentId))
      = response.attempts.map fun attempt => (attempt.status, attempt.parentId) :=
    map_rows fun _ _ => rfl
  have hany := congrArg (fun pairs => (pairs.take k).any fun pair => condition pair.1 pair.2) hpairs
  simpa only [← List.map_take, List.any_map, Function.comp_def] using hany

theorem any_rows (condition : Status → Int64 → Bool) (response : Response) :
    (response.rows.any fun row => condition row.status row.parentId)
      = response.attempts.any fun attempt => condition attempt.status attempt.parentId := by
  have hany := any_take_rows response.attempts.length condition response
  rwa [List.take_length, List.take_of_length_le (Nat.le_of_eq response.length_rows)] at hany

theorem firstFound_eq_find?_rows (response : Response) :
    response.firstFound = (response.rows.find? (·.status.isFound)).map (·.extractedCode) := by
  have hpairs : response.rows.map (fun row => (row.status, row.extractedCode))
      = response.attempts.map fun attempt => (attempt.status, attempt.extractedCode) :=
    map_rows fun _ _ => rfl
  have hfind := congrArg (fun pairs => (pairs.find? fun pair => pair.1.isFound).map (·.2)) hpairs
  simp only [List.find?_map, Option.map_map, Function.comp_def] at hfind
  rw [firstFound, ← hfind]

theorem isSome_firstFound (response : Response) :
    response.firstFound.isSome = response.attempts.any (·.status.isFound) := by
  rw [firstFound, Option.isSome_map, Bool.eq_iff_iff, List.find?_isSome, List.any_eq_true]

theorem any_direct_attempts (response : Response) :
    (response.attempts.any fun attempt => attempt.status.isFound && isRootParent attempt.parentId)
      = decide (∃ chain ∈ response.chains, ∃ attempt ∈ chain.attempts,
        attempt.status = .found ∧ attempt.parentId = rootId) := by
  rw [Bool.eq_iff_iff, decide_eq_true_iff, List.any_eq_true]
  simp only [attempts, List.mem_flatMap, Bool.and_eq_true, Status.isFound_iff, isRootParent, beq_iff_eq]
  constructor
  · rintro ⟨attempt, ⟨chain, hchain, hattempt⟩, hfound⟩
    exact ⟨chain, hchain, attempt, hattempt, hfound⟩
  · rintro ⟨chain, hchain, attempt, hattempt, hfound⟩
    exact ⟨attempt, ⟨chain, hchain, hattempt⟩, hfound⟩

end Response

/-- If no two responses of a batch answer one request, the shares of its table count responses: of those
with an attempt, the ones with a found attempt among their first few, with any found attempt, and with a
found attempt that starts from the request. The code that a response found first is that of the first
found row of its request. -/
theorem Table.shares_ofBatch (batch : Batch) (h : batch.AnswersOnce) :
    (∀ k, (ofBatch batch).topKShare k
        = ⟨batch.responses.countP fun response => (response.attempts.take k).any (·.status.isFound),
          batch.responses.countP (·.attempts ≠ [])⟩)
      ∧ (∀ k : Int64, 1 ≤ k ∧ k ≤ 10 →
        (ofBatch batch).topKAccuracy k
          = (Share.mk (batch.responses.countP fun response =>
                (response.attempts.take k.toInt.toNat).any (·.status.isFound))
              (batch.responses.countP (·.attempts ≠ []))).percentage "requests")
      ∧ (ofBatch batch).overallShare
        = ⟨batch.responses.countP (·.firstFound.isSome), batch.responses.countP (·.attempts ≠ [])⟩
      ∧ (ofBatch batch).directShare
        = ⟨batch.responses.countP fun response => ∃ chain ∈ response.chains, ∃ attempt ∈ chain.attempts,
            attempt.status = .found ∧ attempt.parentId = rootId,
          batch.responses.countP (·.attempts ≠ [])⟩
      ∧ ∀ response ∈ batch.responses,
        response.firstFound
          = (((ofBatch batch).forRequest response.request.id).find? (·.status.isFound)).map
              (·.extractedCode) := by
  have htop : ∀ k, (ofBatch batch).topKShare k
      = ⟨batch.responses.countP fun response => (response.attempts.take k).any (·.status.isFound),
        batch.responses.countP (·.attempts ≠ [])⟩ := by
    intro k
    rw [topKShare_eq_requestShare, requestShare_ofBatch h (by simp)]
    simp only [Response.any_take_rows k fun status _ => status.isFound]
  refine ⟨htop, ?_, ?_, ?_, ?_⟩
  · intro k hk
    rw [topKAccuracy, checkTopK_of_le hk, ← htop]
    rfl
  · rw [overallShare_eq_requestShare, requestShare_ofBatch h rfl]
    simp only [Response.any_rows fun status _ => status.isFound, Response.isSome_firstFound]
  · rw [directShare_eq_requestShare, requestShare_ofBatch h rfl]
    simp only [Response.any_rows fun status parentId => status.isFound && isRootParent parentId,
      Response.any_direct_attempts]
  · intro response hresponse
    rw [forRequest_ofBatch h hresponse, Response.firstFound_eq_find?_rows]

/-- Four responses: one is found at its second attempt, behind an empty chain, one has no attempts, one is
found at once, and one fails. -/
theorem Table.shares_ofBatch_four :
    let attempt (id parentId : Int64) (status : Status) (code : String) : Attempt :=
      { id := id, parentId := parentId, status := status, extractedCode := code }
    let batch : Batch := ⟨[
      ⟨{ id := "a" }, [⟨[], .empty⟩, ⟨[attempt 1 (-1) .failed "x"], .empty⟩,
        ⟨[attempt 2 1 .found "y"], .empty⟩]⟩,
      ⟨{ id := "b" }, [⟨[], .empty⟩]⟩,
      ⟨{ id := "c" }, [⟨[attempt 1 (-1) .found "z", attempt 2 1 .translated ""], .empty⟩]⟩,
      ⟨{ id := "d" }, [⟨[attempt 1 (-1) .failed ""], .empty⟩]⟩]⟩
    batch.AnswersOnce ∧ (ofBatch batch).topKShare 1 = ⟨1, 3⟩ ∧ (ofBatch batch).topKShare 2 = ⟨2, 3⟩
      ∧ (ofBatch batch).topKAccuracy 1 = (Share.mk 1 3).percentage "requests"
      ∧ (ofBatch batch).overallShare = ⟨2, 3⟩ ∧ (ofBatch batch).directShare = ⟨1, 3⟩
      ∧ ∀ response ∈ batch.responses,
        response.firstFound
          = (((ofBatch batch).forRequest response.request.id).find? (·.status.isFound)).map
              (·.extractedCode) := by
  intro attempt batch
  have honce : batch.AnswersOnce := by
    unfold Batch.AnswersOnce
    decide +kernel
  obtain ⟨htop, haccuracy, hoverall, hdirect, hfirst⟩ := shares_ofBatch batch honce
  exact ⟨honce, htop 1, htop 2, haccuracy 1 (by decide), hoverall, hdirect, hfirst⟩

end AttemptLedger
