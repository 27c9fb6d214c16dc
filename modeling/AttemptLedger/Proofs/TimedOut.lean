import AttemptLedger.Proofs.Accuracy
import AttemptLedger.Proofs.Responses
import AttemptLedger.Proofs.Timeout
import Mathlib.Data.List.Forall2
import Mathlib.Data.List.Infix

/-!
# Attempts and tests that timed out

A row is marked when its attempt is flattened, while the share of timeouts counts tests of the finished
table. Both look for the marker in actual outputs, so both can be said of the batch: a row is marked exactly
if some test of its attempt was killed, and each marked row has one of the tests that are counted.
-/

namespace AttemptLedger

/-! ### Text in outputs -/

theorem occursIn_iff_isInfix {pattern text : List Char} : occursIn pattern text = true ↔ pattern <:+: text := by
  induction text with
  | nil => rw [occursIn, List.isEmpty_iff, List.infix_nil]
  | cons c text ih => rw [occursIn, Bool.or_eq_true, List.isPrefixOf_iff_prefix, ih, List.infix_cons_iff]

/-- Whether a test was executed and its output contains a text, at any place. -/
def TestRecord.Mentions (marker : String) (record : TestRecord) : Prop :=
  ∃ output, record.actualOutput = some output ∧ marker.toList <:+: output.toList

theorem TestRecord.containsMarker_iff_mentions {marker : String} {record : TestRecord} :
    record.containsMarker marker = true ↔ record.Mentions marker := by
  unfold containsMarker Mentions
  cases record.actualOutput with
  | none => simp
  | some output => simp [occursIn_iff_isInfix]

instance (marker : String) (record : TestRecord) : Decidable (record.Mentions marker) :=
  decidable_of_iff _ TestRecord.containsMarker_iff_mentions

/-- The outputs of the tests of a suite that were executed. -/
def Suite.outputs : Suite → List String
  | .fuzzy tests => tests.filterMap (·.actualOutput)
  | .unit tests => tests.filterMap (·.actualOutput)
  | .none => []

namespace Suite

theorem filterMap_actualOutput_records (suite : Suite) :
    suite.records.filterMap (·.actualOutput) = suite.outputs := by
  cases suite with
  | none => rfl
  | _ => rw [records, List.filterMap_map]; rfl

theorem exists_mentions_iff {suite : Suite} {marker : String} :
    (∃ record ∈ suite.records, record.Mentions marker)
      ↔ ∃ output ∈ suite.outputs, marker.toList <:+: output.toList := by
  simp only [← filterMap_actualOutput_records, List.mem_filterMap, TestRecord.Mentions]
  constructor
  · rintro ⟨record, hrecord, output, houtput, hinfix⟩
    exact ⟨output, ⟨record, hrecord, houtput⟩, hinfix⟩
  · rintro ⟨output, ⟨record, hrecord, houtput⟩, hinfix⟩
    exact ⟨record, hrecord, output, houtput, hinfix⟩

theorem outputs_eq_nil_iff {suite : Suite} :
    suite.outputs = [] ↔ ∀ record ∈ suite.records, record.isExecuted = false := by
  rw [← filterMap_actualOutput_records, List.filterMap_eq_nil_iff]
  simp [TestRecord.isExecuted]

theorem isExecuted_iff_of_mem_records {suite : Suite} {record : TestRecord} (h : record ∈ suite.records) :
    record.isExecuted = true ↔ record.status ≠ .notExecuted := by
  have hresult : ∀ input output passed, (TestRecord.ofResult input output passed).isExecuted = true
      ↔ (TestRecord.ofResult input output passed).status ≠ .notExecuted := by
    intro input output passed
    rw [Ne, TestRecord.status_ofResult_eq_notExecuted_iff]
    exact Option.isSome_iff_ne_none
  cases suite with
  | none => cases h
  | _ =>
    obtain ⟨test, _, rfl⟩ := List.mem_map.1 h
    exact hresult _ _ _

end Suite

/-! ### Rows of a batch -/

def Batch.attempts (batch : Batch) : List Attempt := batch.responses.flatMap (·.attempts)

/-- Elements of which some part counts are no more than the parts that count. -/
theorem countP_any_le_countP_flatMap {α β : Type} (p : β → Bool) (f : α → List β) (as : List α) :
    as.countP (fun a => (f a).any p) ≤ (as.flatMap f).countP p := by
  induction as with
  | nil => exact Nat.le_refl 0
  | cons a as ih =>
    rw [List.countP_cons, List.flatMap_cons, List.countP_append]
    split
    · next hany =>
      have hpos : 0 < (f a).countP p := List.countP_pos_iff.2 (List.any_eq_true.1 hany)
      omega
    · omega

theorem countP_flatMap_pos_iff {α β : Type} (p : β → Bool) (f : α → List β) (as : List α) :
    0 < (as.flatMap f).countP p ↔ 0 < as.countP fun a => (f a).any p := by
  simp only [List.countP_pos_iff, List.mem_flatMap, List.any_eq_true]
  constructor
  · rintro ⟨b, ⟨a, ha, hb⟩, hp⟩
    exact ⟨a, ha, b, hb, hp⟩
  · rintro ⟨a, ha, b, hb, hp⟩
    exact ⟨b, ⟨a, ha, hb⟩, hp⟩

namespace Table

variable {batch : Batch}

theorem map_rows_ofBatch {β : Type} {column : Row → β} {value : Attempt → β}
    (h : ∀ request memoized attempt, column (.ofAttempt request memoized attempt) = value attempt) :
    (ofBatch batch).rows.map column = batch.attempts.map value := by
  rw [ofBatch, Batch.attempts, List.map_flatMap, List.map_flatMap]
  exact List.flatMap_congr fun response _ => Response.map_rows (h response.request)

theorem tests_ofBatch (batch : Batch) :
    (ofBatch batch).tests = batch.attempts.flatMap (·.tests.records) := by
  have htests : (ofBatch batch).rows.map (·.tests) = batch.attempts.map (·.tests.records) :=
    map_rows_ofBatch fun _ _ _ => rfl
  rw [tests, List.flatMap_def, List.flatMap_def, htests]

theorem map_failedTimeout_rows (batch : Batch) :
    (ofBatch batch).rows.map (·.failedTimeout)
      = batch.attempts.map fun attempt => attempt.tests.records.any (·.containsMarker timeoutMarker) :=
  map_rows_ofBatch fun _ _ _ => rfl

theorem isExecuted_iff_of_mem_tests {test : TestRecord} (h : test ∈ (ofBatch batch).tests) :
    test.isExecuted = true ↔ test.status ≠ .notExecuted := by
  rw [tests_ofBatch] at h
  obtain ⟨attempt, _, htest⟩ := List.mem_flatMap.1 h
  exact Suite.isExecuted_iff_of_mem_records htest

/-- The two views of timeouts agree. A row of a batch is marked exactly if some test of its attempt had an
output that contains the marker. The percentage is that of the tests with the marker among those that were
executed; the former are no more than the latter, no fewer than the marked rows, and none only if no row is
marked. There is no percentage exactly if no test of the batch had an output. -/
theorem timeouts_ofBatch (batch : Batch) :
    let table := ofBatch batch
    let timedOut := table.tests.countP (·.Mentions timeoutMarker)
    let executed := table.tests.countP (·.status ≠ .notExecuted)
    List.Forall₂ (fun row attempt => row.failedTimeout = true
        ↔ ∃ output ∈ attempt.tests.outputs, timeoutMarker.toList <:+: output.toList)
      table.rows batch.attempts
      ∧ table.timeoutPercentage = Share.percentage "executed tests" ⟨timedOut, executed⟩
      ∧ timedOut ≤ executed
      ∧ (0 < timedOut ↔ ∃ row ∈ table.rows, row.failedTimeout = true)
      ∧ table.rows.countP (·.failedTimeout) ≤ timedOut
      ∧ ((∃ text, table.timeoutPercentage = .error (.divisionByZero text))
        ↔ ∀ attempt ∈ batch.attempts, attempt.tests.outputs = []) := by
  intro table timedOut executed
  have htimedOut : timedOut = table.tests.countP (·.containsMarker timeoutMarker) := by
    refine List.countP_congr fun test _ => ?_
    rw [decide_eq_true_eq, TestRecord.containsMarker_iff_mentions]
  have hexecuted : executed = table.tests.countP (·.isExecuted) := by
    refine List.countP_congr fun test htest => ?_
    rw [decide_eq_true_eq, isExecuted_iff_of_mem_tests htest]
  have hmarked : table.rows.countP (·.failedTimeout) = batch.attempts.countP fun attempt =>
      attempt.tests.records.any (·.containsMarker timeoutMarker) := by
    have hcount := congrArg (List.countP id) (map_failedTimeout_rows batch)
    rwa [List.countP_map, List.countP_map] at hcount
  have hpercentage : table.timeoutPercentage
      = Share.percentage "executed tests" ⟨timedOut, executed⟩ := by
    rw [timeoutPercentage, timeoutShare_eq, htimedOut, hexecuted]
  refine ⟨?_, hpercentage, ?_, ?_, ?_, ?_⟩
  · have hrows : List.Forall₂ (fun row attempt => row.failedTimeout
        = attempt.tests.records.any (·.containsMarker timeoutMarker)) table.rows batch.attempts := by
      rw [← List.forall₂_map_right_iff, ← List.forall₂_map_left_iff, List.forall₂_eq_eq_eq]
      exact map_failedTimeout_rows batch
    refine hrows.imp fun row attempt hrow => ?_
    rw [hrow, List.any_eq_true, ← Suite.exists_mentions_iff]
    simp only [TestRecord.containsMarker_iff_mentions]
  · rw [htimedOut, hexecuted]
    exact List.countP_mono_left fun test _ => TestRecord.isExecuted_of_containsMarker
  · rw [← List.countP_pos_iff, hmarked, htimedOut, tests_ofBatch, countP_flatMap_pos_iff]
  · rw [hmarked, htimedOut, tests_ofBatch]
    exact countP_any_le_countP_flatMap _ _ _
  · rw [hpercentage, Share.divisionByZero_iff]
    show executed = 0 ↔ _
    rw [hexecuted, tests_ofBatch, List.countP_eq_zero]
    simp only [Suite.outputs_eq_nil_iff, List.mem_flatMap, Bool.not_eq_true]
    constructor
    · exact fun h attempt hattempt record hrecord => h record ⟨attempt, hattempt, hrecord⟩
    · rintro h record ⟨attempt, hattempt, hrecord⟩
      exact h attempt hattempt record hrecord

end Table

end AttemptLedger
