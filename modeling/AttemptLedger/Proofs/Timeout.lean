import AttemptLedger.Timeout

/-!
# Executed tests and timeouts

One pass over the tests of a table counts those that were executed, and of these the ones with the
timeout marker in their output. A test without an output has no marker, so both are counts over all
tests, and neither asks where a test stands.
-/

namespace AttemptLedger

theorem TestRecord.isExecuted_of_containsMarker {marker : String} {record : TestRecord}
    (h : record.containsMarker marker = true) : record.isExecuted = true := by
  unfold containsMarker at h
  unfold isExecuted
  cases houtput : record.actualOutput with
  | none =>
    rw [houtput] at h
    cases h
  | some output => rfl

theorem Share.countTest_eq (share : Share) (test : TestRecord) :
    share.countTest test
      = ⟨share.part + (if test.containsMarker timeoutMarker then 1 else 0),
        share.whole + if test.isExecuted then 1 else 0⟩ := by
  unfold countTest
  by_cases hmarker : test.containsMarker timeoutMarker = true
  · simp [hmarker, TestRecord.isExecuted_of_containsMarker hmarker]
  · by_cases hexecuted : test.isExecuted = true <;> simp [hmarker, hexecuted]

theorem Share.foldl_countTest (share : Share) (tests : List TestRecord) :
    tests.foldl countTest share
      = ⟨share.part + tests.countP (·.containsMarker timeoutMarker),
        share.whole + tests.countP (·.isExecuted)⟩ := by
  induction tests generalizing share with
  | nil => rfl
  | cons test tests ih =>
    rw [List.foldl_cons, ih, countTest_eq, List.countP_cons, List.countP_cons]
    dsimp only
    congr 1 <;> omega

namespace Table

def tests (table : Table) : List TestRecord := table.rows.flatMap (·.tests)

theorem timeoutShare_eq (table : Table) :
    table.timeoutShare
      = ⟨table.tests.countP (·.containsMarker timeoutMarker), table.tests.countP (·.isExecuted)⟩ := by
  rw [timeoutShare, Share.foldl_countTest, Nat.zero_add, Nat.zero_add]
  rfl

end Table

end AttemptLedger
