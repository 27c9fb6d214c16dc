import AttemptLedger.Share
import AttemptLedger.Table

/-!
# Timeouts

The share of executed tests whose output carries the timeout marker.
-/

namespace AttemptLedger

def Share.countTest (share : Share) (test : TestRecord) : Share :=
  if test.isExecuted then
    ⟨if test.containsMarker timeoutMarker then share.part + 1 else share.part, share.whole + 1⟩
  else share

def Table.timeoutShare (table : Table) : Share :=
  (table.rows.flatMap (·.tests)).foldl Share.countTest ⟨0, 0⟩

/-- The percentage of executed tests that were killed for their time (`timeout_percentage`). -/
def Table.timeoutPercentage (table : Table) : Except Error Float :=
  table.timeoutShare.percentage "executed tests"

end AttemptLedger
