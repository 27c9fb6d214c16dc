import AttemptLedger.Decimal.Fixed
import AttemptLedger.Share
import AttemptLedger.Table

/-!
# Accuracy

The accuracy of a table is the share of requests with an attempt that was found: among the first
`k` attempts of each request, among the attempts that start from the request itself, or among all.
-/

namespace AttemptLedger

structure Tally where
  seen : Nat := 0
  found : Bool := false
  deriving DecidableEq, Repr

/-- Counts a row, unless `k` rows were counted already. -/
def Tally.count (k : Nat) (tally : Tally) (row : Row) : Tally :=
  if tally.seen < k then ⟨tally.seen + 1, tally.found || row.status.isFound⟩ else tally

abbrev Tallies := List (String × Tally)

def Tallies.count (k : Nat) (row : Row) : Tallies → Tallies
  | [] => [(row.requestId, Tally.count k {} row)]
  | (id, tally) :: rest =>
    if id = row.requestId then (id, tally.count k row) :: rest else (id, tally) :: count k row rest

namespace Table

def tallies (k : Nat) (table : Table) : Tallies :=
  table.rows.foldl (fun tallies row => tallies.count k row) []

def topKShare (k : Nat) (table : Table) : Share :=
  let tallies := table.tallies k
  ⟨tallies.countP (·.2.found), tallies.length⟩

/-- The requests with a found attempt that satisfies a condition, in the order of these attempts. -/
def foundRequests (condition : Row → Bool) (table : Table) : List String :=
  firstSeen ((table.rows.filter fun row => row.status.isFound && condition row).map (·.requestId))

def directShare (table : Table) : Share :=
  ⟨(table.foundRequests fun row => isRootParent row.parentId).length, table.requestIds.length⟩

def overallShare (table : Table) : Share :=
  ⟨(table.foundRequests fun _ => true).length, table.requestIds.length⟩

end Table

def minTopK : Int64 := 1

def maxTopK : Int64 := 10

/-- Accepts the numbers of attempts that accuracy is asked for (`check_top_k`). -/
def checkTopK (k : Int64) : Except Error Nat :=
  if minTopK ≤ k ∧ k ≤ maxTopK then .ok k.toInt.toNat else .error (.invalidParameter (.topK k))

/-- The accuracy among the first attempts of each request (`top_k_accuracy`). -/
def Table.topKAccuracy (table : Table) (k : Int64) : Except Error Float :=
  (checkTopK k).bind fun k => (table.topKShare k).percentage "requests"

/-- The accuracy of direct attempts next to the accuracy of all, in percent. -/
structure AccuracyReport where
  direct : Float
  all : Float

namespace AccuracyReport

/-- What attempts by way of other languages add, in percentage points. -/
def improvement (report : AccuracyReport) : Float := report.all - report.direct

def display (report : AccuracyReport) : String :=
  "Computational Accuracy - Only direct (baseline): " ++ Decimal.fixed 2 report.direct ++ "%\n"
    ++ "Computational Accuracy - Including intermediate langs: " ++ Decimal.fixed 2 report.all
    ++ "%\n" ++ "Difference from baseline: " ++ Decimal.fixed 2 report.improvement ++ "%"

end AccuracyReport

/-- The accuracies without and with other languages on the way (`direct_vs_intermediate_accuracy`). -/
def Table.accuracyReport (table : Table) : Except Error AccuracyReport :=
  match table.directShare.percentage "requests" with
  | .error e => .error e
  | .ok direct => (table.overallShare.percentage "requests").map fun all => ⟨direct, all⟩

end AttemptLedger
