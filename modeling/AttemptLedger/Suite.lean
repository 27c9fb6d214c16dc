/-!
# Tests of an attempt

An attempt carries tests that compare output, unit tests, or none. A suite is projected onto uniform
records; a test without an actual output was not executed, whatever its pass flag says.
-/

namespace AttemptLedger

structure FuzzyTest where
  stdinInput : String := ""
  expectedOutput : String := ""
  actualOutput : Option String := none
  passed : Bool := false
  executedCode : String := ""
  deriving DecidableEq, Repr, Inhabited

structure UnitTest where
  sourceCode : String := ""
  actualOutput : Option String := none
  passed : Bool := false
  executedCode : String := ""
  deriving DecidableEq, Repr, Inhabited

/-- The tests of an attempt (`TestSuite`). -/
inductive Suite
  | fuzzy (tests : List FuzzyTest)
  | unit (tests : List UnitTest)
  | none
  deriving DecidableEq, Repr

inductive TestStatus
  | passed
  | failed
  | notExecuted
  deriving DecidableEq, Repr

def TestStatus.text : TestStatus → String
  | .passed => "PASSED"
  | .failed => "FAILED"
  | .notExecuted => "NOT_EXECUTED"

structure TestRecord where
  input : String
  actualOutput : Option String
  status : TestStatus
  deriving DecidableEq, Repr

/-- Whether a pattern stands somewhere in a text. -/
def occursIn (pattern : List Char) : List Char → Bool
  | [] => pattern.isEmpty
  | c :: cs => pattern.isPrefixOf (c :: cs) || occursIn pattern cs

namespace TestRecord

/-- The record of a test from its input, its output if it was executed, and its pass flag. -/
def ofResult (input : String) (actualOutput : Option String) (passed : Bool) : TestRecord where
  input := input
  actualOutput := actualOutput
  status := match actualOutput, passed with
    | Option.none, _ => .notExecuted
    | some _, true => .passed
    | some _, false => .failed

def isExecuted (record : TestRecord) : Bool := record.actualOutput.isSome

def containsMarker (marker : String) (record : TestRecord) : Bool :=
  match record.actualOutput with
  | some output => occursIn marker.toList output.toList
  | Option.none => false

theorem status_ofResult_eq_notExecuted_iff (input : String) (output : Option String) (passed : Bool) :
    (ofResult input output passed).status = .notExecuted ↔ output = Option.none := by
  cases output <;> cases passed <;> simp [ofResult]

end TestRecord

namespace Suite

/-- The suite of an attempt that lists tests of both kinds: fuzzy tests win, no tests are none
(`from_collections`). -/
def ofTests (fuzzy : List FuzzyTest) (unit : List UnitTest) : Suite :=
  if fuzzy ≠ [] then .fuzzy fuzzy else if unit ≠ [] then .unit unit else .none

def fuzzyTests : Suite → List FuzzyTest
  | .fuzzy tests => tests
  | _ => []

def unitTests : Suite → List UnitTest
  | .unit tests => tests
  | _ => []

def size : Suite → Nat
  | .fuzzy tests => tests.length
  | .unit tests => tests.length
  | .none => 0

def isEmpty (suite : Suite) : Bool := suite.size == 0

def records : Suite → List TestRecord
  | .fuzzy tests => tests.map fun t => .ofResult t.stdinInput t.actualOutput t.passed
  | .unit tests => tests.map fun t => .ofResult t.sourceCode t.actualOutput t.passed
  | .none => []

/-- The suite without the difference between no tests of a kind and no suite. -/
def canonical (suite : Suite) : Suite := ofTests suite.fuzzyTests suite.unitTests

theorem length_records (suite : Suite) : suite.records.length = suite.size := by
  cases suite <;> simp [records, size]

theorem records_canonical (suite : Suite) : suite.canonical.records = suite.records := by
  rcases suite with (_ | _) | (_ | _) | _ <;> rfl

end Suite

end AttemptLedger
