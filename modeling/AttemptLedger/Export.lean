import AttemptLedger.Csv
import AttemptLedger.Table

/-!
# Export of rows

A wide table of text: fixed columns, two columns for code if wanted, and for every test position a
column for its input and, if some row has an output there, one for the output.
-/

namespace AttemptLedger

inductive Column
  | seedLanguage
  | requestTargetLanguage
  | requestId
  | inputLanguage
  | targetLanguage
  | level
  | id
  | parentId
  | status
  | memoized
  | failedTimeout
  | extractedCode
  | inferenceOutput
  | testInput (position : Nat)
  | testOutput (position : Nat)
  deriving DecidableEq, Repr

namespace Column

def name : Column → String
  | seedLanguage => "seed_language"
  | requestTargetLanguage => "request_target_language"
  | requestId => "request_id"
  | inputLanguage => "input_languages"
  | targetLanguage => "target_languages"
  | level => "level"
  | id => "edge_id"
  | parentId => "parent_edge_id"
  | status => "status"
  | memoized => "memoized"
  | failedTimeout => "failed_timeout"
  | extractedCode => "extracted_code"
  | inferenceOutput => "inference_output"
  | testInput position => "test_" ++ Text.ofNat position ++ "_input"
  | testOutput position => "test_" ++ Text.ofNat position ++ "_actual_output"

/-- The cell of a row in a column; empty where the row has no such test or output. -/
def cell (row : Row) : Column → String
  | seedLanguage => row.seedLanguage
  | requestTargetLanguage => row.requestTargetLanguage
  | requestId => row.requestId
  | inputLanguage => row.inputLanguage
  | targetLanguage => row.targetLanguage
  | level => Text.ofInt64 row.level
  | id => Text.ofInt64 row.id
  | parentId => Text.ofInt64 row.parentId
  | status => row.status.text
  | memoized => toString row.memoized
  | failedTimeout => toString row.failedTimeout
  | extractedCode => row.extractedCode
  | inferenceOutput => row.inferenceOutput
  | testInput position => (row.tests[position]?.map (·.input)).getD ""
  | testOutput position => (row.tests[position]?.bind (·.actualOutput)).getD ""

def base : List Column :=
  [seedLanguage, requestTargetLanguage, requestId, inputLanguage, targetLanguage, level, id, parentId,
    status, memoized, failedTimeout]

def code : List Column := [extractedCode, inferenceOutput]

end Column

namespace Export

/-- Marks the positions of a row's tests with an output, in a layout of at least as many positions. -/
def markOutputs : List Bool → List TestRecord → List Bool
  | layout, [] => layout
  | [], _ => []
  | marked :: layout, test :: tests => (marked || test.isExecuted) :: markOutputs layout tests

/-- For every test position of some row, whether some row has an output there (`test_layout`). -/
def layout (rows : List Row) : List Bool :=
  let width := (rows.map (·.tests.length)).foldl max 0
  rows.foldl (fun layout row => markOutputs layout row.tests) (List.replicate width false)

def testColumns : (position : Nat) → List Bool → List Column
  | _, [] => []
  | position, hasOutput :: layout =>
    .testInput position :: (if hasOutput then [.testOutput position] else [])
      ++ testColumns (position + 1) layout

def columns (includeCode : Bool) (rows : List Row) : List Column :=
  Column.base ++ (if includeCode then Column.code else []) ++ testColumns 0 (layout rows)

/-- The names of the columns (`header`). -/
def header (includeCode : Bool) (rows : List Row) : List String :=
  (columns includeCode rows).map (·.name)

/-- The cells of a row (`record`). -/
def record (columns : List Column) (row : Row) : List String := columns.map (·.cell row)

def records (includeCode : Bool) (rows : List Row) : List (List String) :=
  header includeCode rows :: rows.map (record (columns includeCode rows))

def print (includeCode : Bool) (rows : List Row) : String := Csv.print (records includeCode rows)

/-- Writes the table (`write_csv`), unless its records have different lengths. -/
def write (includeCode : Bool) (rows : List Row) : Except Error String :=
  match Csv.write? (records includeCode rows) with
  | some text => .ok text
  | none => .error .table

end Export

end AttemptLedger
