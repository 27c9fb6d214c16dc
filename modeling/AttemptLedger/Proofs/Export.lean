import AttemptLedger.Export
import AttemptLedger.Proofs.Csv

/-!
# What an export says

The columns are chosen once for all rows, and every record has a cell in each of them. So a table of
any rows is written, and reading it back gives the header and the fields of each row.
-/

namespace AttemptLedger.Export

variable {includeCode : Bool} {rows : List Row}

/-! ### Layout -/

theorem getElem?_markOutputs (layout : List Bool) (tests : List TestRecord) (position : Nat) :
    (markOutputs layout tests)[position]?
      = layout[position]?.map (· || tests[position]?.any (·.isExecuted)) := by
  induction layout generalizing tests position with
  | nil => cases tests <;> simp [markOutputs]
  | cons marked layout ih =>
    cases tests with
    | nil => simp [markOutputs]
    | cons test tests =>
      cases position with
      | zero => simp [markOutputs]
      | succ position => simpa [markOutputs] using ih tests position

theorem getElem?_foldl_markOutputs (marks : List Bool) (position : Nat) :
    (rows.foldl (fun layout row => markOutputs layout row.tests) marks)[position]?
      = marks[position]?.map (· || rows.any (·.tests[position]?.any (·.isExecuted))) := by
  induction rows generalizing marks with
  | nil => simp
  | cons row rows ih =>
    simp only [List.foldl_cons, ih, getElem?_markOutputs, Option.map_map, List.any_cons]
    simp only [Function.comp_def, Bool.or_assoc]

theorem lt_foldl_max_iff {sizes : List Nat} {start position : Nat} :
    position < sizes.foldl max start ↔ position < start ∨ ∃ size ∈ sizes, position < size := by
  induction sizes generalizing start with
  | nil => simp
  | cons size sizes ih =>
    have hmax : position < max start size ↔ position < start ∨ position < size := by omega
    simp only [List.foldl_cons, ih, hmax, List.mem_cons, or_and_right, exists_or, exists_eq_left,
      or_assoc]

/-- The layout covers the positions of all rows' tests, and marks those at which some row has an
output. -/
theorem getElem?_layout (rows : List Row) (position : Nat) :
    (layout rows)[position]?
      = if ∃ row ∈ rows, position < row.tests.length then
          some (rows.any (·.tests[position]?.any (·.isExecuted)))
        else none := by
  have hwidth : position < (rows.map (·.tests.length)).foldl max 0
      ↔ ∃ row ∈ rows, position < row.tests.length := by
    rw [lt_foldl_max_iff]
    constructor
    · rintro (hzero | ⟨size, hsize, hposition⟩)
      · exact absurd hzero (Nat.not_lt_zero _)
      · obtain ⟨row, hrow, rfl⟩ := List.mem_map.1 hsize
        exact ⟨row, hrow, hposition⟩
    · rintro ⟨row, hrow, hposition⟩
      exact .inr ⟨_, List.mem_map_of_mem hrow, hposition⟩
  rw [layout, getElem?_foldl_markOutputs, List.getElem?_replicate]
  simp only [hwidth]
  split <;> simp

/-! ### Records -/

/-- A test that is not there leaves its place empty, and so does an output that is not there. -/
def testFields (tests : List TestRecord) (hasOutput : Bool) (position : Nat) : List String :=
  ((tests[position]?.map (·.input)).getD "")
    :: if hasOutput then [(tests[position]?.bind (·.actualOutput)).getD ""] else []

def fields (includeCode : Bool) (layout : List Bool) (row : Row) : List String :=
  [row.seedLanguage, row.requestTargetLanguage, row.requestId, row.inputLanguage, row.targetLanguage,
      toString row.level.toInt, toString row.id.toInt, toString row.parentId.toInt, row.status.text,
      toString row.memoized, toString row.failedTimeout]
    ++ (if includeCode then [row.extractedCode, row.inferenceOutput] else [])
    ++ layout.zipIdx.flatMap fun (hasOutput, position) => testFields row.tests hasOutput position

theorem map_cell_testColumns (row : Row) (layout : List Bool) (position : Nat) :
    (testColumns position layout).map (·.cell row)
      = (layout.zipIdx position).flatMap fun (hasOutput, position) =>
        testFields row.tests hasOutput position := by
  induction layout generalizing position with
  | nil => rfl
  | cons hasOutput layout ih =>
    rw [List.zipIdx_cons, List.flatMap_cons, ← ih]
    cases hasOutput <;> rfl

theorem record_columns (row : Row) :
    record (columns includeCode rows) row = fields includeCode (layout rows) row := by
  rw [record, columns, List.map_append, map_cell_testColumns]
  cases includeCode <;> rfl

theorem length_fields (row : Row) :
    (fields includeCode (layout rows) row).length = (header includeCode rows).length := by
  rw [← record_columns, record, header, List.length_map, List.length_map]

theorem header_ne_nil : header includeCode rows ≠ [] := by
  cases includeCode <;> exact List.cons_ne_nil _ _

theorem records_eq :
    records includeCode rows
      = header includeCode rows :: rows.map (fields includeCode (layout rows)) := by
  rw [records, funext record_columns]

/-- No export fails, as all its records have one length. -/
theorem write_eq (includeCode : Bool) (rows : List Row) :
    write includeCode rows = .ok (print includeCode rows) := by
  have hlength : ∀ record ∈ rows.map (fields includeCode (layout rows)),
      record.length = (header includeCode rows).length :=
    List.forall_mem_map.2 fun row _ => length_fields row
  rw [write, print, records_eq, Csv.write?_cons hlength]

theorem read_printed (includeCode : Bool) (rows : List Row) :
    Csv.read (print includeCode rows) = some (records includeCode rows) := by
  refine Csv.read_print fun record hrecord => ?_
  rw [records_eq] at hrecord
  rcases List.mem_cons.1 hrecord with rfl | hrecord
  · exact header_ne_nil
  · obtain ⟨row, -, rfl⟩ := List.mem_map.1 hrecord
    cases includeCode <;> exact List.cons_ne_nil _ _

/-- An export succeeds, and reading it gives the header and the fields of each row, all of one
length. -/
theorem read_write (includeCode : Bool) (rows : List Row) :
    ∃ text records, write includeCode rows = .ok text
      ∧ Csv.read text = some records
      ∧ records = header includeCode rows :: rows.map (fields includeCode (layout rows))
      ∧ records.length = 1 + rows.length
      ∧ ∀ record ∈ records, record.length = (header includeCode rows).length := by
  refine ⟨_, _, write_eq includeCode rows, read_printed includeCode rows, records_eq, ?_, ?_⟩
  · rw [records_eq, List.length_cons, List.length_map, Nat.add_comm]
  · rw [records_eq, List.forall_mem_cons, List.forall_mem_map]
    exact ⟨rfl, fun row _ => length_fields row⟩

end AttemptLedger.Export
