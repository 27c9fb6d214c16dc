import AttemptLedger.Proofs.Export
import Mathlib.Data.List.Forall2
import Mathlib.Data.List.Nodup

/-!
# Cells under their columns

No two columns of an export have one name, since the number in the name of a test's column tells its
position. So the name of a column finds one cell in every record, and what it finds is what the column
is for. An export without code is one with code of which two columns were removed.
-/

namespace AttemptLedger

/-! ### Names of columns -/

namespace Text

theorem toList_ofNat (n : Nat) : (ofNat n).toList = Nat.toDigits 10 n := by
  show n.repr.toList = _
  rw [Nat.repr_eq_ofList_toDigits, String.toList_ofList]

theorem isDigit_of_mem_ofNat {n : Nat} {c : Char} (h : c ∈ (ofNat n).toList) : c.isDigit = true := by
  rw [toList_ofNat] at h
  exact Nat.isDigit_of_mem_toDigits (by decide) (by decide) h

theorem toList_ofNat_inj {m n : Nat} (h : (ofNat m).toList = (ofNat n).toList) : m = n := by
  rw [toList_ofNat, toList_ofNat] at h
  have hvalue := congrArg (Nat.ofDigitChars 10 · 0) h
  rwa [Nat.ofDigitChars_toDigits (by decide) (by decide),
    Nat.ofDigitChars_toDigits (by decide) (by decide)] at hvalue

theorem ofNat_injective : Function.Injective ofNat := fun _ _ h =>
  toList_ofNat_inj (congrArg String.toList h)

/-- A number ends where its digits do. -/
theorem ofNat_append_inj {m n : Nat} {s t : List Char}
    (h : (ofNat m).toList ++ '_' :: s = (ofNat n).toList ++ '_' :: t) : m = n ∧ s = t := by
  -- The mark behind a number is no digit, so the digits in front of it are the number's.
  have hfront : ∀ (n : Nat) (s : List Char),
      ((ofNat n).toList ++ '_' :: s).takeWhile Char.isDigit = (ofNat n).toList := by
    intro n s
    rw [List.takeWhile_append_of_pos fun c => isDigit_of_mem_ofNat]
    exact List.append_nil _
  have hdigits := congrArg (List.takeWhile Char.isDigit) h
  rw [hfront, hfront] at hdigits
  rw [hdigits] at h
  exact ⟨toList_ofNat_inj hdigits, (List.cons.inj (List.append_cancel_left h)).2⟩

end Text

namespace Column

/-- The columns that an export has whatever tests there are. -/
def fixed : List Column := base ++ code

theorem mem_fixed_or_test (column : Column) :
    column ∈ fixed ∨ ∃ position, column = testInput position ∨ column = testOutput position := by
  cases column with
  | testInput position => exact .inr ⟨position, .inl rfl⟩
  | testOutput position => exact .inr ⟨position, .inr rfl⟩
  | _ => exact .inl (by decide)

theorem toList_name_testInput (position : Nat) :
    (testInput position).name.toList
      = "test_".toList ++ ((Text.ofNat position).toList ++ '_' :: "input".toList) := by
  simp [name]

theorem toList_name_testOutput (position : Nat) :
    (testOutput position).name.toList
      = "test_".toList ++ ((Text.ofNat position).toList ++ '_' :: "actual_output".toList) := by
  simp [name]

theorem exists_toList_name_test {column : Column} {position : Nat}
    (h : column = testInput position ∨ column = testOutput position) :
    ∃ rest, column.name.toList = "test_".toList ++ rest := by
  rcases h with rfl | rfl
  · exact ⟨_, toList_name_testInput position⟩
  · exact ⟨_, toList_name_testOutput position⟩

theorem name_ne_of_fixed {column other : Column} {position : Nat} (hcolumn : column ∈ fixed)
    (hother : other = testInput position ∨ other = testOutput position) : column.name ≠ other.name := by
  -- The names of tests' columns start alike, and no other name starts like them.
  have hfront : ∀ column ∈ fixed, column.name.toList.take 5 ≠ "test_".toList := by decide +kernel
  obtain ⟨rest, hrest⟩ := exists_toList_name_test hother
  intro hsame
  apply hfront column hcolumn
  rw [hsame, hrest]
  exact List.take_left' (by decide)

theorem test_eq_of_name_eq {a b : Column} {i j : Nat} (ha : a = testInput i ∨ a = testOutput i)
    (hb : b = testInput j ∨ b = testOutput j) (h : a.name = b.name) : a = b := by
  have hlist := congrArg String.toList h
  rcases ha with rfl | rfl <;> rcases hb with rfl | rfl
    <;> simp only [toList_name_testInput, toList_name_testOutput] at hlist
    <;> obtain ⟨hposition, hrest⟩ := Text.ofNat_append_inj (List.append_cancel_left hlist)
  · rw [hposition]
  · exact absurd hrest (by decide)
  · exact absurd hrest (by decide)
  · rw [hposition]

theorem name_injective : Function.Injective name := by
  have hfixed : ∀ a ∈ fixed, ∀ b ∈ fixed, a.name = b.name → a = b := by decide +kernel
  intro a b h
  rcases a.mem_fixed_or_test with ha | ⟨i, ha⟩
  · rcases b.mem_fixed_or_test with hb | ⟨j, hb⟩
    · exact hfixed a ha b hb h
    · exact absurd h (name_ne_of_fixed ha hb)
  · rcases b.mem_fixed_or_test with hb | ⟨j, hb⟩
    · exact absurd h.symm (name_ne_of_fixed hb ha)
    · exact test_eq_of_name_eq ha hb h

end Column

namespace Export

variable {includeCode : Bool} {rows : List Row}

/-! ### Columns of an export -/

theorem mem_testColumns_iff {layout : List Bool} {start : Nat} {column : Column} :
    column ∈ testColumns start layout
      ↔ ∃ position hasOutput, layout[position]? = some hasOutput
        ∧ (column = .testInput (start + position)
          ∨ hasOutput = true ∧ column = .testOutput (start + position)) := by
  induction layout generalizing start with
  | nil => simp [testColumns]
  | cons first layout ih =>
    have hstep : ∀ position, start + 1 + position = start + (position + 1) := by omega
    rw [testColumns, List.cons_append, List.mem_cons, List.mem_append, ih]
    constructor
    · rintro (rfl | hfirst | ⟨position, hasOutput, hlayout, hcolumn⟩)
      · exact ⟨0, first, rfl, .inl rfl⟩
      · refine ⟨0, first, rfl, .inr ?_⟩
        cases first with
        | false => cases hfirst
        | true => exact ⟨rfl, List.mem_singleton.1 hfirst⟩
      · rw [hstep] at hcolumn
        exact ⟨position + 1, hasOutput, hlayout, hcolumn⟩
    · rintro ⟨position, hasOutput, hlayout, hcolumn⟩
      cases position with
      | zero =>
        cases hlayout
        rcases hcolumn with rfl | ⟨rfl, rfl⟩
        · exact .inl rfl
        · exact .inr (.inl (List.mem_singleton_self _))
      | succ position =>
        rw [← hstep] at hcolumn
        exact .inr (.inr ⟨position, hasOutput, hlayout, hcolumn⟩)

theorem nodup_testColumns (start : Nat) (layout : List Bool) : (testColumns start layout).Nodup := by
  induction layout generalizing start with
  | nil => exact List.nodup_nil
  | cons first layout ih =>
    have hlater : ∀ column ∈ testColumns (start + 1) layout,
        column ≠ .testInput start ∧ column ≠ .testOutput start := by
      intro column hcolumn
      obtain ⟨position, _, _, rfl | ⟨_, rfl⟩⟩ := mem_testColumns_iff.1 hcolumn
      · refine ⟨fun h => ?_, nofun⟩
        have hposition := Column.testInput.inj h
        omega
      · refine ⟨nofun, fun h => ?_⟩
        have hposition := Column.testOutput.inj h
        omega
    rw [testColumns]
    cases first with
    | false => exact List.nodup_cons.2 ⟨fun hmem => (hlater _ hmem).1 rfl, ih (start + 1)⟩
    | true =>
      have houtput : (Column.testOutput start :: testColumns (start + 1) layout).Nodup :=
        List.nodup_cons.2 ⟨fun hmem => (hlater _ hmem).2 rfl, ih (start + 1)⟩
      refine List.nodup_cons.2 ⟨fun hmem => ?_, houtput⟩
      rcases List.mem_cons.1 hmem with hsame | hmem
      · cases hsame
      · exact (hlater _ hmem).1 rfl

theorem not_mem_testColumns_of_fixed {column : Column} (h : column ∈ Column.fixed) (start : Nat)
    (layout : List Bool) : column ∉ testColumns start layout := by
  intro hmem
  obtain ⟨position, _, _, rfl | ⟨_, rfl⟩⟩ := mem_testColumns_iff.1 hmem
  · exact Column.name_ne_of_fixed h (.inl rfl) rfl
  · exact Column.name_ne_of_fixed h (.inr rfl) rfl

theorem nodup_columns (includeCode : Bool) (rows : List Row) : (columns includeCode rows).Nodup := by
  have hfront : ∀ column ∈ Column.base ++ (if includeCode then Column.code else []),
      column ∈ Column.fixed := by cases includeCode <;> decide
  refine List.nodup_append.2 ⟨?_, nodup_testColumns 0 (layout rows), ?_⟩
  · cases includeCode <;> decide
  · rintro column hcolumn other hother rfl
    exact not_mem_testColumns_of_fixed (hfront column hcolumn) 0 _ hother

theorem mem_columns_of_base {column : Column} (h : column ∈ Column.base) :
    column ∈ columns includeCode rows := List.mem_append_left _ (List.mem_append_left _ h)

theorem mem_columns_of_code {column : Column} (h : column ∈ Column.code) :
    column ∈ columns includeCode rows ↔ includeCode = true := by
  have hbase : ∀ column ∈ Column.code, column ∉ Column.base := by decide
  have htest := not_mem_testColumns_of_fixed (List.mem_append_right Column.base h) 0 (layout rows)
  cases includeCode with
  | false => simp [columns, hbase column h, htest]
  | true => simp [columns, h]

theorem mem_columns_of_test {column : Column} {position : Nat}
    (h : column = .testInput position ∨ column = .testOutput position) :
    column ∈ columns includeCode rows ↔ column ∈ testColumns 0 (layout rows) := by
  have hfront : column ∉ Column.base ++ (if includeCode then Column.code else []) := by
    rcases h with rfl | rfl <;> cases includeCode <;> simp [Column.base, Column.code]
  rw [columns, List.mem_append]
  exact or_iff_right hfront

theorem getElem?_layout_eq_some_iff {position : Nat} {hasOutput : Bool} :
    (layout rows)[position]? = some hasOutput
      ↔ (∃ row ∈ rows, position < row.tests.length)
        ∧ rows.any (·.tests[position]?.any (·.isExecuted)) = hasOutput := by
  rw [getElem?_layout]
  split
  · next hrow => exact ⟨fun h => ⟨hrow, Option.some.inj h⟩, fun h => congrArg some h.2⟩
  · next hrow => exact ⟨nofun, fun h => absurd h.1 hrow⟩

theorem testInput_mem_columns_iff {position : Nat} :
    .testInput position ∈ columns includeCode rows ↔ ∃ row ∈ rows, position < row.tests.length := by
  rw [mem_columns_of_test (.inl rfl), mem_testColumns_iff]
  constructor
  · rintro ⟨index, hasOutput, hlayout, hcolumn | ⟨_, hcolumn⟩⟩
    · cases hcolumn
      rw [Nat.zero_add]
      exact (getElem?_layout_eq_some_iff.1 hlayout).1
    · cases hcolumn
  · intro hrow
    exact ⟨position, _, getElem?_layout_eq_some_iff.2 ⟨hrow, rfl⟩, .inl (by rw [Nat.zero_add])⟩

theorem testOutput_mem_columns_iff {position : Nat} :
    .testOutput position ∈ columns includeCode rows
      ↔ ∃ row ∈ rows, ∃ test, row.tests[position]? = some test ∧ test.actualOutput.isSome = true := by
  have hany : rows.any (·.tests[position]?.any (·.isExecuted)) = true
      ↔ ∃ row ∈ rows, ∃ test, row.tests[position]? = some test ∧ test.actualOutput.isSome = true := by
    simp only [List.any_eq_true, Option.any_eq_true, TestRecord.isExecuted]
  rw [mem_columns_of_test (.inr rfl), mem_testColumns_iff, ← hany]
  constructor
  · rintro ⟨index, hasOutput, hlayout, hcolumn | ⟨rfl, hcolumn⟩⟩
    · cases hcolumn
    · cases hcolumn
      rw [Nat.zero_add]
      exact (getElem?_layout_eq_some_iff.1 hlayout).2
  · intro houtput
    obtain ⟨row, hrow, test, htest, -⟩ := hany.1 houtput
    have hposition : position < row.tests.length := (List.getElem?_eq_some_iff.1 htest).1
    refine ⟨position, true, ?_, .inr ⟨rfl, by rw [Nat.zero_add]⟩⟩
    exact getElem?_layout_eq_some_iff.2 ⟨⟨row, hrow, hposition⟩, houtput⟩

/-! ### Cells of a record -/

/-- The cell of a record under the first column of a name. -/
def cellUnder (header record : List String) (name : String) : Option String :=
  (header.zip record).lookup name

/-- What the columns at the front of an export are for, by their names. -/
def baseCells (row : Row) : List (String × String) :=
  [("seed_language", row.seedLanguage), ("request_target_language", row.requestTargetLanguage),
    ("request_id", row.requestId), ("input_languages", row.inputLanguage),
    ("target_languages", row.targetLanguage), ("level", toString row.level.toInt),
    ("edge_id", toString row.id.toInt), ("parent_edge_id", toString row.parentId.toInt),
    ("status", row.status.text), ("memoized", toString row.memoized),
    ("failed_timeout", toString row.failedTimeout)]

def codeCells (row : Row) : List (String × String) :=
  [("extracted_code", row.extractedCode), ("inference_output", row.inferenceOutput)]

/-- Whether a record under a header is that of a row: as many cells as columns, under each column what it
is for, and nothing under a test's column where the row has no such test or output. -/
structure Shows (includeCode : Bool) (header : List String) (row : Row) (record : List String) : Prop where
  length_eq : record.length = header.length
  base : ∀ cell ∈ baseCells row, cellUnder header record cell.1 = some cell.2
  code : ∀ cell ∈ codeCells row,
    cellUnder header record cell.1 = if includeCode then some cell.2 else none
  input : ∀ position : Nat, "test_" ++ toString position ++ "_input" ∈ header →
    cellUnder header record ("test_" ++ toString position ++ "_input")
      = some ((row.tests[position]?.map (·.input)).getD "")
  output : ∀ position : Nat, "test_" ++ toString position ++ "_actual_output" ∈ header →
    cellUnder header record ("test_" ++ toString position ++ "_actual_output")
      = some ((row.tests[position]?.bind (·.actualOutput)).getD "")

theorem lookup_map_of_injective {α β γ : Type} [DecidableEq α] [DecidableEq β] {key : α → β}
    (hkey : Function.Injective key) (value : α → γ) (as : List α) (a : α) :
    (as.map fun a => (key a, value a)).lookup (key a) = if a ∈ as then some (value a) else none := by
  induction as with
  | nil => rfl
  | cons first as ih =>
    rw [List.map_cons, List.lookup_cons, ih]
    by_cases hfirst : a = first
    · subst hfirst
      simp
    · have hne : (key a == key first) = false := beq_eq_false_iff_ne.2 (hkey.ne hfirst)
      simp [hne, hfirst]

/-- The name of a column finds its cell, as no other column has the name. -/
theorem cellUnder_name (row : Row) (column : Column) :
    cellUnder (header includeCode rows) (record (columns includeCode rows) row) column.name
      = if column ∈ columns includeCode rows then some (column.cell row) else none := by
  rw [cellUnder, header, record, List.zip_map']
  exact lookup_map_of_injective Column.name_injective _ _ _

theorem name_mem_header_iff {column : Column} :
    column.name ∈ header includeCode rows ↔ column ∈ columns includeCode rows :=
  List.mem_map_of_injective Column.name_injective

theorem shows_record (row : Row) :
    Shows includeCode (header includeCode rows) row (record (columns includeCode rows) row) where
  length_eq := by rw [record, header, List.length_map, List.length_map]
  base := by
    have hcells : baseCells row = Column.base.map fun column => (column.name, column.cell row) := rfl
    rw [hcells, List.forall_mem_map]
    intro column hcolumn
    rw [cellUnder_name, if_pos (mem_columns_of_base hcolumn)]
  code := by
    have hcells : codeCells row = Column.code.map fun column => (column.name, column.cell row) := rfl
    rw [hcells, List.forall_mem_map]
    intro column hcolumn
    rw [cellUnder_name]
    exact if_congr (mem_columns_of_code hcolumn) rfl rfl
  input position h := by
    have hcolumn := (@name_mem_header_iff includeCode rows (.testInput position)).1 h
    exact (cellUnder_name row (.testInput position)).trans (if_pos hcolumn)
  output position h := by
    have hcolumn := (@name_mem_header_iff includeCode rows (.testOutput position)).1 h
    exact (cellUnder_name row (.testOutput position)).trans (if_pos hcolumn)

/-! ### Removed columns -/

/-- A record without its cells under some names. -/
def without (names header record : List String) : List String :=
  ((header.zip record).filter fun cell => cell.1 ∉ names).map (·.2)

theorem columns_false (rows : List Row) :
    columns false rows = (columns true rows).filter fun column => column ∉ Column.code := by
  have hbase : ∀ column ∈ Column.base, column ∉ Column.code := by decide
  have htests : ∀ column ∈ testColumns 0 (layout rows), column ∉ Column.code := by
    intro column hcolumn hcode
    exact not_mem_testColumns_of_fixed (List.mem_append_right Column.base hcode) 0 _ hcolumn
  have hcode : Column.code.filter (fun column => column ∉ Column.code) = [] := by decide
  simp only [columns, List.filter_append, if_true, hcode]
  rw [List.filter_eq_self.2 fun column h => decide_eq_true (hbase column h),
    List.filter_eq_self.2 fun column h => decide_eq_true (htests column h)]
  rfl

/-- What every column has a value for, without the values of the code's columns. -/
theorem without_code {value : Column → String} :
    without ["extracted_code", "inference_output"] (header true rows) ((columns true rows).map value)
      = (columns false rows).map value := by
  have hnames : ["extracted_code", "inference_output"] = Column.code.map (·.name) := rfl
  rw [without, header, List.zip_map', List.filter_map, List.map_map, columns_false, hnames]
  congr 1
  refine List.filter_congr fun column _ => ?_
  exact decide_eq_decide.2 (not_congr (List.mem_map_of_injective Column.name_injective))

theorem records_false (rows : List Row) :
    records false rows
      = (records true rows).map (without ["extracted_code", "inference_output"] (header true rows)) := by
  have hheader : header false rows
      = without ["extracted_code", "inference_output"] (header true rows) (header true rows) :=
    without_code.symm
  rw [records, records, List.map_cons, List.map_map, ← hheader]
  congr 1
  exact List.map_congr_left fun row _ => without_code.symm

/-- An export is written, its columns have different names, tests have an input column at the positions
of some row's tests and an output column where some row has an output, and the records of the rows,
in their order, show under each column what it is for. Without code the export is that with code from
which the two columns for code were removed. -/
theorem cells_under_columns (includeCode : Bool) (rows : List Row) :
    (∃ text records, write includeCode rows = .ok text
        ∧ Csv.read text = some (header includeCode rows :: records)
        ∧ List.Forall₂ (Shows includeCode (header includeCode rows)) rows records)
      ∧ (header includeCode rows).Nodup
      ∧ (∀ position : Nat, "test_" ++ toString position ++ "_input" ∈ header includeCode rows
        ↔ ∃ row ∈ rows, position < row.tests.length)
      ∧ (∀ position : Nat, "test_" ++ toString position ++ "_actual_output" ∈ header includeCode rows
        ↔ ∃ row ∈ rows, ∃ test, row.tests[position]? = some test ∧ test.actualOutput.isSome = true)
      ∧ ∃ text records, write true rows = .ok text ∧ Csv.read text = some records
        ∧ write false rows = .ok (Csv.print
          (records.map (without ["extracted_code", "inference_output"] (header true rows)))) := by
  refine ⟨⟨_, _, write_eq includeCode rows, read_printed includeCode rows, ?_⟩,
    (nodup_columns includeCode rows).map Column.name_injective, fun position => ?_, fun position => ?_,
    _, _, write_eq true rows, read_printed true rows, ?_⟩
  · rw [List.forall₂_map_right_iff]
    exact List.forall₂_same.2 fun row _ => shows_record row
  · exact (@name_mem_header_iff includeCode rows (.testInput position)).trans testInput_mem_columns_iff
  · exact (@name_mem_header_iff includeCode rows (.testOutput position)).trans testOutput_mem_columns_iff
  · rw [← records_false]
    exact write_eq false rows

end Export

end AttemptLedger
