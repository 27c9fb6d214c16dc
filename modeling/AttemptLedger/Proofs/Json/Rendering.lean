import AttemptLedger.Json.Encode
import AttemptLedger.Proofs.Json.Reading
import Mathlib.Algebra.Group.Nat.Defs
import Mathlib.Data.List.Forall2

/-!
# Renderings of batches

All documents that stand for a batch. A record may name its fields with or without underscores and in
any order, leave out or set to null what holds its default, give integers as numbers or as texts and
cache flags as flags or as numbers, and have any members of other names.
-/

namespace AttemptLedger.Json

/-! ### Values -/

/-- An integer as its literal, or as a text of its decimal form: blanks may stand around it, and a plus
in front of what is not negative. -/
inductive RendersInt (n : Int64) : Value → Prop
  | literal : RendersInt n (.number (.ofInt n.toInt))
  | text {front sign back : List Char} : (∀ c ∈ front ++ back, Text.isBlank c = true) →
      (if n.toInt < 0 then sign = ['-'] else sign = [] ∨ sign = ['+']) →
      RendersInt n (.text (some (.ofList
        (front ++ (sign ++ (Nat.toDigits 10 n.toInt.natAbs ++ back))))))

/-- A cache flag, or a number of a machine word that is zero for an unset one. -/
inductive RendersFlag (flag : Bool) : Value → Prop
  | flag : RendersFlag flag (.bool flag)
  | number {n : Nat} : n < 2 ^ 64 → (flag = true ↔ n ≠ 0) → RendersFlag flag (.number (.ofInt n))

inductive RendersList {α : Type} (renders : α → Value → Prop) (items : List α) : Value → Prop
  | intro {values : List Value} : List.Forall₂ renders items values →
      RendersList renders items (.array values true)

/-- Flags of which those at the given positions are set, and no others. -/
def SetAt (memoized : PositionSet) (flags : List Bool) : Prop :=
  ∀ index : Nat, flags[index]? = some true ↔ ∃ position ∈ memoized.toList, position.toNat = index

/-! ### Records -/

/-- What a record says in one of its fields: whether it may leave the field out, and which values it
may give it. -/
structure Entry where
  name : String
  omittable : Prop
  renders : Value → Prop

namespace Entry

def required (name : String) (renders : Value → Prop) : Entry := ⟨name, False, renders⟩

/-- A field that holds its default where `isDefault` says so. -/
def optional (name : String) (isDefault : Prop) (renders : Value → Prop) : Entry :=
  ⟨name, isDefault, fun value => renders value ∨ isDefault ∧ value = .null⟩

def text (name : String) (text : String) : Entry :=
  optional name (text = "") fun value => value = .text (some text)

def optionalText (name : String) (text : Option String) : Entry :=
  optional name (text = none) fun value => ∃ content, text = some content ∧ value = .text (some content)

def flag (name : String) (flag : Bool) : Entry :=
  optional name (flag = false) fun value => value = .bool flag

def int (name : String) (n : Int64) : Entry := optional name (n = 0) (RendersInt n)

def id (name : String) (n : Int64) : Entry := required name (RendersInt n)

def list {α : Type} (name : String) (renders : α → Value → Prop) (items : List α) : Entry :=
  optional name (items = []) (RendersList renders items)

end Entry

/-- A name of words joined by underscores as one word, with a capital for every later word. -/
def camelCase : List Char → List Char
  | '_' :: c :: cs => c.toUpper :: camelCase cs
  | c :: cs => c :: camelCase cs
  | [] => []

/-- The two keys that a field goes by. -/
def keys (name : String) : List String := [name, String.ofList (camelCase name.toList)]

/-- Members for the fields of a record in their order, without some that may be left out. -/
inductive Listed : List Entry → List Member → Prop
  | nil : Listed [] []
  | omitted {entry : Entry} {entries : List Entry} {members : List Member} : entry.omittable →
      Listed entries members → Listed (entry :: entries) members
  | written {entry : Entry} {entries : List Entry} {members : List Member} {value : Value} :
      entry.renders value → Listed entries members →
      Listed (entry :: entries) ((some entry.name, value) :: members)

theorem Listed.exists_entry {entries : List Entry} {named : List Member} (h : Listed entries named)
    {member : Member} (hmember : member ∈ named) :
    ∃ entry ∈ entries, member.1 = some entry.name ∧ entry.renders member.2 := by
  induction h with
  | nil => cases hmember
  | omitted _ _ ih =>
    obtain ⟨entry, hentry, hrenders⟩ := ih hmember
    exact ⟨entry, List.mem_cons_of_mem _ hentry, hrenders⟩
  | written hvalue _ ih =>
    rcases List.mem_cons.1 hmember with rfl | hmember
    · exact ⟨_, List.mem_cons_self .., rfl, hvalue⟩
    · obtain ⟨entry, hentry, hrenders⟩ := ih hmember
      exact ⟨entry, List.mem_cons_of_mem _ hentry, hrenders⟩

/-- The same member under one of the keys of its field. -/
def Respelled (named respelled : Member) : Prop :=
  ∃ name, named.1 = some name ∧ (∃ key ∈ keys name, respelled.1 = some key) ∧ respelled.2 = named.2

/-- A member that is no field of the record; its value may be anything. -/
def Foreign (entries : List Entry) (foreign : Member) : Prop :=
  (∃ key, foreign.1 = some key ∧ ∀ entry ∈ entries, key ∉ keys entry.name) ∧ foreign.2.Whole

inductive RendersRecord (entries : List Entry) : Value → Prop
  | intro {named respelled foreign members : List Member} : Listed entries named →
      List.Forall₂ Respelled named respelled → (∀ other ∈ foreign, Foreign entries other) →
      members.Perm (respelled ++ foreign) → RendersRecord entries (.object members true)

/-! ### The seven records -/

def fuzzyTestEntries (test : FuzzyTest) : List Entry := [
  .text "stdin_input" test.stdinInput,
  .text "expected_output" test.expectedOutput,
  .optionalText "actual_output" test.actualOutput,
  .flag "passed" test.passed,
  .text "executed_code" test.executedCode]

def RendersFuzzyTest (test : FuzzyTest) : Value → Prop := RendersRecord (fuzzyTestEntries test)

def unitTestEntries (test : UnitTest) : List Entry := [
  .text "source_code" test.sourceCode,
  .optionalText "actual_output" test.actualOutput,
  .flag "passed" test.passed,
  .text "executed_code" test.executedCode]

def RendersUnitTest (test : UnitTest) : Value → Prop := RendersRecord (unitTestEntries test)

def attemptEntries (attempt : Attempt) : List Entry := [
  .id "edge_id" attempt.id,
  .id "parent_edge_id" attempt.parentId,
  .text "input_language" attempt.inputLanguage,
  .text "target_language" attempt.targetLanguage,
  .int "level" attempt.level,
  .text "status" attempt.status.text,
  .text "extracted_source_code" attempt.extractedCode,
  .text "inference_output" attempt.inferenceOutput,
  .list "fuzzy_tests" RendersFuzzyTest attempt.tests.fuzzyTests,
  .list "unit_tests" RendersUnitTest attempt.tests.unitTests,
  .text "prompt" attempt.prompt,
  .text "source_code" attempt.sourceCode,
  .flag "success" attempt.success,
  .int "wall_time_inference" attempt.inferenceTime,
  .int "wall_time_test_execution" attempt.executionTime,
  .flag "used_inference_cache" attempt.usedCache]

def RendersAttempt (attempt : Attempt) : Value → Prop := RendersRecord (attemptEntries attempt)

def chainEntries (chain : Chain) : List Entry := [
  .list "translation_edges" RendersAttempt chain.attempts,
  .optional "edge_index_memoized" (chain.memoized = .empty) fun value =>
    ∃ flags, SetAt chain.memoized flags ∧ RendersList RendersFlag flags value]

def RendersChain (chain : Chain) : Value → Prop := RendersRecord (chainEntries chain)

def requestEntries (request : Request) : List Entry := [
  .text "id" request.id,
  .text "seed_language" request.seedLanguage,
  .text "target_language" request.targetLanguage,
  .text "seed_code" request.seedCode]

def RendersRequest (request : Request) : Value → Prop := RendersRecord (requestEntries request)

def responseEntries (response : Response) : List Entry := [
  .required "translation_request" (RendersRequest response.request),
  .list "paths" RendersChain response.chains]

def RendersResponse (response : Response) : Value → Prop :=
  RendersRecord (responseEntries response)

def batchEntries (batch : Batch) : List Entry :=
  [.list "translation_responses" RendersResponse batch.responses]

def RendersBatch (batch : Batch) : Value → Prop := RendersRecord (batchEntries batch)

/-! ### Renderings are whole documents -/

/-- Every value that a record may give to the field has a text. -/
def Entry.IsWhole (entry : Entry) : Prop := ∀ value, entry.renders value → value.Whole

theorem whole_of_rendersInt {n : Int64} {value : Value} (h : RendersInt n value) : value.Whole := by
  cases h with
  | literal => exact .number _
  | text => exact .text _

theorem whole_of_rendersFlag {flag : Bool} {value : Value} (h : RendersFlag flag value) :
    value.Whole := by
  cases h with
  | flag => exact .bool _
  | number => exact .number _

theorem whole_of_rendersList {α : Type} {renders : α → Value → Prop}
    (hitem : ∀ a value, renders a value → value.Whole) {items : List α} {value : Value}
    (h : RendersList renders items value) : value.Whole := by
  obtain @⟨values, hvalues⟩ := h
  refine .array ?_
  induction hvalues with
  | nil =>
    intro value hvalue
    cases hvalue
  | cons hvalue _ ih => exact List.forall_mem_cons.2 ⟨hitem _ _ hvalue, ih⟩

namespace Entry

theorem isWhole_optional (name : String) (isDefault : Prop) {renders : Value → Prop}
    (h : ∀ value, renders value → value.Whole) : (optional name isDefault renders).IsWhole := by
  rintro value (hvalue | ⟨_, rfl⟩)
  · exact h value hvalue
  · exact .null

@[simp]
theorem isWhole_text (name content : String) : (text name content).IsWhole := by
  refine isWhole_optional name _ ?_
  rintro _ rfl
  exact .text _

@[simp]
theorem isWhole_optionalText (name : String) (content : Option String) :
    (optionalText name content).IsWhole := by
  refine isWhole_optional name _ ?_
  rintro _ ⟨content, _, rfl⟩
  exact .text _

@[simp]
theorem isWhole_flag (name : String) (value : Bool) : (flag name value).IsWhole := by
  refine isWhole_optional name _ ?_
  rintro _ rfl
  exact .bool _

@[simp]
theorem isWhole_int (name : String) (n : Int64) : (int name n).IsWhole :=
  isWhole_optional name _ fun _ => whole_of_rendersInt

@[simp]
theorem isWhole_id (name : String) (n : Int64) : (id name n).IsWhole := fun _ => whole_of_rendersInt

theorem isWhole_list {α : Type} (name : String) {renders : α → Value → Prop} (items : List α)
    (h : ∀ a value, renders a value → value.Whole) : (list name renders items).IsWhole :=
  isWhole_optional name _ fun _ => whole_of_rendersList h

end Entry

theorem whole_of_listed {entries : List Entry} {named : List Member} (h : Listed entries named)
    (hentries : ∀ entry ∈ entries, entry.IsWhole) : ∀ member ∈ named, member.2.Whole := by
  induction h with
  | nil =>
    intro member hmember
    cases hmember
  | omitted _ _ ih => exact ih (List.forall_mem_cons.1 hentries).2
  | written hvalue _ ih =>
    obtain ⟨hentry, hentries⟩ := List.forall_mem_cons.1 hentries
    exact List.forall_mem_cons.2 ⟨hentry _ hvalue, ih hentries⟩

theorem whole_of_rendersRecord {entries : List Entry} (hentries : ∀ entry ∈ entries, entry.IsWhole)
    {value : Value} (h : RendersRecord entries value) : value.Whole := by
  obtain @⟨named, respelled, foreign, members, hlisted, hrespelled, hforeign, hperm⟩ := h
  have hnamed := whole_of_listed hlisted hentries
  have hvalues : ∀ member ∈ respelled, member.2.Whole := by
    clear hlisted hperm
    induction hrespelled with
    | nil => exact hnamed
    | cons hmember _ ih =>
      obtain ⟨_, _, _, hvalue⟩ := hmember
      obtain ⟨hhead, htail⟩ := List.forall_mem_cons.1 hnamed
      rw [← hvalue] at hhead
      exact List.forall_mem_cons.2 ⟨hhead, ih htail⟩
  refine .object fun member hmember => ?_
  rcases List.mem_append.1 (hperm.mem_iff.1 hmember) with hmember | hmember
  · exact hvalues member hmember
  · exact (hforeign member hmember).2

theorem whole_of_rendersFuzzyTest (test : FuzzyTest) (value : Value) (h : RendersFuzzyTest test value) :
    value.Whole := whole_of_rendersRecord (by simp [fuzzyTestEntries]) h

theorem whole_of_rendersUnitTest (test : UnitTest) (value : Value) (h : RendersUnitTest test value) :
    value.Whole := whole_of_rendersRecord (by simp [unitTestEntries]) h

theorem isWhole_attemptEntries (attempt : Attempt) :
    ∀ entry ∈ attemptEntries attempt, entry.IsWhole := by
  have hfuzzy := fun name => Entry.isWhole_list name attempt.tests.fuzzyTests whole_of_rendersFuzzyTest
  have hunit := fun name => Entry.isWhole_list name attempt.tests.unitTests whole_of_rendersUnitTest
  simp [attemptEntries, hfuzzy, hunit]

theorem whole_of_rendersAttempt (attempt : Attempt) (value : Value)
    (h : RendersAttempt attempt value) : value.Whole :=
  whole_of_rendersRecord (isWhole_attemptEntries attempt) h

theorem isWhole_chainEntries (chain : Chain) : ∀ entry ∈ chainEntries chain, entry.IsWhole := by
  refine List.forall_mem_cons.2 ⟨Entry.isWhole_list _ _ whole_of_rendersAttempt,
    List.forall_mem_singleton.2 (Entry.isWhole_optional _ _ ?_)⟩
  rintro value ⟨_, _, hvalue⟩
  exact whole_of_rendersList (fun _ _ => whole_of_rendersFlag) hvalue

theorem whole_of_rendersChain (chain : Chain) (value : Value) (h : RendersChain chain value) :
    value.Whole := whole_of_rendersRecord (isWhole_chainEntries chain) h

theorem whole_of_rendersRequest (request : Request) (value : Value) (h : RendersRequest request value) :
    value.Whole := whole_of_rendersRecord (by simp [requestEntries]) h

theorem whole_of_rendersResponse (response : Response) (value : Value)
    (h : RendersResponse response value) : value.Whole := by
  refine whole_of_rendersRecord ?_ h
  exact List.forall_mem_cons.2 ⟨whole_of_rendersRequest response.request,
    List.forall_mem_singleton.2 (Entry.isWhole_list _ _ whole_of_rendersChain)⟩

theorem whole_of_rendersBatch {batch : Batch} {value : Value} (h : RendersBatch batch value) :
    value.Whole :=
  whole_of_rendersRecord
    (List.forall_mem_singleton.2 (Entry.isWhole_list _ _ whole_of_rendersResponse)) h

end AttemptLedger.Json
