import AttemptLedger.Batch
import AttemptLedger.Json.Printer

/-!
# Batches as documents

The document of a batch, member by member in a fixed order. Some members of an attempt are left out
when they hold the default.
-/

namespace AttemptLedger.Json

def ofText (text : String) : Value := .text (some text)

def ofInt (n : Int64) : Value := .number (.ofInt n.toInt)

def ofList {α : Type} (item : α → Value) (items : List α) : Value := .array (items.map item) true

abbrev Member := Option String × Value

/-- A member that is always written. -/
def member (name : String) (value : Value) : List Member := [(some name, value)]

def textMember (name : String) (text : String) : List Member :=
  if text = "" then [] else member name (ofText text)

def optionalMember (name : String) : Option String → List Member
  | some text => member name (ofText text)
  | none => []

def intMember (name : String) (n : Int64) : List Member :=
  if n = 0 then [] else member name (ofInt n)

def flagMember (name : String) (flag : Bool) : List Member :=
  if flag then member name (.bool true) else []

def listMember {α : Type} (name : String) (item : α → Value) (items : List α) : List Member :=
  if items.isEmpty then [] else member name (ofList item items)

def ofFuzzyTest (test : FuzzyTest) : Value :=
  .object (member "stdin_input" (ofText test.stdinInput)
    ++ member "expected_output" (ofText test.expectedOutput)
    ++ optionalMember "actual_output" test.actualOutput
    ++ member "passed" (.bool test.passed)
    ++ member "executed_code" (ofText test.executedCode)) true

def ofUnitTest (test : UnitTest) : Value :=
  .object (member "source_code" (ofText test.sourceCode)
    ++ optionalMember "actual_output" test.actualOutput
    ++ member "passed" (.bool test.passed)
    ++ member "executed_code" (ofText test.executedCode)) true

def ofAttempt (attempt : Attempt) : Value :=
  .object (member "edge_id" (ofInt attempt.id)
    ++ member "parent_edge_id" (ofInt attempt.parentId)
    ++ member "input_language" (ofText attempt.inputLanguage)
    ++ member "target_language" (ofText attempt.targetLanguage)
    ++ intMember "level" attempt.level
    ++ member "status" (ofText attempt.status.text)
    ++ member "extracted_source_code" (ofText attempt.extractedCode)
    ++ member "inference_output" (ofText attempt.inferenceOutput)
    ++ listMember "fuzzy_tests" ofFuzzyTest attempt.tests.fuzzyTests
    ++ listMember "unit_tests" ofUnitTest attempt.tests.unitTests
    ++ textMember "prompt" attempt.prompt
    ++ textMember "source_code" attempt.sourceCode
    ++ flagMember "success" attempt.success
    ++ intMember "wall_time_inference" attempt.inferenceTime
    ++ intMember "wall_time_test_execution" attempt.executionTime
    ++ flagMember "used_inference_cache" attempt.usedCache) true

def ofChain (chain : Chain) : Value :=
  .object (member "translation_edges" (ofList ofAttempt chain.attempts)
    ++ member "edge_index_memoized" (ofList .bool chain.memoFlags)) true

def ofRequest (request : Request) : Value :=
  .object (member "id" (ofText request.id)
    ++ member "seed_language" (ofText request.seedLanguage)
    ++ member "target_language" (ofText request.targetLanguage)
    ++ member "seed_code" (ofText request.seedCode)) true

def ofResponse (response : Response) : Value :=
  .object (member "translation_request" (ofRequest response.request)
    ++ member "paths" (ofList ofChain response.chains)) true

/-- The tree of a batch (`to_doc`). -/
def ofBatch (batch : Batch) : Value :=
  .object (member "translation_responses" (ofList ofResponse batch.responses)) true

/-- The document of a batch (`encode_batch_response`). -/
def encode (batch : Batch) : String := String.ofList ((ofBatch batch).print 0)

end AttemptLedger.Json
