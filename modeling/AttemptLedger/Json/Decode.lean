import AttemptLedger.Batch
import AttemptLedger.Json.Document
import AttemptLedger.Json.Record

/-!
# Reading batches from documents

The schemas of the seven records, innermost first. Names of several words have a second spelling
without underscores. Texts, lists, flags and numbers may be absent or null, except for the ids of an
attempt and the request of a response.
-/

namespace AttemptLedger.Json

/-- A text, or the empty one for null. -/
def textField {σ : Type} (name : String) (otherName : Option String) (put : String → σ → σ) :
    Field σ :=
  .of name otherName (.orDefault "" .text) put

def flagField {σ : Type} (name : String) (otherName : Option String) (put : Bool → σ → σ) :
    Field σ :=
  .of name otherName (.orDefault false .flag) put

def intField {σ : Type} (name : String) (otherName : Option String) (put : Int64 → σ → σ) :
    Field σ :=
  .of name otherName (.orDefault 0 .integer) put

def listField {σ α : Type} (name : String) (otherName : Option String) (item : Take α)
    (put : List α → σ → σ) : Field σ :=
  .of name otherName (.orDefault [] (.list item)) put

def fuzzyTestSchema : Schema FuzzyTest where
  title := "FuzzyDoc"
  fields := [
    textField "stdin_input" (some "stdinInput") fun text test => { test with stdinInput := text },
    textField "expected_output" (some "expectedOutput") fun text test =>
      { test with expectedOutput := text },
    .of "actual_output" (some "actualOutput") (.optional .text) fun text test =>
      { test with actualOutput := text },
    flagField "passed" none fun flag test => { test with passed := flag },
    textField "executed_code" (some "executedCode") fun text test =>
      { test with executedCode := text }]

def unitTestSchema : Schema UnitTest where
  title := "UnitDoc"
  fields := [
    textField "source_code" (some "sourceCode") fun text test => { test with sourceCode := text },
    .of "actual_output" (some "actualOutput") (.optional .text) fun text test =>
      { test with actualOutput := text },
    flagField "passed" none fun flag test => { test with passed := flag },
    textField "executed_code" (some "executedCode") fun text test =>
      { test with executedCode := text }]

/-- What has been taken in of an attempt: its tests by kind, and the rest. -/
structure AttemptDraft where
  fuzzyTests : List FuzzyTest := []
  unitTests : List UnitTest := []
  attempt : Attempt := {}

def AttemptDraft.update {α : Type} (put : α → Attempt → Attempt) (value : α) (draft : AttemptDraft) :
    AttemptDraft :=
  { draft with attempt := put value draft.attempt }

def AttemptDraft.finish (draft : AttemptDraft) : Attempt :=
  { draft.attempt with tests := .ofTests draft.fuzzyTests draft.unitTests }

def attemptSchema : Schema AttemptDraft where
  title := "EdgeDoc"
  fields := [
    .require (.of "edge_id" (some "edgeId") .integer
      (.update fun id attempt => { attempt with id := id })),
    .require (.of "parent_edge_id" (some "parentEdgeId") .integer
      (.update fun id attempt => { attempt with parentId := id })),
    textField "input_language" (some "inputLanguage")
      (.update fun text attempt => { attempt with inputLanguage := text }),
    textField "target_language" (some "targetLanguage")
      (.update fun text attempt => { attempt with targetLanguage := text }),
    intField "level" none (.update fun level attempt => { attempt with level := level }),
    textField "status" none
      (.update fun text attempt => { attempt with status := .ofText text }),
    textField "extracted_source_code" (some "extractedSourceCode")
      (.update fun text attempt => { attempt with extractedCode := text }),
    textField "inference_output" (some "inferenceOutput")
      (.update fun text attempt => { attempt with inferenceOutput := text }),
    listField "fuzzy_tests" (some "fuzzyTests") (fuzzyTestSchema.take {}) fun tests draft =>
      { draft with fuzzyTests := tests },
    listField "unit_tests" (some "unitTests") (unitTestSchema.take {}) fun tests draft =>
      { draft with unitTests := tests },
    textField "prompt" none (.update fun text attempt => { attempt with prompt := text }),
    textField "source_code" (some "sourceCode")
      (.update fun text attempt => { attempt with sourceCode := text }),
    flagField "success" none (.update fun flag attempt => { attempt with success := flag }),
    intField "wall_time_inference" (some "wallTimeInference")
      (.update fun time attempt => { attempt with inferenceTime := time }),
    intField "wall_time_test_execution" (some "wallTimeTestExecution")
      (.update fun time attempt => { attempt with executionTime := time }),
    flagField "used_inference_cache" (some "usedInferenceCache")
      (.update fun flag attempt => { attempt with usedCache := flag })]

structure ChainDraft where
  attempts : List AttemptDraft := []
  flags : List Bool := []

def chainSchema : Schema ChainDraft where
  title := "PathDoc"
  fields := [
    listField "translation_edges" (some "translationEdges") (attemptSchema.take {})
      fun attempts draft => { draft with attempts := attempts },
    listField "edge_index_memoized" (some "edgeIndexMemoized") .memoFlag
      fun flags draft => { draft with flags := flags }]

def ChainDraft.finish (draft : ChainDraft) : Except Fault Chain :=
  match PositionSet.ofFlags draft.flags with
  | .ok memoized => .ok ⟨draft.attempts.map (·.finish), memoized⟩
  | .error position => .error (.flagOutOfRange position)

def requestSchema : Schema Request where
  title := "RequestDoc"
  fields := [
    textField "id" none fun text request => { request with id := text },
    textField "seed_language" (some "seedLanguage") fun text request =>
      { request with seedLanguage := text },
    textField "target_language" (some "targetLanguage") fun text request =>
      { request with targetLanguage := text },
    textField "seed_code" (some "seedCode") fun text request => { request with seedCode := text }]

structure ResponseDraft where
  request : Request := {}
  chains : List ChainDraft := []

def responseSchema : Schema ResponseDraft where
  title := "ResponseDoc"
  fields := [
    .require (.of "translation_request" (some "translationRequest") (requestSchema.take {})
      fun request draft => { draft with request := request }),
    listField "paths" none (chainSchema.take {}) fun chains draft => { draft with chains := chains }]

def ResponseDraft.finish (draft : ResponseDraft) : Except Fault Response :=
  (draft.chains.mapM ChainDraft.finish).map fun chains => ⟨draft.request, chains⟩

def batchSchema : Schema (List ResponseDraft) where
  title := "BatchDoc"
  fields := [
    listField "translation_responses" (some "translationResponses") (responseSchema.take {})
      fun responses _ => responses]

/-- How many containers may be open inside each other where values are used. -/
def maxDepth : Nat := 127

/-- The batch of a document, which nothing may follow. -/
def Document.toBatch (document : Document) : Except Fault Batch :=
  match batchSchema.take [] maxDepth document.value with
  | .error fault => .error fault
  | .ok responses =>
    if document.trailing then .error .invalidSyntax
    else (responses.mapM ResponseDraft.finish).map fun responses => ⟨responses⟩

/-- Reads a batch from a document (`decode_batch_response`). -/
def decode (text : String) : Except Fault Batch := (Document.ofText text).toBatch

end AttemptLedger.Json
