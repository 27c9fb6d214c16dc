import AttemptLedger.Batch
import AttemptLedger.Wire.Message

/-!
# Reading batches from their binary form

The schemas of the seven messages, innermost first. A field that stands twice keeps its last value, a
list collects all of its records, and what a message requires is checked at its end. The flags of a
chain come packed or one by one and are one list in either case.
-/

namespace AttemptLedger.Wire

def fuzzyTestSchema : Schema FuzzyTest
  | 1 => some (.text "fuzzy test string" fun text test => { test with stdinInput := text })
  | 2 => some (.text "fuzzy test string" fun text test => { test with expectedOutput := text })
  | 3 => some (.text "fuzzy test string" fun text test => { test with actualOutput := some text })
  | 4 => some (.flag "passed" fun passed test => { test with passed := passed })
  | 5 => some (.text "fuzzy test string" fun text test => { test with executedCode := text })
  | _ => none

def readFuzzyTest (bytes : Bytes) : Except Fault FuzzyTest := fuzzyTestSchema.read {} bytes

def unitTestSchema : Schema UnitTest
  | 1 => some (.text "unit test string" fun text test => { test with sourceCode := text })
  | 2 => some (.text "unit test string" fun text test => { test with actualOutput := some text })
  | 3 => some (.flag "passed" fun passed test => { test with passed := passed })
  | 4 => some (.text "unit test string" fun text test => { test with executedCode := text })
  | _ => none

def readUnitTest (bytes : Bytes) : Except Fault UnitTest := unitTestSchema.read {} bytes

/-- What has been read of an attempt: its ids once they were met, its tests by kind, and the rest. -/
structure AttemptDraft where
  id : Option Int64 := none
  parentId : Option Int64 := none
  fuzzyTests : List FuzzyTest := []
  unitTests : List UnitTest := []
  attempt : Attempt := {}

def AttemptDraft.update (change : Attempt → Attempt) (draft : AttemptDraft) : AttemptDraft :=
  { draft with attempt := change draft.attempt }

def attemptInt (put : Int64 → Attempt → Attempt) : Field AttemptDraft :=
  .int "translation edge scalar" fun value => .update (put value)

def attemptFlag (put : Bool → Attempt → Attempt) : Field AttemptDraft :=
  .flag "translation edge scalar" fun value => .update (put value)

def attemptText (put : String → Attempt → Attempt) : Field AttemptDraft :=
  .text "translation edge string" fun value => .update (put value)

def attemptSchema : Schema AttemptDraft
  | 1 => some (.int "translation edge scalar" fun id draft => { draft with id := some id })
  | 2 => some (.int "translation edge scalar" fun id draft => { draft with parentId := some id })
  | 3 => some (attemptText fun text attempt => { attempt with inputLanguage := text })
  | 4 => some (attemptText fun text attempt => { attempt with targetLanguage := text })
  | 5 => some (attemptInt fun level attempt => { attempt with level := level })
  | 6 => some (attemptText fun text attempt => { attempt with status := .ofText text })
  | 7 => some (attemptText fun text attempt => { attempt with extractedCode := text })
  | 8 => some (attemptText fun text attempt => { attempt with inferenceOutput := text })
  | 9 => some (.nested "fuzzy_tests" readFuzzyTest fun test draft =>
      { draft with fuzzyTests := draft.fuzzyTests ++ [test] })
  | 10 => some (.nested "unit_tests" readUnitTest fun test draft =>
      { draft with unitTests := draft.unitTests ++ [test] })
  | 11 => some (attemptText fun text attempt => { attempt with prompt := text })
  | 12 => some (attemptText fun text attempt => { attempt with sourceCode := text })
  | 13 => some (attemptFlag fun flag attempt => { attempt with success := flag })
  | 14 => some (attemptInt fun time attempt => { attempt with inferenceTime := time })
  | 15 => some (attemptInt fun time attempt => { attempt with executionTime := time })
  | 16 => some (attemptFlag fun flag attempt => { attempt with usedCache := flag })
  | _ => none

/-- The attempt of a draft; both ids must have been met. -/
def AttemptDraft.finish (draft : AttemptDraft) : Except Fault Attempt :=
  match draft.id, draft.parentId with
  | none, _ => .error .missingId
  | some id, none => .error (.missingParentId id)
  | some id, some parentId =>
    .ok { draft.attempt with
      id := id, parentId := parentId, tests := .ofTests draft.fuzzyTests draft.unitTests }

/-- Reads an attempt (`decode_edge`). -/
def readAttempt (bytes : Bytes) : Except Fault Attempt :=
  (attemptSchema.read {} bytes).bind AttemptDraft.finish

structure ChainDraft where
  attempts : List Attempt := []
  flags : List Bool := []

def chainAttempt : Field ChainDraft :=
  { Field.nested "" readAttempt fun attempt (draft : ChainDraft) =>
      { draft with attempts := draft.attempts ++ [attempt] } with
    refusal := fun found => if found = .delimited then none else some (.wrongChainType 1 found) }

/-- The field of a chain that holds flags, a single one or several packed together. -/
def chainFlags : Field ChainDraft where
  refusal found :=
    if found = .delimited ∨ found = .varint then none else some (.wrongChainType 2 found)
  absorb
    | .number value, draft => .ok { draft with flags := draft.flags ++ [value != 0] }
    | .bytes body, draft =>
      (readFlags (.ofBytes body)).map fun flags => { draft with flags := draft.flags ++ flags }
    | .skipped, draft => .ok draft

def chainSchema : Schema ChainDraft
  | 1 => some chainAttempt
  | 2 => some chainFlags
  | _ => none

def ChainDraft.finish (draft : ChainDraft) : Except Fault Chain :=
  match PositionSet.ofFlags draft.flags with
  | .ok memoized => .ok ⟨draft.attempts, memoized⟩
  | .error position => .error (.flagOutOfRange position)

/-- Reads a chain (`decode_path`). -/
def readChain (bytes : Bytes) : Except Fault Chain :=
  (chainSchema.read {} bytes).bind ChainDraft.finish

def requestText (put : String → Request → Request) : Field Request :=
  .text "translation_request string" put

def requestSchema : Schema Request
  | 1 => some (requestText fun text request => { request with id := text })
  | 2 => some (requestText fun text request => { request with seedLanguage := text })
  | 3 => some (requestText fun text request => { request with targetLanguage := text })
  | 4 => some (requestText fun text request => { request with seedCode := text })
  | _ => none

def readRequest (bytes : Bytes) : Except Fault Request := requestSchema.read {} bytes

structure ResponseDraft where
  request : Option Request := none
  chains : List Chain := []

def responseSchema : Schema ResponseDraft
  | 1 => some (.nested "translation_request" readRequest fun request draft =>
      { draft with request := some request })
  | 2 => some (.nested "paths" readChain fun chain draft =>
      { draft with chains := draft.chains ++ [chain] })
  | _ => none

def ResponseDraft.finish (draft : ResponseDraft) : Except Fault Response :=
  match draft.request with
  | some request => .ok ⟨request, draft.chains⟩
  | none => .error .missingRequest

def readResponse (bytes : Bytes) : Except Fault Response :=
  (responseSchema.read {} bytes).bind ResponseDraft.finish

def batchSchema : Schema Batch
  | 1 => some (.nested "translation_responses" readResponse fun response batch =>
      { batch with responses := batch.responses ++ [response] })
  | _ => none

/-- Reads a batch from its binary form (`decode_batch_response`). -/
def decode (bytes : Bytes) : Except Fault Batch := batchSchema.read {} bytes

end AttemptLedger.Wire
