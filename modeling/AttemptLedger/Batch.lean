import AttemptLedger.Positions
import AttemptLedger.Status
import AttemptLedger.Suite

/-!
# Batches of attempts

A batch answers several requests. For each request the engine lists the chains it explored; a chain
is a list of attempts, and a set of positions tells which of them came out of the engine's cache.
Outgoing requests are batched under an id of their own. In messages and documents an attempt is an
edge, a chain a path, and a submission a batch translation request; the names of the records are
given beside the definitions.
-/

namespace AttemptLedger

/-- A program to translate and the language to reach (`TranslationRequest`). -/
structure Request where
  id : String := ""
  seedLanguage : String := ""
  targetLanguage : String := ""
  seedCode : String := ""
  deriving DecidableEq, Repr, Inhabited

/-- Requests that are sent under one id (`BatchTranslationRequest`). -/
structure Submission where
  id : String := ""
  requests : List Request := []
  deriving DecidableEq, Repr, Inhabited

/-- One attempt, which continues the attempt named as its parent (`TranslationEdge`). -/
structure Attempt where
  id : Int64 := 0
  parentId : Int64 := 0
  inputLanguage : String := ""
  targetLanguage : String := ""
  level : Int64 := 0
  status : Status := .ofText ""
  extractedCode : String := ""
  inferenceOutput : String := ""
  prompt : String := ""
  sourceCode : String := ""
  success : Bool := false
  inferenceTime : Int64 := 0
  executionTime : Int64 := 0
  usedCache : Bool := false
  tests : Suite := .none
  deriving DecidableEq, Repr

/-- One chain of attempts explored for a request (`TranslationPath`). -/
structure Chain where
  attempts : List Attempt := []
  memoized : PositionSet := .empty
  deriving DecidableEq

/-- What was tried for a request (`TranslationResponse`). -/
structure Response where
  request : Request := {}
  chains : List Chain := []
  deriving DecidableEq

/-- The responses of the engine, in order (`BatchResponse`). -/
structure Batch where
  responses : List Response := []
  deriving DecidableEq

def Chain.isMemoized (chain : Chain) (index : Nat) : Bool := chain.memoized.contains index

/-- One cache flag per attempt, and further flags as far as the last position goes (`memo_flags`). -/
def Chain.memoFlags (chain : Chain) : List Bool := chain.memoized.flags chain.attempts.length

def Response.attempts (response : Response) : List Attempt := response.chains.flatMap (·.attempts)

/-- The code of the first attempt that was found, in the order of the chains (`first_translation`). -/
def Response.firstFound (response : Response) : Option String :=
  (response.attempts.find? (·.status.isFound)).map (·.extractedCode)

/-- The number of attempts in all chains (`edge_count`). -/
def Batch.attemptCount (batch : Batch) : Nat :=
  (batch.responses.flatMap (·.chains)).foldl (fun count chain => count + chain.attempts.length) 0

/-- The attempt as it is read back: its status from its text, and no suite for an empty one. -/
def Attempt.canonical (attempt : Attempt) : Attempt :=
  { attempt with status := attempt.status.canonical, tests := attempt.tests.canonical }

def Chain.canonical (chain : Chain) : Chain :=
  { chain with attempts := chain.attempts.map (·.canonical) }

def Response.canonical (response : Response) : Response :=
  { response with chains := response.chains.map (·.canonical) }

/-- The batch with canonical responses: what either encoding of the batch is read back as. -/
def Batch.canonical (batch : Batch) : Batch :=
  { batch with responses := batch.responses.map (·.canonical) }

end AttemptLedger
