import AttemptLedger.Batch
import AttemptLedger.Encoding

/-!
# Tables of attempts

A batch flattened into one row per attempt, with the context of its request, in the order of
responses, chains and attempts. Main statement: a table has one row per attempt.
-/

namespace AttemptLedger

def timeoutMarker : String := "CMD_TIMEOUT_KILLED"

/-- The id that stands for the seed program as a parent (`ROOT_PARENT_SENTINEL`). -/
def rootId : Int64 := -1

def isRootParent (parentId : Int64) : Bool := parentId == rootId

/-- An attempt with the context of its request (`EdgeRow`). -/
structure Row where
  seedLanguage : String
  requestTargetLanguage : String
  requestId : String
  inputLanguage : String
  targetLanguage : String
  level : Int64
  id : Int64
  parentId : Int64
  status : Status
  memoized : Bool
  failedTimeout : Bool
  extractedCode : String
  inferenceOutput : String
  tests : List TestRecord
  deriving DecidableEq, Repr

/-- Rows in order (`EdgeTable`). -/
structure Table where
  rows : List Row
  deriving DecidableEq

/-- The row of an attempt (`flatten_edge`). -/
def Row.ofAttempt (request : Request) (memoized : Bool) (attempt : Attempt) : Row where
  seedLanguage := request.seedLanguage
  requestTargetLanguage := request.targetLanguage
  requestId := request.id
  inputLanguage := attempt.inputLanguage
  targetLanguage := attempt.targetLanguage
  level := attempt.level
  id := attempt.id
  parentId := attempt.parentId
  status := attempt.status
  memoized := memoized
  failedTimeout := attempt.tests.records.any (·.containsMarker timeoutMarker)
  extractedCode := attempt.extractedCode
  inferenceOutput := attempt.inferenceOutput
  tests := attempt.tests.records

def Chain.rowsFrom (request : Request) (chain : Chain) : (index : Nat) → List Attempt → List Row
  | _, [] => []
  | index, attempt :: attempts =>
    .ofAttempt request (chain.isMemoized index) attempt :: chain.rowsFrom request (index + 1) attempts

def Chain.rows (request : Request) (chain : Chain) : List Row :=
  chain.rowsFrom request 0 chain.attempts

def Response.rows (response : Response) : List Row :=
  response.chains.flatMap (·.rows response.request)

/-- The values of a list without repetitions, each where it stands first. -/
def firstSeen {α : Type} [DecidableEq α] : List α → List α
  | [] => []
  | a :: as => a :: (firstSeen as).filter (· ≠ a)

namespace Table

/-- The table of a batch (`response_to_rows`). -/
def ofBatch (batch : Batch) : Table := ⟨batch.responses.flatMap (·.rows)⟩

def size (table : Table) : Nat := table.rows.length

def isEmpty (table : Table) : Bool := table.rows.isEmpty

def requestIds (table : Table) : List String := firstSeen (table.rows.map (·.requestId))

def forRequest (table : Table) (requestId : String) : List Row :=
  table.rows.filter (·.requestId == requestId)

def concat (tables : List Table) : Table := ⟨tables.flatMap (·.rows)⟩

/-- Reads a batch from its binary form into a table (`ingest_binary`). -/
def ofBytes (bytes : Bytes) : Except Error Table := (Batch.ofBytes bytes).map ofBatch

/-- Reads a batch from a document into a table (`ingest_json`). -/
def ofText (text : String) : Except Error Table := (Batch.ofText text).map ofBatch

end Table

theorem Chain.length_rowsFrom (request : Request) (chain : Chain) (index : Nat)
    (attempts : List Attempt) : (chain.rowsFrom request index attempts).length = attempts.length := by
  induction attempts generalizing index with
  | nil => rfl
  | cons attempt attempts ih => simp [rowsFrom, ih]

theorem Response.length_rows (response : Response) :
    response.rows.length = response.attempts.length := by
  simp only [rows, attempts, Chain.rows, List.length_flatMap, Chain.length_rowsFrom]

theorem Batch.attemptCount_eq_length (batch : Batch) :
    batch.attemptCount = (batch.responses.flatMap (·.attempts)).length := by
  have hFold : ∀ (chains : List Chain) (count : Nat),
      chains.foldl (fun count chain => count + chain.attempts.length) count
        = count + (chains.flatMap (·.attempts)).length := by
    intro chains
    induction chains with
    | nil => exact fun _ => rfl
    | cons chain chains ih =>
      intro count
      rw [List.foldl_cons, ih, List.flatMap_cons, List.length_append, Nat.add_assoc]
  rw [attemptCount, hFold, Nat.zero_add, List.flatMap_assoc]
  rfl

/-- Every attempt has its row. -/
theorem Table.size_ofBatch (batch : Batch) : (Table.ofBatch batch).size = batch.attemptCount := by
  rw [Batch.attemptCount_eq_length]
  simp only [size, ofBatch, List.length_flatMap, Response.length_rows]

end AttemptLedger
