import AttemptLedger.Forest.Basic
import AttemptLedger.Proofs.Positions
import AttemptLedger.Proofs.Responses
import Mathlib.Data.List.Forall2

/-!
# Attempts of a batch and their rows

The table of a batch shows each attempt in one row. The place of the row is the number of attempts before
it: those of the responses before its own, those of the chains before its own, and those before it in its
chain. Positions start anew in each chain while rows run on, so whether a row is marked as memoized is read
off the chain and not off the place. Rows of other responses are nothing to a response whose request no
other response answers: its rows, and so its tree, are those of the batch of it alone.
-/

namespace AttemptLedger

/-! ### What a row shows -/

/-- A record of a test with an input, an output if the test ran, and a pass flag that counts only then. -/
structure TestRecord.Reports (record : TestRecord) (input : String) (output : Option String)
    (passed : Bool) : Prop where
  input_eq : record.input = input
  actualOutput_eq : record.actualOutput = output
  notExecuted_iff : record.status = .notExecuted ↔ output = none
  passed_iff : record.status = .passed ↔ output ≠ none ∧ passed = true

/-- Whether records report the tests of a suite, one by one. A fuzzy test is given its standard input, a
unit test its source code. -/
def Suite.Reported : Suite → List TestRecord → Prop
  | .fuzzy tests, records => List.Forall₂
    (fun test record => record.Reports test.stdinInput test.actualOutput test.passed) tests records
  | .unit tests, records => List.Forall₂
    (fun test record => record.Reports test.sourceCode test.actualOutput test.passed) tests records
  | .none, records => records = []

/-- A row that presents the attempt at a position of a chain, explored for a request. -/
structure Row.Presents (row : Row) (request : Request) (chain : Chain) (position : Nat)
    (attempt : Attempt) : Prop where
  requestId_eq : row.requestId = request.id
  seedLanguage_eq : row.seedLanguage = request.seedLanguage
  requestTargetLanguage_eq : row.requestTargetLanguage = request.targetLanguage
  id_eq : row.id = attempt.id
  parentId_eq : row.parentId = attempt.parentId
  inputLanguage_eq : row.inputLanguage = attempt.inputLanguage
  targetLanguage_eq : row.targetLanguage = attempt.targetLanguage
  level_eq : row.level = attempt.level
  status_eq : row.status = attempt.status
  extractedCode_eq : row.extractedCode = attempt.extractedCode
  inferenceOutput_eq : row.inferenceOutput = attempt.inferenceOutput
  tests_reported : attempt.tests.Reported row.tests
  memoized_iff : row.memoized = true ↔ ∃ p ∈ chain.memoized.toList, p.toNat = position
  failedTimeout_iff :
    row.failedTimeout = true ↔ ∃ record ∈ row.tests, record.containsMarker timeoutMarker = true

theorem TestRecord.reports_ofResult (input : String) (output : Option String) (passed : Bool) :
    (ofResult input output passed).Reports input output passed where
  input_eq := rfl
  actualOutput_eq := rfl
  notExecuted_iff := status_ofResult_eq_notExecuted_iff input output passed
  passed_iff := by cases output <;> cases passed <;> simp [ofResult]

theorem Suite.reported_records (suite : Suite) : suite.Reported suite.records := by
  cases suite with
  | fuzzy tests =>
    rw [Reported, records, List.forall₂_map_right_iff, List.forall₂_same]
    exact fun test _ => TestRecord.reports_ofResult _ _ _
  | unit tests =>
    rw [Reported, records, List.forall₂_map_right_iff, List.forall₂_same]
    exact fun test _ => TestRecord.reports_ofResult _ _ _
  | none => rfl

theorem Row.presents_ofAttempt (request : Request) (chain : Chain) (position : Nat) (attempt : Attempt) :
    (ofAttempt request (chain.isMemoized position) attempt).Presents request chain position attempt where
  requestId_eq := rfl
  seedLanguage_eq := rfl
  requestTargetLanguage_eq := rfl
  id_eq := rfl
  parentId_eq := rfl
  inputLanguage_eq := rfl
  targetLanguage_eq := rfl
  level_eq := rfl
  status_eq := rfl
  extractedCode_eq := rfl
  inferenceOutput_eq := rfl
  tests_reported := attempt.tests.reported_records
  memoized_iff := PositionSet.contains_iff
  failedTimeout_iff := List.any_eq_true

/-! ### Places of rows -/

/-- What a list element is mapped to stands behind all that the elements before it are mapped to. -/
theorem getElem?_flatMap_of_getElem? {α β : Type} {as : List α} {f : α → List β} {i k : Nat} {a : α}
    {b : β} (ha : as[i]? = some a) (hb : (f a)[k]? = some b) :
    (as.flatMap f)[((as.take i).flatMap f).length + k]? = some b := by
  induction as generalizing i with
  | nil => cases ha
  | cons first as ih =>
    rw [List.flatMap_cons]
    cases i with
    | zero =>
      rw [List.getElem?_cons_zero, Option.some.injEq] at ha
      subst ha
      rw [List.take_zero, List.flatMap_nil, List.length_nil, Nat.zero_add]
      exact List.getElem?_append_left (List.getElem?_eq_some_iff.1 hb).1 ▸ hb
    | succ i =>
      rw [List.getElem?_cons_succ] at ha
      rw [List.take_succ_cons, List.flatMap_cons, List.length_append, Nat.add_assoc,
        List.getElem?_append_right (Nat.le_add_right _ _), Nat.add_sub_cancel_left]
      exact ih ha

namespace Chain

variable {request : Request} {chain : Chain} {attempts : List Attempt} {attempt : Attempt}
  {position : Nat}

theorem getElem?_rowsFrom (index : Nat) (h : attempts[position]? = some attempt) :
    (chain.rowsFrom request index attempts)[position]?
      = some (.ofAttempt request (chain.isMemoized (index + position)) attempt) := by
  -- The position counts from the first attempt left, the index from the start of the chain.
  induction attempts generalizing index position with
  | nil => cases h
  | cons first attempts ih =>
    cases position with
    | zero =>
      cases h
      rfl
    | succ position =>
      rw [List.getElem?_cons_succ] at h
      rw [rowsFrom, List.getElem?_cons_succ, ih (index + 1) h, Nat.add_right_comm index 1 position]
      rfl

theorem getElem?_rows (request : Request) (h : chain.attempts[position]? = some attempt) :
    (chain.rows request)[position]?
      = some (.ofAttempt request (chain.isMemoized position) attempt) := by
  rw [rows, getElem?_rowsFrom 0 h, Nat.zero_add]

theorem length_rows (request : Request) (chain : Chain) :
    (chain.rows request).length = chain.attempts.length := length_rowsFrom request chain 0 chain.attempts

end Chain

/-- The number of attempts of a batch before a chain of a response: those of the first responses, and
those of the response's first chains. -/
def Batch.attemptsBefore (batch : Batch) (responses : Nat) (response : Response) (chains : Nat) : Nat :=
  ((batch.responses.take responses).flatMap (·.attempts)).length
    + ((response.chains.take chains).flatMap (·.attempts)).length

namespace Table

variable {batch : Batch} {response : Response} {chain : Chain} {attempt : Attempt} {r c position : Nat}

theorem getElem?_rows_ofBatch (hresponse : batch.responses[r]? = some response)
    (hchain : response.chains[c]? = some chain) (hattempt : chain.attempts[position]? = some attempt) :
    (ofBatch batch).rows[batch.attemptsBefore r response c + position]?
      = some (.ofAttempt response.request (chain.isMemoized position) attempt) := by
  have hrow := getElem?_flatMap_of_getElem? (f := Response.rows) hresponse
    (getElem?_flatMap_of_getElem? hchain (Chain.getElem?_rows response.request hattempt))
  simpa only [ofBatch, Batch.attemptsBefore, List.length_flatMap, Chain.length_rows, Response.length_rows,
    Nat.add_assoc] using hrow

theorem rows_ofBatch_singleton (response : Response) : (ofBatch ⟨[response]⟩).rows = response.rows :=
  List.flatMap_singleton _ _

/-- The table of a batch has one row per attempt, each in its place, with what its attempt and its request
say. If no two responses answer one request, the rows of a request are those of its response alone, and so
is its tree or the error in place of it; the requests with rows are those with attempts, in order. -/
theorem attempts_ofBatch (batch : Batch) :
    (ofBatch batch).size = batch.attemptCount
      ∧ (∀ (r c position : Nat) (response : Response) (chain : Chain) (attempt : Attempt),
        batch.responses[r]? = some response → response.chains[c]? = some chain →
        chain.attempts[position]? = some attempt →
        ∃ row, (ofBatch batch).rows[batch.attemptsBefore r response c + position]? = some row
          ∧ row.Presents response.request chain position attempt)
      ∧ (batch.AnswersOnce →
        (∀ response ∈ batch.responses,
          (ofBatch batch).forRequest response.request.id = (ofBatch ⟨[response]⟩).rows
            ∧ (ofBatch batch).requestTree response.request.id = (ofBatch ⟨[response]⟩).tree)
        ∧ (ofBatch batch).requestIds
          = (batch.responses.filter (·.attempts ≠ [])).map (·.request.id)) := by
  refine ⟨size_ofBatch batch, ?_, fun honce => ⟨?_, requestIds_ofBatch honce⟩⟩
  · intro r c position response chain attempt hresponse hchain hattempt
    exact ⟨_, getElem?_rows_ofBatch hresponse hchain hattempt,
      Row.presents_ofAttempt response.request chain position attempt⟩
  · intro response hresponse
    have hrows : (ofBatch batch).forRequest response.request.id = (ofBatch ⟨[response]⟩).rows := by
      rw [forRequest_ofBatch honce hresponse, rows_ofBatch_singleton]
    exact ⟨hrows, congrArg Tree.ofRows hrows⟩

/-- Three responses: behind an empty chain the first has two attempts, of which the second is memoized;
the second has no attempt; that of the third is at a position of its chain that is not memoized there. -/
theorem attempts_ofBatch_three :
    let tested : Attempt :=
      { id := 4, parentId := -1, tests := .fuzzy [⟨"1", "2", some "2", true, ""⟩, ⟨"3", "", none, true, ""⟩] }
    let chain : Chain := ⟨[{ id := 1, parentId := -1 }, { id := 2, parentId := 1, level := 9 }], .ofList [1, 7]⟩
    let last : Response := ⟨{ id := "c", seedLanguage := "Go" }, [⟨[tested], .ofList [2]⟩]⟩
    let batch : Batch :=
      ⟨[⟨{ id := "a", seedLanguage := "Rust" }, [⟨[], .empty⟩, chain]⟩, ⟨{ id := "b" }, [⟨[], .empty⟩]⟩, last]⟩
    (ofBatch batch).size = 3 ∧ batch.AnswersOnce
      ∧ (∃ row, (ofBatch batch).rows[1]? = some row ∧ row.id = 2 ∧ row.requestId = "a"
        ∧ row.memoized = true)
      ∧ (∃ row, (ofBatch batch).rows[2]? = some row ∧ row.requestId = "c"
        ∧ tested.tests.Reported row.tests)
      ∧ (ofBatch batch).forRequest "c" = (ofBatch ⟨[last]⟩).rows
      ∧ (ofBatch batch).requestTree "c" = (ofBatch ⟨[last]⟩).tree
      ∧ (ofBatch batch).requestIds = ["a", "c"] := by
  intro tested chain last batch
  obtain ⟨hsize, hplaces, hapart⟩ := attempts_ofBatch batch
  have honce : batch.AnswersOnce := by
    unfold Batch.AnswersOnce
    decide +kernel
  obtain ⟨second, hsecond, hpresents⟩ := hplaces 0 1 1 _ chain _ rfl rfl rfl
  obtain ⟨third, hthird, hreports⟩ := hplaces 2 0 0 last _ tested rfl rfl rfl
  obtain ⟨hrows, htree⟩ := (hapart honce).1 last (by simp [batch])
  refine ⟨hsize, honce, ⟨second, hsecond, hpresents.id_eq, hpresents.requestId_eq, ?_⟩,
    ⟨third, hthird, hreports.requestId_eq, hreports.tests_reported⟩, hrows, htree, (hapart honce).2⟩
  exact hpresents.memoized_iff.2 ⟨1, by decide +kernel, rfl⟩

end Table

end AttemptLedger
