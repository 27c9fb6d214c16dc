import AttemptLedger.Json.Encode
import AttemptLedger.Proofs.Json.Rendering
import AttemptLedger.Proofs.Positions

/-!
# Printed documents are renderings

The document that is printed for a batch is one of the documents that stand for the batch: its members
are those of its fields in their order, each under its name, and what is left out holds a default.
-/

namespace AttemptLedger.Json

/-! ### Members -/

namespace Listed

variable {entries : List Entry} {members : List Member} {name : String}

theorem member {entry : Entry} {value : Value} (hvalue : entry.renders value)
    (h : Listed entries members) :
    Listed (entry :: entries) (Json.member entry.name value ++ members) := .written hvalue h

theorem text {text : String} (h : Listed entries members) :
    Listed (.text name text :: entries) (Json.member name (ofText text) ++ members) :=
  .written (.inl rfl) h

theorem flag {flag : Bool} (h : Listed entries members) :
    Listed (.flag name flag :: entries) (Json.member name (.bool flag) ++ members) :=
  .written (.inl rfl) h

theorem optionalMember {text : Option String} (h : Listed entries members) :
    Listed (.optionalText name text :: entries) (Json.optionalMember name text ++ members) := by
  cases text with
  | none => exact .omitted rfl h
  | some content => exact .written (.inl ⟨content, rfl, rfl⟩) h

theorem textMember {text : String} (h : Listed entries members) :
    Listed (.text name text :: entries) (Json.textMember name text ++ members) := by
  unfold Json.textMember
  split
  · next hempty => exact .omitted hempty h
  · exact .text h

theorem intMember {n : Int64} (h : Listed entries members) :
    Listed (.int name n :: entries) (Json.intMember name n ++ members) := by
  unfold Json.intMember
  split
  · next hzero => exact .omitted hzero h
  · exact .written (.inl .literal) h

theorem flagMember {flag : Bool} (h : Listed entries members) :
    Listed (.flag name flag :: entries) (Json.flagMember name flag ++ members) := by
  cases flag with
  | false => exact .omitted rfl h
  | true => exact .flag h

section

variable {α : Type} {renders : α → Value → Prop} {item : α → Value} {items : List α}

theorem list (hitems : ∀ a ∈ items, renders a (item a)) (h : Listed entries members) :
    Listed (.list name renders items :: entries)
      (Json.member name (ofList item items) ++ members) :=
  .written (.inl ⟨List.forall₂_map_right_iff.2 (List.forall₂_same.2 hitems)⟩) h

theorem listMember (hitems : ∀ a ∈ items, renders a (item a)) (h : Listed entries members) :
    Listed (.list name renders items :: entries) (Json.listMember name item items ++ members) := by
  cases items with
  | nil => exact .omitted rfl h
  | cons a items => exact .list hitems h

end

/-- Members for the fields of a record in their order, and no others, are a rendering of the record. -/
theorem renders (h : Listed entries (members ++ [])) : RendersRecord entries (.object members true) := by
  rw [List.append_nil] at h
  have hself : List.Forall₂ Respelled members members := by
    refine List.forall₂_same.2 fun member hmember => ?_
    obtain ⟨entry, _, hname, _⟩ := exists_entry h hmember
    exact ⟨entry.name, hname, ⟨entry.name, List.mem_cons_self .., hname⟩, rfl⟩
  refine .intro h hself (List.forall_mem_nil _) ?_
  rw [List.append_nil]

end Listed

/-! ### The seven records -/

theorem renders_ofFuzzyTest (test : FuzzyTest) : RendersFuzzyTest test (ofFuzzyTest test) := by
  apply Listed.renders
  simp only [fuzzyTestEntries, List.append_assoc]
  exact .text (.text (.optionalMember (.flag (.text .nil))))

theorem renders_ofUnitTest (test : UnitTest) : RendersUnitTest test (ofUnitTest test) := by
  apply Listed.renders
  simp only [unitTestEntries, List.append_assoc]
  exact .text (.optionalMember (.flag (.text .nil)))

/-- The members of an attempt behind its ids. -/
def attemptDetails (attempt : Attempt) : List Member :=
  member "input_language" (ofText attempt.inputLanguage)
    ++ member "target_language" (ofText attempt.targetLanguage)
    ++ intMember "level" attempt.level
    ++ member "status" (ofText attempt.status.text)
    ++ member "extracted_source_code" (ofText attempt.extractedCode)
    ++ member "inference_output" (ofText attempt.inferenceOutput)
    ++ listMember "fuzzy_tests" ofFuzzyTest attempt.tests.fuzzyTests
    ++ listMember "unit_tests" ofUnitTest attempt.tests.unitTests
    ++ textMember "prompt" attempt.prompt
    ++ textMember "source_code" attempt.sourceCode
    ++ flagMember "success" attempt.success
    ++ intMember "wall_time_inference" attempt.inferenceTime
    ++ intMember "wall_time_test_execution" attempt.executionTime
    ++ flagMember "used_inference_cache" attempt.usedCache

theorem ofAttempt_eq (attempt : Attempt) :
    ofAttempt attempt
      = .object (member "edge_id" (ofInt attempt.id) ++ member "parent_edge_id" (ofInt attempt.parentId)
        ++ attemptDetails attempt) true := by
  simp only [ofAttempt, attemptDetails, List.append_assoc]

theorem listed_attemptDetails (attempt : Attempt) :
    Listed ((attemptEntries attempt).drop 2) (attemptDetails attempt ++ []) := by
  simp only [attemptDetails, attemptEntries, List.append_assoc, List.drop_succ_cons, List.drop_zero]
  apply Listed.text
  apply Listed.text
  apply Listed.intMember
  apply Listed.text
  apply Listed.text
  apply Listed.text
  apply Listed.listMember fun test _ => renders_ofFuzzyTest test
  apply Listed.listMember fun test _ => renders_ofUnitTest test
  apply Listed.textMember
  apply Listed.textMember
  apply Listed.flagMember
  apply Listed.intMember
  apply Listed.intMember
  apply Listed.flagMember
  exact .nil

theorem renders_ofAttempt (attempt : Attempt) : RendersAttempt attempt (ofAttempt attempt) := by
  have hid : ∀ n : Int64, RendersInt n (ofInt n) := fun _ => .literal
  rw [ofAttempt_eq]
  apply Listed.renders
  rw [List.append_assoc, List.append_assoc]
  exact .written (hid _) (.written (hid _) (listed_attemptDetails attempt))

theorem setAt_memoFlags (chain : Chain) : SetAt chain.memoized chain.memoFlags := by
  intro index
  have hset := @PositionSet.mem_setIndices_flags chain.memoized chain.attempts.length index
  rw [PositionSet.mem_setIndices, Nat.sub_zero] at hset
  rw [← PositionSet.contains_iff, ← hset, Chain.memoFlags]
  exact (and_iff_right (Nat.zero_le index)).symm

theorem listed_memoFlags (chain : Chain) :
    Listed ((chainEntries chain).drop 1) (member "edge_index_memoized" (ofList .bool chain.memoFlags)) := by
  refine .written (.inl ⟨chain.memoFlags, setAt_memoFlags chain, ⟨?_⟩⟩) .nil
  exact List.forall₂_map_right_iff.2 (List.forall₂_same.2 fun _ _ => .flag)

theorem renders_ofChain (chain : Chain) : RendersChain chain (ofChain chain) := by
  apply Listed.renders
  simp only [chainEntries, List.append_assoc]
  apply Listed.list fun attempt _ => renders_ofAttempt attempt
  exact listed_memoFlags chain

theorem renders_ofRequest (request : Request) : RendersRequest request (ofRequest request) := by
  apply Listed.renders
  simp only [requestEntries, List.append_assoc]
  exact .text (.text (.text (.text .nil)))

theorem renders_ofResponse (response : Response) : RendersResponse response (ofResponse response) := by
  apply Listed.renders
  simp only [responseEntries, List.append_assoc]
  apply Listed.member (renders_ofRequest response.request)
  exact .list (fun chain _ => renders_ofChain chain) .nil

theorem renders_ofBatch (batch : Batch) : RendersBatch batch (ofBatch batch) := by
  apply Listed.renders
  exact .list (fun response _ => renders_ofResponse response) .nil

end AttemptLedger.Json
