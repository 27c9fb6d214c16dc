import AttemptLedger.Proofs.Canonical
import AttemptLedger.Proofs.Json.Reading
import AttemptLedger.Proofs.Json.Written
import AttemptLedger.Proofs.Positions

/-!
# The document of a batch is read back as its canonical form

One lemma for each of the seven records, innermost first: its members are taken in by its fields. The
containers of a batch stand at most nine deep, far less than may be open.
-/

namespace AttemptLedger.Json

/-! ### The seven records -/

theorem take_ofFuzzyTest (room : Nat) (test : FuzzyTest) :
    fuzzyTestSchema.take {} (room + 1) (ofFuzzyTest test) = .ok test := by
  apply take_of_writes
  · simp [fuzzyTestSchema, Field.Apart, textField, flagField, Field.of]
  · simp only [fuzzyTestSchema, List.append_assoc]
    apply Writes.text
    apply Writes.text
    apply Writes.optional rfl
    apply Writes.flag
    apply Writes.text
    exact .nil

theorem take_ofUnitTest (room : Nat) (test : UnitTest) :
    unitTestSchema.take {} (room + 1) (ofUnitTest test) = .ok test := by
  apply take_of_writes
  · simp [unitTestSchema, Field.Apart, textField, flagField, Field.of]
  · simp only [unitTestSchema, List.append_assoc]
    apply Writes.text
    apply Writes.optional rfl
    apply Writes.flag
    apply Writes.text
    exact .nil

theorem take_ofRequest (room : Nat) (request : Request) :
    requestSchema.take {} (room + 1) (ofRequest request) = .ok request := by
  apply take_of_writes
  · simp [requestSchema, Field.Apart, textField, Field.of]
  · simp only [requestSchema, List.append_assoc]
    apply Writes.text
    apply Writes.text
    apply Writes.text
    apply Writes.text
    exact .nil

def AttemptDraft.ofAttempt (attempt : Attempt) : AttemptDraft where
  fuzzyTests := attempt.tests.fuzzyTests
  unitTests := attempt.tests.unitTests
  attempt := { attempt with status := attempt.status.canonical, tests := .none }

theorem take_ofAttempt (room : Nat) (attempt : Attempt) :
    attemptSchema.take {} (room + 3) (ofAttempt attempt) = .ok (.ofAttempt attempt) := by
  have hfuzzy : ∀ test ∈ attempt.tests.fuzzyTests,
      fuzzyTestSchema.take {} (room + 1) (ofFuzzyTest test) = .ok (id test) :=
    fun test _ => take_ofFuzzyTest room test
  have hunit : ∀ test ∈ attempt.tests.unitTests,
      unitTestSchema.take {} (room + 1) (ofUnitTest test) = .ok (id test) :=
    fun test _ => take_ofUnitTest room test
  apply take_of_writes
  · simp [attemptSchema, Field.Apart, textField, intField, flagField, listField, Field.of,
      Field.require]
  · simp only [attemptSchema, List.append_assoc]
    apply Writes.require (take_ofInt (room + 2) attempt.id)
    apply Writes.require (take_ofInt (room + 2) attempt.parentId)
    apply Writes.text
    apply Writes.text
    -- A default is compared with the draft so far, which is computed here and before later defaults.
    dsimp only [AttemptDraft.update]
    apply Writes.intMember rfl
    apply Writes.text
    apply Writes.text
    apply Writes.text
    dsimp only [AttemptDraft.update]
    apply Writes.listMember hfuzzy rfl
    apply Writes.listMember hunit rfl
    rw [List.map_id, List.map_id]
    dsimp only
    apply Writes.textMember rfl
    apply Writes.textMember rfl
    dsimp only [AttemptDraft.update]
    apply Writes.flagMember rfl
    apply Writes.intMember rfl
    dsimp only [AttemptDraft.update]
    apply Writes.intMember rfl
    apply Writes.flagMember rfl
    exact .nil

def ChainDraft.ofChain (chain : Chain) : ChainDraft where
  attempts := chain.attempts.map AttemptDraft.ofAttempt
  flags := chain.memoFlags

theorem take_ofChain (room : Nat) (chain : Chain) :
    chainSchema.take {} (room + 5) (ofChain chain) = .ok (.ofChain chain) := by
  have hattempts : ∀ attempt ∈ chain.attempts,
      attemptSchema.take {} (room + 3) (ofAttempt attempt) = .ok (AttemptDraft.ofAttempt attempt) :=
    fun attempt _ => take_ofAttempt room attempt
  have hflags : ∀ flag ∈ chain.memoFlags, Take.memoFlag (room + 3) (.bool flag) = .ok (id flag) :=
    fun _ _ => rfl
  apply take_of_writes
  · simp [chainSchema, Field.Apart, listField, Field.of]
  · simp only [chainSchema, List.append_assoc]
    apply Writes.list hattempts
    apply Writes.list hflags
    rw [List.map_id]
    exact .nil

theorem ChainDraft.finish_ofChain (chain : Chain) :
    (ChainDraft.ofChain chain).finish = .ok chain.canonical := by
  have hpositions : PositionSet.ofFlags (ofChain chain).flags = .ok chain.memoized :=
    PositionSet.ofFlags_flags chain.memoized chain.attempts.length
  rw [finish, hpositions]
  dsimp only [ofChain]
  rw [List.map_map]
  rfl

def ResponseDraft.ofResponse (response : Response) : ResponseDraft where
  request := response.request
  chains := response.chains.map ChainDraft.ofChain

theorem take_ofResponse (room : Nat) (response : Response) :
    responseSchema.take {} (room + 7) (ofResponse response) = .ok (.ofResponse response) := by
  have hchains : ∀ chain ∈ response.chains,
      chainSchema.take {} (room + 5) (ofChain chain) = .ok (ChainDraft.ofChain chain) :=
    fun chain _ => take_ofChain room chain
  apply take_of_writes
  · simp [responseSchema, Field.Apart, listField, Field.of, Field.require]
  · simp only [responseSchema, List.append_assoc]
    apply Writes.require (take_ofRequest (room + 5) response.request)
    apply Writes.list hchains
    exact .nil

theorem ResponseDraft.finish_ofResponse (response : Response) :
    (ResponseDraft.ofResponse response).finish = .ok response.canonical := by
  have hchains : (response.chains.map ChainDraft.ofChain).mapM ChainDraft.finish
      = .ok (response.chains.map Chain.canonical) := by
    rw [List.mapM_map]
    exact mapM_eq_ok fun chain _ => ChainDraft.finish_ofChain chain
  rw [finish, ofResponse, hchains]
  rfl

theorem take_ofBatch (room : Nat) (batch : Batch) :
    batchSchema.take [] (room + 9) (ofBatch batch)
      = .ok (batch.responses.map ResponseDraft.ofResponse) := by
  have hresponses : ∀ response ∈ batch.responses,
      responseSchema.take {} (room + 7) (ofResponse response)
        = .ok (ResponseDraft.ofResponse response) :=
    fun response _ => take_ofResponse room response
  apply take_of_writes
  · simp [batchSchema]
  · simp only [batchSchema]
    apply Writes.list hresponses
    exact .nil

theorem toBatch_ofBatch (batch : Batch) :
    (Document.mk (ofBatch batch) false).toBatch = .ok batch.canonical := by
  have htake : batchSchema.take [] maxDepth (ofBatch batch)
      = .ok (batch.responses.map ResponseDraft.ofResponse) := take_ofBatch 118 batch
  have hresponses : (batch.responses.map ResponseDraft.ofResponse).mapM ResponseDraft.finish
      = .ok (batch.responses.map Response.canonical) := by
    rw [List.mapM_map]
    exact mapM_eq_ok fun response _ => ResponseDraft.finish_ofResponse response
  rw [Document.toBatch, htake]
  show ((batch.responses.map ResponseDraft.ofResponse).mapM ResponseDraft.finish).map _ = _
  rw [hresponses]
  rfl

/-! ### Documents that are written are plain -/

def PlainMembers (members : List Member) : Prop :=
  ∀ member ∈ members, member.1.isSome = true ∧ member.2.Plain

namespace PlainMembers

@[simp]
theorem append_iff {as bs : List Member} :
    PlainMembers (as ++ bs) ↔ PlainMembers as ∧ PlainMembers bs := by
  simp only [PlainMembers, List.forall_mem_append]

@[simp]
theorem nil : PlainMembers [] := by
  intro member hmember
  cases hmember

@[simp]
theorem member_iff {name : String} {value : Value} :
    PlainMembers (member name value) ↔ value.Plain := by
  simp [PlainMembers, member]

@[simp]
theorem optionalMember (name : String) (text : Option String) :
    PlainMembers (optionalMember name text) := by
  cases text with
  | none => exact nil
  | some content => exact member_iff.2 (.text content)

@[simp]
theorem textMember (name text : String) : PlainMembers (textMember name text) := by
  unfold Json.textMember
  split
  · exact nil
  · exact member_iff.2 (.text text)

@[simp]
theorem intMember (name : String) (n : Int64) : PlainMembers (intMember name n) := by
  unfold Json.intMember
  split
  · exact nil
  · exact member_iff.2 (.number n.toInt)

@[simp]
theorem flagMember (name : String) (flag : Bool) : PlainMembers (flagMember name flag) := by
  cases flag with
  | false => exact nil
  | true => exact member_iff.2 (.bool true)

theorem object {members : List Member} (h : PlainMembers members) :
    (Value.object members true).Plain :=
  .object (fun member hmember => (h member hmember).1) fun member hmember => (h member hmember).2

end PlainMembers

@[simp]
theorem plain_ofText (text : String) : (ofText text).Plain := .text text

@[simp]
theorem plain_ofInt (n : Int64) : (ofInt n).Plain := .number n.toInt

@[simp]
theorem plain_bool (flag : Bool) : (Value.bool flag).Plain := .bool flag

theorem plain_ofList {α : Type} {item : α → Value} (h : ∀ a, (item a).Plain) (items : List α) :
    (ofList item items).Plain := by
  refine .array ?_
  intro value hvalue
  obtain ⟨a, _, rfl⟩ := List.mem_map.1 hvalue
  exact h a

theorem plainMembers_listMember {α : Type} {item : α → Value} (h : ∀ a, (item a).Plain)
    (name : String) (items : List α) : PlainMembers (listMember name item items) := by
  unfold listMember
  split
  · exact .nil
  · exact PlainMembers.member_iff.2 (plain_ofList h items)

theorem plain_ofFuzzyTest (test : FuzzyTest) : (ofFuzzyTest test).Plain := by
  apply PlainMembers.object
  simp

theorem plain_ofUnitTest (test : UnitTest) : (ofUnitTest test).Plain := by
  apply PlainMembers.object
  simp

theorem plain_ofAttempt (attempt : Attempt) : (ofAttempt attempt).Plain := by
  apply PlainMembers.object
  simp [plainMembers_listMember plain_ofFuzzyTest, plainMembers_listMember plain_ofUnitTest]

theorem plain_ofChain (chain : Chain) : (ofChain chain).Plain := by
  apply PlainMembers.object
  simp [plain_ofList plain_ofAttempt, plain_ofList plain_bool]

theorem plain_ofRequest (request : Request) : (ofRequest request).Plain := by
  apply PlainMembers.object
  simp

theorem plain_ofResponse (response : Response) : (ofResponse response).Plain := by
  apply PlainMembers.object
  simp [plain_ofRequest, plain_ofList plain_ofChain]

theorem plain_ofBatch (batch : Batch) : (ofBatch batch).Plain := by
  apply PlainMembers.object
  simp [plain_ofList plain_ofResponse]

/-! ### The round trip -/

theorem ofBatch_canonical (batch : Batch) : ofBatch batch.canonical = ofBatch batch := by
  have hattempt : ∀ attempt : Attempt, ofAttempt attempt.canonical = ofAttempt attempt := by
    intro attempt
    simp only [ofAttempt, Attempt.canonical, Status.text_canonical, Suite.fuzzyTests_canonical,
      Suite.unitTests_canonical]
  have hchain : ∀ chain : Chain, ofChain chain.canonical = ofChain chain := by
    intro chain
    simp only [ofChain, ofList, Chain.canonical, Chain.memoFlags, List.map_map, List.length_map,
      Function.comp_def, hattempt]
  have hresponse : ∀ response : Response, ofResponse response.canonical = ofResponse response := by
    intro response
    simp only [ofResponse, ofList, Response.canonical, List.map_map, Function.comp_def, hchain]
  simp only [ofBatch, ofList, Batch.canonical, List.map_map, Function.comp_def, hresponse]

theorem decode_printed (batch : Batch) : decode (encode batch) = .ok batch.canonical := by
  rw [decode, encode, ofText_print (plain_ofBatch batch), toBatch_ofBatch]

theorem encode_canonical (batch : Batch) : encode batch.canonical = encode batch := by
  rw [encode, encode, ofBatch_canonical]

/-- The text of a batch is read back as its canonical form, which has the same text. -/
theorem decode_encode_text (batch : Batch) :
    decode (encode batch) = .ok batch.canonical ∧ encode batch.canonical = encode batch :=
  ⟨decode_printed batch, encode_canonical batch⟩

end AttemptLedger.Json
