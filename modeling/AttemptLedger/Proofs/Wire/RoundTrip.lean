import AttemptLedger.Proofs.Canonical
import AttemptLedger.Proofs.Positions
import AttemptLedger.Proofs.Wire.Written
import AttemptLedger.Wire.Decode

/-!
# The binary form of a batch is read back as its canonical form

One lemma for each of the seven messages, innermost first: its fields are read back in the order in
which they are written. The bytes of a batch have a length that fits a machine word, as every byte
string in memory has; otherwise any batch is meant.
-/

namespace AttemptLedger.Wire

def AttemptDraft.fuzzySlot : Slot AttemptDraft FuzzyTest where
  get := AttemptDraft.fuzzyTests
  set tests draft := { draft with fuzzyTests := tests }

def AttemptDraft.unitSlot : Slot AttemptDraft UnitTest where
  get := AttemptDraft.unitTests
  set tests draft := { draft with unitTests := tests }

def ChainDraft.attemptSlot : Slot ChainDraft Attempt where
  get := ChainDraft.attempts
  set attempts draft := { draft with attempts := attempts }

def ResponseDraft.chainSlot : Slot ResponseDraft Chain where
  get := ResponseDraft.chains
  set chains draft := { draft with chains := chains }

def responseSlot : Slot Batch Response where
  get := Batch.responses
  set responses batch := { batch with responses := responses }

theorem readFuzzyTest_bytes {test : FuzzyTest} (h : (fuzzyTestBytes test).length < 2 ^ 64) :
    readFuzzyTest (fuzzyTestBytes test) = .ok test := by
  have h1 : Carries fuzzyTestSchema (textField 1 test.stdinInput) {} _ :=
    carries_textField 1 test.stdinInput (knows rfl) rfl
  have h2 := h1.append
    (carries_textField 2 test.expectedOutput (knows rfl) rfl)
  have h3 := h2.append (carries_optionalText 3 (fun text test => { test with actualOutput := text })
    test.actualOutput (knows rfl) rfl)
  have h4 := h3.append (carries_setFlag 4 test.passed (knows rfl) rfl)
  have h5 := h4.append (carries_textField 5 test.executedCode (knows rfl) rfl)
  exact h5 h

theorem readUnitTest_bytes {test : UnitTest} (h : (unitTestBytes test).length < 2 ^ 64) :
    readUnitTest (unitTestBytes test) = .ok test := by
  have h1 : Carries unitTestSchema (textField 1 test.sourceCode) {} _ :=
    carries_textField 1 test.sourceCode (knows rfl) rfl
  have h2 := h1.append (carries_optionalText 2 (fun text test => { test with actualOutput := text })
    test.actualOutput (knows rfl) rfl)
  have h3 := h2.append (carries_setFlag 3 test.passed (knows rfl) rfl)
  have h4 := h3.append (carries_textField 4 test.executedCode (knows rfl) rfl)
  exact h4 h

theorem readRequest_bytes {request : Request} (h : (requestBytes request).length < 2 ^ 64) :
    readRequest (requestBytes request) = .ok request := by
  have h1 : Carries requestSchema (textField 1 request.id) {} _ :=
    carries_textField 1 request.id (knows rfl) rfl
  have h2 := h1.append
    (carries_textField 2 request.seedLanguage (knows rfl) rfl)
  have h3 := h2.append
    (carries_textField 3 request.targetLanguage (knows rfl) rfl)
  have h4 := h3.append (carries_textField 4 request.seedCode (knows rfl) rfl)
  exact h4 h

def AttemptDraft.ofAttempt (attempt : Attempt) : AttemptDraft where
  id := some attempt.id
  parentId := some attempt.parentId
  fuzzyTests := attempt.tests.fuzzyTests
  unitTests := attempt.tests.unitTests
  attempt := { attempt with
    id := 0, parentId := 0, status := attempt.status.canonical, tests := .none }

/-- The fields of an attempt behind its ids. -/
def attemptDetails (attempt : Attempt) : Bytes :=
  textField 3 attempt.inputLanguage ++ textField 4 attempt.targetLanguage
    ++ optionalInt 5 attempt.level ++ textField 6 attempt.status.text
    ++ textField 7 attempt.extractedCode ++ textField 8 attempt.inferenceOutput
    ++ attempt.tests.fuzzyTests.flatMap (fun test => delimited 9 (fuzzyTestBytes test))
    ++ attempt.tests.unitTests.flatMap (fun test => delimited 10 (unitTestBytes test))
    ++ textField 11 attempt.prompt ++ textField 12 attempt.sourceCode
    ++ setFlag 13 attempt.success ++ optionalInt 14 attempt.inferenceTime
    ++ optionalInt 15 attempt.executionTime ++ setFlag 16 attempt.usedCache

theorem attemptBytes_eq (attempt : Attempt) :
    attemptBytes attempt
      = requiredInt 1 attempt.id ++ requiredInt 2 attempt.parentId ++ attemptDetails attempt := by
  unfold attemptBytes attemptDetails
  simp only [List.append_assoc]

theorem carries_attemptDetails (attempt : Attempt) (id parentId : Option Int64) :
    Carries attemptSchema (attemptDetails attempt) { id := id, parentId := parentId }
      { AttemptDraft.ofAttempt attempt with id := id, parentId := parentId } := by
  have h3 : Carries attemptSchema (textField 3 attempt.inputLanguage)
      { id := id, parentId := parentId } _ :=
    carries_textField 3 attempt.inputLanguage (knows rfl) rfl
  have h4 := h3.append (carries_textField 4 attempt.targetLanguage (knows rfl) rfl)
  have h5 := h4.append (carries_optionalInt 5 attempt.level (knows rfl) rfl)
  have h6 := h5.append (carries_textField 6 attempt.status.text (knows rfl) rfl)
  have h7 := h6.append (carries_textField 7 attempt.extractedCode (knows rfl) rfl)
  have h8 := h7.append (carries_textField 8 attempt.inferenceOutput (knows rfl) rfl)
  have h9 := h8.append (carries_repeated 9 AttemptDraft.fuzzySlot (fun test => test)
    attempt.tests.fuzzyTests (knows rfl) rfl (fun _ _ => rfl) fun _ _ => readFuzzyTest_bytes)
  rw [List.map_id'] at h9
  have h10 := h9.append (carries_repeated 10 AttemptDraft.unitSlot (fun test => test)
    attempt.tests.unitTests (knows rfl) rfl (fun _ _ => rfl) fun _ _ => readUnitTest_bytes)
  rw [List.map_id'] at h10
  have h11 := h10.append (carries_textField 11 attempt.prompt (knows rfl) rfl)
  have h12 := h11.append (carries_textField 12 attempt.sourceCode (knows rfl) rfl)
  have h13 := h12.append (carries_setFlag 13 attempt.success (knows rfl) rfl)
  have h14 := h13.append
    (carries_optionalInt 14 attempt.inferenceTime (knows rfl) rfl)
  have h15 := h14.append
    (carries_optionalInt 15 attempt.executionTime (knows rfl) rfl)
  have h16 := h15.append (carries_setFlag 16 attempt.usedCache (knows rfl) rfl)
  exact h16

theorem carries_attempt (attempt : Attempt) :
    Carries attemptSchema (attemptBytes attempt) {} (.ofAttempt attempt) := by
  have hid : Carries attemptSchema (requiredInt 1 attempt.id) {} _ :=
    carries_requiredInt 1 attempt.id (knows rfl)
  have hids := hid.append (carries_requiredInt 2 attempt.parentId (knows rfl))
  rw [attemptBytes_eq]
  exact hids.append (carries_attemptDetails attempt (some attempt.id) (some attempt.parentId))

theorem readAttempt_bytes {attempt : Attempt} (h : (attemptBytes attempt).length < 2 ^ 64) :
    readAttempt (attemptBytes attempt) = .ok attempt.canonical := by
  rw [readAttempt, carries_attempt attempt h]
  rfl

theorem packedFlags_flagBytes (flags : List Bool) : PackedFlags (flagBytes flags) flags := by
  induction flags with
  | nil => exact .nil
  | cons flag flags ih =>
    obtain ⟨hvarint, hword⟩ := isVarint_varintBytes (n := flag.toNat) (by cases flag <;> decide)
    have hflag : (word (varintBytes flag.toNat) != 0) = flag := by
      rw [hword]
      cases flag <;> rfl
    have h := PackedFlags.cons hvarint ih
    rwa [hflag] at h

theorem carries_memoized (chain : Chain) (draft : ChainDraft) (hflags : draft.flags = []) :
    ∃ flags, PositionSet.ofFlags flags = .ok chain.memoized
      ∧ Carries chainSchema
        (if chain.memoized = .empty then [] else delimited 2 (flagBytes chain.memoFlags)) draft
        { draft with flags := flags } := by
  by_cases hempty : chain.memoized = .empty
  · refine ⟨[], ?_, ?_⟩
    · rw [hempty, PositionSet.ofFlags_nil]
    · rw [if_pos hempty, ← hflags]
      exact .nil
  · refine ⟨chain.memoFlags, PositionSet.ofFlags_flags chain.memoized chain.attempts.length, ?_⟩
    rw [if_neg hempty]
    apply carries_delimited 2 (knows rfl) rfl
    intro _
    have hread := readFlags_eq_ok_iff.2 (packedFlags_flagBytes chain.memoFlags)
    show (readFlags (.ofBytes (flagBytes chain.memoFlags))).map _ = _
    rw [hread, Except.map, hflags]
    rfl

theorem readChain_bytes {chain : Chain} (h : (chainBytes chain).length < 2 ^ 64) :
    readChain (chainBytes chain) = .ok chain.canonical := by
  have hattempts : Carries chainSchema
      (chain.attempts.flatMap fun attempt => delimited 1 (attemptBytes attempt)) {}
      { attempts := chain.attempts.map Attempt.canonical } :=
    carries_repeated 1 ChainDraft.attemptSlot Attempt.canonical chain.attempts (knows rfl) rfl
      (fun _ _ => rfl) fun _ _ => readAttempt_bytes
  obtain ⟨flags, hflags, hmemoized⟩ := carries_memoized chain
    { attempts := chain.attempts.map Attempt.canonical } rfl
  rw [readChain, chainBytes, hattempts.append hmemoized h]
  show ChainDraft.finish _ = _
  rw [ChainDraft.finish, hflags]
  rfl

theorem readResponse_bytes {response : Response} (h : (responseBytes response).length < 2 ^ 64) :
    readResponse (responseBytes response) = .ok response.canonical := by
  have hrequest : Carries responseSchema (delimited 1 (requestBytes response.request)) {}
      { request := some response.request } := by
    apply carries_delimited 1 (knows rfl) rfl
    intro hlength
    show (readRequest (requestBytes response.request)).map _ = _
    rw [readRequest_bytes hlength]
    rfl
  have hchains := hrequest.append (carries_repeated 2 ResponseDraft.chainSlot Chain.canonical
    response.chains (knows rfl) rfl (fun _ _ => rfl) fun _ _ => readChain_bytes)
  rw [readResponse, responseBytes, hchains h]
  rfl

theorem decode_bytes {batch : Batch} (h : (encode batch).length < 2 ^ 64) :
    decode (encode batch) = .ok batch.canonical := by
  have hresponses : Carries batchSchema (encode batch) {} batch.canonical :=
    carries_repeated 1 responseSlot Response.canonical batch.responses (knows rfl) rfl
      (fun _ _ => rfl) fun _ _ => readResponse_bytes
  exact hresponses h

theorem encode_canonical (batch : Batch) : encode batch.canonical = encode batch := by
  have hattempt : ∀ attempt : Attempt, attemptBytes attempt.canonical = attemptBytes attempt := by
    intro attempt
    unfold attemptBytes
    simp only [Attempt.canonical, Status.text_canonical, Suite.fuzzyTests_canonical,
      Suite.unitTests_canonical]
  have hchain : ∀ chain : Chain, chainBytes chain.canonical = chainBytes chain := by
    intro chain
    simp only [chainBytes, Chain.canonical, Chain.memoFlags, List.flatMap_map, List.length_map,
      hattempt]
  have hresponse : ∀ response : Response,
      responseBytes response.canonical = responseBytes response := by
    intro response
    simp only [responseBytes, Response.canonical, List.flatMap_map, hchain]
  simp only [encode, Batch.canonical, List.flatMap_map, hresponse]

/-- The round trip of a batch whose bytes have a length that fits a machine word. -/
theorem decode_encode_batch (batch : Batch) (h : (encode batch).length < 2 ^ 64) :
    decode (encode batch) = .ok batch.canonical
      ∧ encode batch.canonical = encode batch
      ∧ (decode (encode batch) = .ok batch ↔ batch.IsCanonical)
      ∧ ∀ other, encode other = encode batch ↔ other.canonical = batch.canonical := by
  refine ⟨decode_bytes h, encode_canonical batch, ?_, ?_⟩
  · rw [decode_bytes h, Except.ok.injEq, Batch.canonical_eq_self_iff]
  · intro other
    constructor
    · intro hsame
      have hother : decode (encode other) = .ok other.canonical := decode_bytes (by rwa [hsame])
      rw [hsame, decode_bytes h] at hother
      exact (Except.ok.inj hother).symm
    · intro hsame
      rw [← encode_canonical other, hsame, encode_canonical]

/-- A negative id, an empty suite, a status kept as text, and a position beyond the last attempt. -/
theorem decode_encode_cached_attempt :
    let attempt : Attempt :=
      { id := -1, parentId := 7, status := .unrecognized "TRANSLATED", tests := .fuzzy [] }
    let batch : Batch := ⟨[⟨{ id := "r" }, [⟨[attempt], ⟨[0, 3], by decide⟩⟩, {}]⟩]⟩
    (encode batch).length < 2 ^ 64 ∧ decode (encode batch) = .ok batch.canonical
      ∧ decode (encode batch) ≠ .ok batch := by
  intro attempt batch
  have hlength : (encode batch).length < 2 ^ 64 := by decide +kernel
  obtain ⟨hdecode, _, hself, _⟩ := decode_encode_batch batch hlength
  refine ⟨hlength, hdecode, fun h => ?_⟩
  have hcanonical := hself.1 h _ (List.mem_singleton_self _) _ (List.mem_cons_self ..) _
    (List.mem_singleton_self _)
  exact hcanonical.2.1 rfl

end AttemptLedger.Wire
