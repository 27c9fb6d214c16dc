import AttemptLedger.Proofs.Required
import AttemptLedger.Proofs.Wire.Acceptance
import AttemptLedger.Proofs.Wire.Truncation

/-!
# Bytes without required fields

The bytes of a batch from which some requests and ids were left out, the lengths of the messages around
them told anew. Such an attempt or response cannot be read, and so none of the messages that it is in.
-/

namespace AttemptLedger.Wire

/-! ### Messages without some of their fields -/

def attemptBytesWithout (id parentId : Bool) (attempt : Attempt) : Bytes :=
  (if id then [] else requiredInt 1 attempt.id)
    ++ (if parentId then [] else requiredInt 2 attempt.parentId) ++ attemptDetails attempt

section

variable (omits : Required → Bool)

def chainBytesWithout (r c : Nat) (chain : Chain) : Bytes :=
  (chain.attempts.mapIdx fun a attempt =>
      attemptBytesWithout (omits (.id r c a)) (omits (.parentId r c a)) attempt).flatMap (delimited 1)
    ++ if chain.memoized = .empty then [] else delimited 2 (flagBytes chain.memoFlags)

def responseBytesWithout (r : Nat) (response : Response) : Bytes :=
  (if omits (.request r) then [] else delimited 1 (requestBytes response.request))
    ++ (response.chains.mapIdx (chainBytesWithout omits r)).flatMap (delimited 2)

/-- The bytes of a batch without the required fields that `omits` tells. -/
def encodeWithout (batch : Batch) : Bytes :=
  (batch.responses.mapIdx (responseBytesWithout omits)).flatMap (delimited 1)

end

/-- Where nothing is left out, these are the bytes of the batch. -/
theorem encodeWithout_none (batch : Batch) : encodeWithout (fun _ => false) batch = encode batch := by
  have hattempt : attemptBytesWithout false false = attemptBytes := by
    funext attempt
    rw [attemptBytes_eq]
    rfl
  have hchain : ∀ r, chainBytesWithout (fun _ => false) r = fun _ => chainBytes := by
    intro r
    funext c chain
    rw [chainBytesWithout, hattempt, mapIdx_eq_map, List.flatMap_map, chainBytes]
  have hresponse : responseBytesWithout (fun _ => false) = fun _ => responseBytes := by
    funext r response
    rw [responseBytesWithout, hchain, mapIdx_eq_map, List.flatMap_map, responseBytes]
    rfl
  rw [encodeWithout, hresponse, mapIdx_eq_map, List.flatMap_map, encode]

/-! ### Their records -/

theorem exists_records_unless {p : Prop} [Decidable p] {number : Nat} {body : Bytes}
    (hnumber : 0 < number ∧ number < 2 ^ 29)
    (h : (if p then [] else delimited number body).length < 2 ^ 64) :
    ∃ records, Records (if p then [] else delimited number body) records := by
  by_cases hp : p
  · rw [if_pos hp]
    exact ⟨_, .nil⟩
  · rw [if_neg hp] at h ⊢
    exact ⟨_, records_delimited hnumber (Nat.lt_of_le_of_lt (length_le_delimited number body) h)⟩

/-- Of a message that conforms, every body of a list of messages has the form that the list is for. -/
theorem form_of_mem_bodies {fields : Fields} {number : Nat} {form : Bytes → Prop}
    (hcontent : fields number = some (.message form)) (hnumber : 0 < number ∧ number < 2 ^ 29)
    {front back : Bytes} {bodies : List Bytes} {as bs records : List Record} (hfront : Records front as)
    (hback : Records back bs) (hlength : (bodies.flatMap (delimited number)).length < 2 ^ 64)
    (hrecords : Records (front ++ (bodies.flatMap (delimited number) ++ back)) records)
    (hconform : Conform fields records) {body : Bytes} (hbody : body ∈ bodies) :
    form body ∧ body.length < 2 ^ 64 := by
  have hknown := hfront.append ((records_flatMap_delimited hnumber hlength).append hback)
  rw [hrecords.unique hknown] at hconform
  have hmem := List.mem_map_of_mem (f := fun body => Record.mk ⟨number, .delimited⟩ (.bytes body)) hbody
  cases hconform _ (List.mem_append_right _ (List.mem_append_left _ hmem)) _ hcontent with
  | message hform => exact ⟨hform, Nat.lt_of_le_of_lt (length_le_of_mem_bodies hbody) hlength⟩

/-! ### What is not read -/

theorem readAttempt_without_ne_ok {noId noParentId : Bool} {attempt other : Attempt}
    (homits : noId = true ∨ noParentId = true)
    (h : (attemptBytesWithout noId noParentId attempt).length < 2 ^ 64) :
    readAttempt (attemptBytesWithout noId noParentId attempt) ≠ .ok other := by
  have hid : Carries attemptSchema (if noId then [] else requiredInt 1 attempt.id) {}
      { id := if noId then none else some attempt.id } := by
    have hread : Carries attemptSchema (requiredInt 1 attempt.id) {} _ :=
      carries_requiredInt 1 attempt.id (knows rfl)
    cases noId with
    | true => exact .nil
    | false => exact hread
  have hparentId : Carries attemptSchema (if noParentId then [] else requiredInt 2 attempt.parentId)
      { id := if noId then none else some attempt.id }
      { id := if noId then none else some attempt.id
        parentId := if noParentId then none else some attempt.parentId } := by
    have hread : Carries attemptSchema (requiredInt 2 attempt.parentId)
        { id := if noId then none else some attempt.id } _ :=
      carries_requiredInt 2 attempt.parentId (knows rfl)
    cases noParentId with
    | true => exact .nil
    | false => exact hread
  have hdraft := (hid.append hparentId).append (carries_attemptDetails attempt _ _) h
  intro hread
  rw [readAttempt, attemptBytesWithout, hdraft] at hread
  obtain ⟨hsome, hsome'⟩ := (AttemptDraft.exists_finish_iff _).1 ⟨other, hread⟩
  rcases homits with rfl | rfl
  · cases hsome
  · cases hsome'

section

variable {omits : Required → Bool} {batch : Batch} {response : Response} {chain : Chain}
  {attempt : Attempt} {r c a : Nat}

theorem not_responseForm_without_request (homits : omits (.request r) = true)
    (h : (responseBytesWithout omits r response).length < 2 ^ 64) :
    ¬ResponseForm (responseBytesWithout omits r response) := by
  rintro ⟨records, hrecords, _, record, hrecord, hnumber⟩
  rw [responseBytesWithout, if_pos homits, List.nil_append] at hrecords h
  rw [hrecords.unique (records_flatMap_delimited (by decide) h)] at hrecord
  obtain ⟨body, _, rfl⟩ := List.mem_map.1 hrecord
  cases hnumber

theorem responseForm_of_batchForm (hbatch : BatchForm (encodeWithout omits batch))
    (h : (encodeWithout omits batch).length < 2 ^ 64) (hresponse : batch.responses[r]? = some response) :
    ResponseForm (responseBytesWithout omits r response)
      ∧ (responseBytesWithout omits r response).length < 2 ^ 64 := by
  have hmem := mem_mapIdx_of_getElem? (f := responseBytesWithout omits) hresponse
  obtain ⟨records, hrecords, hconform⟩ := hbatch
  rw [encodeWithout, ← List.append_nil (List.flatMap _ _), ← List.nil_append (_ ++ [])] at hrecords
  exact form_of_mem_bodies rfl (by decide) .nil .nil h hrecords hconform hmem

theorem chainForm_of_responseForm (hform : ResponseForm (responseBytesWithout omits r response))
    (h : (responseBytesWithout omits r response).length < 2 ^ 64)
    (hchain : response.chains[c]? = some chain) :
    ChainForm (chainBytesWithout omits r c chain)
      ∧ (chainBytesWithout omits r c chain).length < 2 ^ 64 := by
  have hmem := mem_mapIdx_of_getElem? (f := chainBytesWithout omits r) hchain
  rw [responseBytesWithout, List.length_append] at h
  obtain ⟨front, hfront⟩ := @exists_records_unless (omits (.request r) = true) _ 1
    (requestBytes response.request) (by decide) (by omega)
  obtain ⟨records, hrecords, hconform, _⟩ := hform
  rw [responseBytesWithout, ← List.append_nil (List.flatMap _ _)] at hrecords
  exact form_of_mem_bodies rfl (by decide) hfront .nil (by omega) hrecords hconform hmem

theorem attemptForm_of_chainForm (hform : ChainForm (chainBytesWithout omits r c chain))
    (h : (chainBytesWithout omits r c chain).length < 2 ^ 64)
    (hattempt : chain.attempts[a]? = some attempt) :
    AttemptForm (attemptBytesWithout (omits (.id r c a)) (omits (.parentId r c a)) attempt)
      ∧ (attemptBytesWithout (omits (.id r c a)) (omits (.parentId r c a)) attempt).length
        < 2 ^ 64 := by
  have hmem := mem_mapIdx_of_getElem? (f := fun a attempt =>
    attemptBytesWithout (omits (.id r c a)) (omits (.parentId r c a)) attempt) hattempt
  rw [chainBytesWithout, List.length_append] at h
  obtain ⟨back, hback⟩ := @exists_records_unless (chain.memoized = .empty) _ 2
    (flagBytes chain.memoFlags) (by decide) (by omega)
  obtain ⟨records, hrecords, hconform, _⟩ := hform
  rw [chainBytesWithout, ← List.nil_append (_ ++ _)] at hrecords
  exact form_of_mem_bodies rfl (by decide) .nil hback (by omega) hrecords hconform hmem

/-- One omission anywhere is enough, whatever else is left out. -/
theorem decode_without_ne_ok {field : Required} (hfield : field.IsIn batch)
    (homits : omits field = true) (h : (encodeWithout omits batch).length < 2 ^ 64) (other : Batch) :
    decode (encodeWithout omits batch) ≠ .ok other := by
  intro hread
  have hbatch := (exists_decode_iff _).1 ⟨other, hread⟩
  have hattempt : ∀ r c a, (batch.attempt? r c a).isSome = true →
      ¬(omits (.id r c a) = true ∨ omits (.parentId r c a) = true) := by
    intro r c a hsome homits
    obtain ⟨attempt, hattempt⟩ := Option.isSome_iff_exists.1 hsome
    obtain ⟨response, chain, hresponse, hchain, hattempt⟩ := Batch.attempt?_eq_some_iff.1 hattempt
    obtain ⟨hform, hlength⟩ := responseForm_of_batchForm hbatch h hresponse
    obtain ⟨hform, hlength⟩ := chainForm_of_responseForm hform hlength hchain
    obtain ⟨hform, hlength⟩ := attemptForm_of_chainForm hform hlength hattempt
    obtain ⟨read, hread⟩ := (exists_readAttempt_iff _).2 hform
    exact readAttempt_without_ne_ok homits hlength hread
  cases field with
  | request r =>
    obtain ⟨response, hresponse⟩ := Option.isSome_iff_exists.1 hfield
    obtain ⟨hform, hlength⟩ := responseForm_of_batchForm hbatch h hresponse
    exact not_responseForm_without_request homits hlength hform
  | id r c a => exact hattempt r c a hfield (.inl homits)
  | parentId r c a => exact hattempt r c a hfield (.inr homits)

end

end AttemptLedger.Wire
