import AttemptLedger.Proofs.Json.Canonicity
import AttemptLedger.Proofs.Json.RoundTrip
import AttemptLedger.Proofs.Wire.Canonicity
import AttemptLedger.Proofs.Wire.RoundTrip
import AttemptLedger.Table

/-!
# The two encodings are interchangeable

A batch that was read from either encoding is canonical, so writing and reading it in the other one
gives the same batch and the same table. The table of a batch does not tell an empty suite from none:
with statuses that texts stand for, both encodings of the batch have the rows of the batch itself.
-/

namespace AttemptLedger

namespace Batch

theorem ofBytes_eq_ok_iff {bytes : Bytes} {batch : Batch} :
    ofBytes bytes = .ok batch ↔ Wire.decode bytes = .ok batch := mapError_eq_ok_iff

theorem ofText_eq_ok_iff {text : String} {batch : Batch} :
    ofText text = .ok batch ↔ Json.decode text = .ok batch := mapError_eq_ok_iff

/-- The bytes of a batch are read back as its canonical form, if a machine word can tell their
length. -/
theorem ofBytes_encode {batch : Batch} (h : (Wire.encode batch).length < 2 ^ 64) :
    ofBytes (Wire.encode batch) = .ok batch.canonical := ofBytes_eq_ok_iff.2 (Wire.decode_bytes h)

theorem ofText_encode (batch : Batch) : ofText (Json.encode batch) = .ok batch.canonical :=
  ofText_eq_ok_iff.2 (Json.decode_printed batch)

/-- A batch that was read from one of the encodings. -/
def IsRead (batch : Batch) : Prop :=
  (∃ bytes, ofBytes bytes = .ok batch) ∨ ∃ text, ofText text = .ok batch

theorem IsRead.canonical_eq {batch : Batch} (h : batch.IsRead) : batch.canonical = batch := by
  rw [canonical_eq_self_iff]
  rcases h with ⟨bytes, hbytes⟩ | ⟨text, htext⟩
  · exact Wire.decode_isCanonical (ofBytes_eq_ok_iff.1 hbytes)
  · exact Json.decode_isCanonical (ofText_eq_ok_iff.1 htext)

theorem canonical_eq_of_ofBytes {bytes : Bytes} {batch : Batch} (h : ofBytes bytes = .ok batch) :
    batch.canonical = batch := IsRead.canonical_eq (.inl ⟨bytes, h⟩)

/-- Every status is one that a text stands for; suites may be empty. -/
def StatusesRead (batch : Batch) : Prop :=
  ∀ response ∈ batch.responses, ∀ chain ∈ response.chains, ∀ attempt ∈ chain.attempts,
    ∃ text, attempt.status = .ofText text

end Batch

/-! ### Rows -/

theorem Row.ofAttempt_canonical {attempt : Attempt} (h : ∃ text, attempt.status = .ofText text)
    (request : Request) (memoized : Bool) :
    Row.ofAttempt request memoized attempt.canonical = Row.ofAttempt request memoized attempt := by
  have hstatus : attempt.status.canonical = attempt.status := Status.canonical_eq_self_iff.2 h
  simp only [ofAttempt, Attempt.canonical, hstatus, Suite.records_canonical]

theorem Chain.rows_canonical {chain : Chain}
    (h : ∀ attempt ∈ chain.attempts, ∃ text, attempt.status = .ofText text) (request : Request) :
    chain.canonical.rows request = chain.rows request := by
  have hfrom : ∀ (attempts : List Attempt) (index : Nat),
      (∀ attempt ∈ attempts, ∃ text, attempt.status = .ofText text) →
      chain.canonical.rowsFrom request index (attempts.map (·.canonical))
        = chain.rowsFrom request index attempts := by
    intro attempts
    induction attempts with
    | nil => exact fun _ _ => rfl
    | cons attempt attempts ih =>
      intro index hall
      obtain ⟨hhead, htail⟩ := List.forall_mem_cons.1 hall
      simp only [List.map_cons, rowsFrom, Row.ofAttempt_canonical hhead, ih (index + 1) htail]
      rfl
  exact hfrom chain.attempts 0 h

theorem Table.ofBatch_canonical {batch : Batch} (h : batch.StatusesRead) :
    ofBatch batch.canonical = ofBatch batch := by
  have hresponse : ∀ response ∈ batch.responses, response.canonical.rows = response.rows := by
    intro response hresponse
    simp only [Response.rows, Response.canonical, List.flatMap_map]
    exact List.flatMap_congr fun chain hchain =>
      Chain.rows_canonical (h response hresponse chain hchain) response.request
  simp only [ofBatch, Batch.canonical, List.flatMap_map]
  exact congrArg Table.mk (List.flatMap_congr hresponse)

theorem Table.ofBytes_of_ok {bytes : Bytes} {batch : Batch} (h : Batch.ofBytes bytes = .ok batch) :
    ofBytes bytes = .ok (ofBatch batch) := by
  rw [ofBytes, h]
  rfl

theorem Table.ofText_of_ok {text : String} {batch : Batch} (h : Batch.ofText text = .ok batch) :
    ofText text = .ok (ofBatch batch) := by
  rw [ofText, h]
  rfl

/-! ### The exchange -/

/-- What was read from either encoding is the same batch and the same table in the other one; and both
encodings of a batch whose statuses texts stand for have its own rows. The bytes of a batch have a
length that fits a machine word wherever they are read. -/
theorem Batch.encodings_interchange (batch : Batch) :
    (batch.IsRead → ofText (Json.encode batch) = .ok batch
        ∧ ((Wire.encode batch).length < 2 ^ 64 → ofBytes (Wire.encode batch) = .ok batch))
      ∧ (∀ bytes, ofBytes bytes = .ok batch →
        Table.ofBytes bytes = Table.ofText (Json.encode batch))
      ∧ (∀ text, ofText text = .ok batch → (Wire.encode batch).length < 2 ^ 64 →
        Table.ofText text = Table.ofBytes (Wire.encode batch))
      ∧ (batch.StatusesRead → Table.ofText (Json.encode batch) = .ok (Table.ofBatch batch)
        ∧ ((Wire.encode batch).length < 2 ^ 64 →
          Table.ofBytes (Wire.encode batch) = .ok (Table.ofBatch batch))) := by
  have hread : batch.IsRead → ofText (Json.encode batch) = .ok batch
      ∧ ((Wire.encode batch).length < 2 ^ 64 → ofBytes (Wire.encode batch) = .ok batch) := by
    intro h
    have htext := ofText_encode batch
    rw [h.canonical_eq] at htext
    refine ⟨htext, fun hlength => ?_⟩
    rw [ofBytes_encode hlength, h.canonical_eq]
  refine ⟨hread, ?_, ?_, ?_⟩
  · intro bytes hbytes
    have htext := (hread (.inl ⟨bytes, hbytes⟩)).1
    rw [Table.ofBytes_of_ok hbytes, Table.ofText_of_ok htext]
  · intro text htext hlength
    have hbytes := (hread (.inr ⟨text, htext⟩)).2 hlength
    rw [Table.ofText_of_ok htext, Table.ofBytes_of_ok hbytes]
  · intro hstatuses
    rw [← Table.ofBatch_canonical hstatuses]
    exact ⟨Table.ofText_of_ok (ofText_encode batch),
      fun hlength => Table.ofBytes_of_ok (ofBytes_encode hlength)⟩

/-- Bytes with a record of an unknown field, of an attempt with an unknown status and a test without
output, with a position beyond the last attempt. -/
theorem Batch.encodings_interchange_unknown_status :
    let attempt : Attempt :=
      { id := 7, parentId := -1, status := .ofText "X", tests := .unit [{ actualOutput := some "" }] }
    let batch : Batch := ⟨[⟨{ id := "r" }, [⟨[attempt], ⟨[2], by decide⟩⟩]⟩]⟩
    let bytes := Wire.encode batch ++ [0x78, 0x01]
    ofBytes bytes = .ok batch ∧ ofText (Json.encode batch) = .ok batch ∧ batch.StatusesRead
      ∧ (Wire.encode batch).length < 2 ^ 64
      ∧ Table.ofBytes bytes = Table.ofText (Json.encode batch)
      ∧ Table.ofText (Json.encode batch) = Table.ofBytes (Wire.encode batch)
      ∧ Table.ofBytes (Wire.encode batch) = .ok (Table.ofBatch batch) := by
  intro attempt batch bytes
  have hbytes : ofBytes bytes = .ok batch := ofBytes_eq_ok_iff.2 (by decide +kernel)
  have hlength : (Wire.encode batch).length < 2 ^ 64 := by decide +kernel
  have hstatuses : batch.StatusesRead := by
    intro response hresponse chain hchain other hother
    rw [List.mem_singleton.1 hresponse] at hchain
    rw [List.mem_singleton.1 hchain] at hother
    rw [List.mem_singleton.1 hother]
    exact ⟨"X", rfl⟩
  obtain ⟨hread, hofBytes, hofText, hrows⟩ := encodings_interchange batch
  have htext := (hread (.inl ⟨bytes, hbytes⟩)).1
  exact ⟨hbytes, htext, hstatuses, hlength, hofBytes bytes hbytes, hofText _ htext hlength,
    (hrows hstatuses).2 hlength⟩

end AttemptLedger
