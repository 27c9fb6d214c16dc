import AttemptLedger.Proofs.Truncation

/-!
# Byte strings of batches one after the other

A reader has no memory of where it is: what follows the bytes of a message is read as it would be alone,
and only added to what was there. So the bytes of two batches make those of one batch with the responses
of both, and nothing that could not be read alone becomes readable behind the bytes of a batch.
-/

namespace AttemptLedger

/-- The responses of two batches one after the other. -/
def Batch.append (first second : Batch) : Batch := ⟨first.responses ++ second.responses⟩

theorem Table.ofBatch_append (first second : Batch) :
    ofBatch (first.append second) = concat [ofBatch first, ofBatch second] := by
  simp [ofBatch, concat, Batch.append]

namespace Wire

/-- What follows bytes that were read is read from the state that they left. -/
theorem Schema.read_append_eq_ok_iff {σ : Type} {schema : Schema σ} {a b : Bytes} {s t u : σ}
    (ha : schema.read s a = .ok t) : schema.read s (a ++ b) = .ok u ↔ schema.read t b = .ok u := by
  constructor
  · intro h
    obtain ⟨as, has, -, hfirst⟩ := read_eq_ok_iff.1 ha
    obtain ⟨records, hrecords, hrefusal, hall⟩ := read_eq_ok_iff.1 h
    -- The records of the whole are those of the first bytes and then those of the others.
    obtain ⟨bs, hbs, rfl⟩ := has.append_inv hrecords
    rw [absorbAll_append hfirst] at hall
    exact read_eq_ok_iff.2 ⟨bs, hbs, fun record hrecord =>
      hrefusal record (List.mem_append_right as hrecord), hall⟩
  · exact read_append ha

/-- A record adds to a batch behind the responses that are there, and does not look at them. -/
theorem batchSchema_absorb_append (first second : Batch) (record : Record) :
    batchSchema.absorb record (first.append second)
      = (batchSchema.absorb record second).map first.append := by
  obtain ⟨⟨number, wireType⟩, payload⟩ := record
  by_cases hnumber : number = 1
  · subst hnumber
    cases payload with
    | bytes body =>
      show (readResponse body).map _ = ((readResponse body).map _).map _
      cases readResponse body with
      | error fault => rfl
      | ok response => simp [Except.map, Batch.append]
    | number value => rfl
    | skipped => rfl
  · have hnone : batchSchema number = none := by
      unfold batchSchema
      split
      · exact absurd rfl hnumber
      · rfl
    simp [Schema.absorb, hnone, Except.map]

theorem batchSchema_absorbAll_append (first second : Batch) (records : List Record) :
    batchSchema.absorbAll records (first.append second)
      = (batchSchema.absorbAll records second).map first.append := by
  induction records generalizing second with
  | nil => rfl
  | cons record records ih =>
    rw [Schema.absorbAll, Schema.absorbAll, batchSchema_absorb_append]
    cases batchSchema.absorb record second with
    | error fault => rfl
    | ok middle => exact ih middle

theorem batchSchema_read_eq_ok_iff {first batch : Batch} {bytes : Bytes} :
    batchSchema.read first bytes = .ok batch
      ↔ ∃ second, decode bytes = .ok second ∧ first.append second = batch := by
  have hstart : first = first.append {} := by simp [Batch.append]
  have hall : ∀ records, batchSchema.absorbAll records first = .ok batch
      ↔ ∃ second, batchSchema.absorbAll records {} = .ok second ∧ first.append second = batch := by
    intro records
    conv => lhs; rw [hstart, batchSchema_absorbAll_append]
    exact map_eq_ok_iff
  constructor
  · intro h
    obtain ⟨records, hrecords, hrefusal, habsorb⟩ := Schema.read_eq_ok_iff.1 h
    obtain ⟨second, hsecond, heq⟩ := (hall records).1 habsorb
    exact ⟨second, Schema.read_eq_ok_iff.2 ⟨records, hrecords, hrefusal, hsecond⟩, heq⟩
  · intro h
    obtain ⟨second, hread, heq⟩ := h
    obtain ⟨records, hrecords, hrefusal, hsecond⟩ := Schema.read_eq_ok_iff.1 hread
    exact Schema.read_eq_ok_iff.2 ⟨records, hrecords, hrefusal, (hall records).2 ⟨second, hsecond, heq⟩⟩

/-- Behind the bytes of a batch, just the bytes of batches can stand. -/
theorem decode_append_eq_ok_iff {a c : Bytes} {first batch : Batch} (h : decode a = .ok first) :
    decode (a ++ c) = .ok batch ↔ ∃ second, decode c = .ok second ∧ first.append second = batch :=
  (Schema.read_append_eq_ok_iff h).trans batchSchema_read_eq_ok_iff

end Wire

namespace Batch

/-- Bytes behind those of a batch are read exactly if they are the bytes of a batch, whose responses and
rows then stand behind those of the first; otherwise the whole is malformed. -/
theorem ofBytes_append {a : Bytes} {first : Batch} (h : ofBytes a = .ok first) (c : Bytes) :
    (∀ second, ofBytes c = .ok second →
        ofBytes (a ++ c) = .ok ⟨first.responses ++ second.responses⟩
          ∧ ∃ s t, Table.ofBytes a = .ok s ∧ Table.ofBytes c = .ok t
            ∧ Table.ofBytes (a ++ c) = .ok (Table.concat [s, t]))
      ∧ ∀ error, ofBytes c = .error error →
        ∃ cause, ofBytes (a ++ c) = .error (.malformed cause)
          ∧ Table.ofBytes (a ++ c) = .error (.malformed cause) := by
  have hfirst := ofBytes_eq_ok_iff.1 h
  constructor
  · intro second hsecond
    have hwhole : ofBytes (a ++ c) = .ok (first.append second) :=
      ofBytes_eq_ok_iff.2
        ((Wire.decode_append_eq_ok_iff hfirst).2 ⟨second, ofBytes_eq_ok_iff.1 hsecond, rfl⟩)
    refine ⟨hwhole, _, _, Table.ofBytes_of_ok h, Table.ofBytes_of_ok hsecond, ?_⟩
    rw [Table.ofBytes_of_ok hwhole, Table.ofBatch_append]
  · intro error herror
    have hnone : ∀ batch, ofBytes (a ++ c) ≠ .ok batch := by
      intro batch hread
      obtain ⟨second, hsecond, -⟩ :=
        (Wire.decode_append_eq_ok_iff hfirst).1 (ofBytes_eq_ok_iff.1 hread)
      rw [ofBytes_eq_ok_iff.2 hsecond] at herror
      cases herror
    obtain ⟨cause, hcause⟩ := malformed_of_ofBytes_ne_ok hnone
    exact ⟨cause, hcause, by rw [Table.ofBytes, hcause]; rfl⟩

/-- Two byte strings that no batch is written as, each with a field of its own that is passed over, and
one that ends inside a record. -/
theorem ofBytes_append_unwritten :
    let first : Batch := ⟨[⟨{ id := "a" }, [⟨[{ id := 1, parentId := -1 }], .empty⟩]⟩]⟩
    let second : Batch := ⟨[⟨{ id := "b" }, []⟩]⟩
    let a := [0x78, 0x01] ++ Wire.encode first
    let c := Wire.encode second ++ [0x7a, 0x01, 0xff]
    ofBytes a = .ok first ∧ ofBytes c = .ok second
      ∧ ofBytes (a ++ c) = .ok ⟨first.responses ++ second.responses⟩
      ∧ (∃ s t, Table.ofBytes a = .ok s ∧ Table.ofBytes c = .ok t
        ∧ Table.ofBytes (a ++ c) = .ok (Table.concat [s, t]))
      ∧ (∃ error, ofBytes [0x0a, 0x05] = .error error)
      ∧ ∃ cause, ofBytes (a ++ [0x0a, 0x05]) = .error (.malformed cause) := by
  intro first second a c
  have ha : ofBytes a = .ok first := ofBytes_eq_ok_iff.2 (by decide +kernel)
  have hc : ofBytes c = .ok second := ofBytes_eq_ok_iff.2 (by decide +kernel)
  have hcut : ∃ cause, ofBytes [0x0a, 0x05] = .error (.malformed cause) := by
    have hread : Wire.decode [0x0a, 0x05] = .error (.pastEnd 2 5 2) := by decide +kernel
    exact ⟨.wire (.pastEnd 2 5 2), by rw [ofBytes, hread]; rfl⟩
  obtain ⟨cause, hcut⟩ := hcut
  obtain ⟨hwhole, htables⟩ := (ofBytes_append ha c).1 second hc
  obtain ⟨other, hother, -⟩ := (ofBytes_append ha [0x0a, 0x05]).2 _ hcut
  exact ⟨ha, hc, hwhole, htables, ⟨_, hcut⟩, other, hother⟩

end Batch

end AttemptLedger
