import AttemptLedger.Proofs.Interchange
import AttemptLedger.Proofs.Json.Closing
import AttemptLedger.Proofs.Wire.Truncation

/-!
# Batches that were cut short

The bytes of a batch that were cut off anywhere are read exactly if they end with a response, and then
as the canonical form of the responses that are left; the text of a batch is not read at all unless it
is there to its end. Everything else is refused as malformed.
-/

namespace AttemptLedger.Batch

theorem malformed_of_ofBytes_ne_ok {bytes : Bytes} (h : ∀ batch, ofBytes bytes ≠ .ok batch) :
    ∃ cause, ofBytes bytes = .error (.malformed cause) := by
  unfold ofBytes at h ⊢
  cases hread : Wire.decode bytes with
  | ok batch =>
    rw [hread] at h
    exact absurd rfl (h batch)
  | error fault => exact ⟨.wire fault, rfl⟩

theorem malformed_of_ofText_ne_ok {text : String} (h : ∀ batch, ofText text ≠ .ok batch) :
    ∃ cause, ofText text = .error (.malformed cause) := by
  unfold ofText at h ⊢
  cases hread : Json.decode text with
  | ok batch =>
    rw [hread] at h
    exact absurd rfl (h batch)
  | error fault => exact ⟨.json fault, rfl⟩

/-- What is left of the encodings of a batch when their end is cut off: of the bytes, whose length a
machine word can tell, as many of the first responses as are whole, and nothing of the text. -/
theorem reads_of_truncated (batch : Batch) :
    ((Wire.encode batch).length < 2 ^ 64 → ∀ n ≤ (Wire.encode batch).length,
        ((∃ other, ofBytes ((Wire.encode batch).take n) = .ok other)
            ↔ ∃ count, n = (Wire.encode (batch.first count)).length)
          ∧ (∀ count, n = (Wire.encode (batch.first count)).length →
            ofBytes ((Wire.encode batch).take n) = .ok (batch.first count).canonical)
          ∧ ((∀ count, n ≠ (Wire.encode (batch.first count)).length) →
            ∃ cause, ofBytes ((Wire.encode batch).take n) = .error (.malformed cause)))
      ∧ ∀ front back, Json.encode batch = front ++ back → back ≠ "" →
        ∃ cause, ofText front = .error (.malformed cause) := by
  constructor
  · intro hlength n hn
    have hwhole : ∀ count, n = (Wire.encode (batch.first count)).length →
        ofBytes ((Wire.encode batch).take n) = .ok (batch.first count).canonical := by
      intro count hcount
      rw [hcount]
      exact ofBytes_eq_ok_iff.2 (Wire.decode_take_first hlength count)
    have hboundary : ∀ other, ofBytes ((Wire.encode batch).take n) = .ok other →
        ∃ count, n = (Wire.encode (batch.first count)).length :=
      fun other hread => Wire.exists_first_of_decode hlength hn (ofBytes_eq_ok_iff.1 hread)
    refine ⟨⟨?_, ?_⟩, hwhole, ?_⟩
    · intro hread
      obtain ⟨other, hother⟩ := hread
      exact hboundary other hother
    · intro hcut
      obtain ⟨count, hcount⟩ := hcut
      exact ⟨_, hwhole count hcount⟩
    · intro hinside
      refine malformed_of_ofBytes_ne_ok fun other hread => ?_
      obtain ⟨count, hcount⟩ := hboundary other hread
      exact hinside count hcount
  · intro front back hsplit hback
    refine malformed_of_ofText_ne_ok fun other hread => ?_
    exact Json.decode_front_ne_ok hsplit hback other (ofText_eq_ok_iff.1 hread)

/-- Two responses, cut off behind the first one and one byte later, and their text without its last
character. -/
theorem reads_of_truncated_pair :
    let batch : Batch := ⟨[⟨{ id := "a" }, []⟩, ⟨{ id := "b" }, [{}]⟩]⟩
    let front := String.ofList (Json.encode batch).toList.dropLast
    (Wire.encode batch).length < 2 ^ 64 ∧ 7 ≤ (Wire.encode batch).length
      ∧ 8 ≤ (Wire.encode batch).length
      ∧ ofBytes ((Wire.encode batch).take 7) = .ok (batch.first 1).canonical
      ∧ (∃ cause, ofBytes ((Wire.encode batch).take 8) = .error (.malformed cause))
      ∧ ∃ cause, ofText front = .error (.malformed cause) := by
  intro batch front
  have hlength : (Wire.encode batch).length < 2 ^ 64 := by decide +kernel
  have h7 : 7 ≤ (Wire.encode batch).length := by decide +kernel
  have h8 : 8 ≤ (Wire.encode batch).length := by decide +kernel
  obtain ⟨hbytes, htext⟩ := reads_of_truncated batch
  have hfirst : 7 = (Wire.encode (batch.first 1)).length := by decide +kernel
  have hinside : ∀ count, 8 ≠ (Wire.encode (batch.first count)).length := by
    intro count
    match count with
    | 0 | 1 => decide +kernel
    | count + 2 =>
      have hall : batch.first (count + 2) = batch :=
        congrArg Batch.mk (List.take_of_length_le (Nat.le_add_left 2 count))
      rw [hall]
      decide +kernel
  have hsplit : Json.encode batch = front ++ "\x7d" := by
    apply String.toList_injective
    rw [String.toList_append, String.toList_ofList]
    exact (List.dropLast_append_getLast? _ (Json.getLast?_encode batch)).symm
  exact ⟨hlength, h7, h8, (hbytes hlength 7 h7).2.1 1 hfirst, (hbytes hlength 8 h8).2.2 hinside,
    htext front _ hsplit (by decide)⟩

end AttemptLedger.Batch
