import AttemptLedger.Proofs.Canonical
import AttemptLedger.Proofs.Wire.Record
import AttemptLedger.Wire.Decode

/-!
# Batches that were read from bytes are canonical

What every field of a message keeps of a draft, reading keeps from the first record to the last. The
status of an attempt comes from a text in every draft, and a draft is finished with a suite that is not
empty; so every batch that a byte string stands for is canonical.
-/

namespace AttemptLedger.Wire

section

variable {σ α : Type} {P : σ → Prop}

/-- A field that keeps a property of drafts, whatever payload it absorbs. -/
def Field.Maintains (field : Field σ) (P : σ → Prop) : Prop :=
  ∀ payload s t, field.absorb payload s = .ok t → P s → P t

def Schema.Maintains (schema : Schema σ) (P : σ → Prop) : Prop :=
  ∀ number field, schema number = some field → field.Maintains P

theorem maintains_number (label : String) {put : UInt64 → σ → σ}
    (hput : ∀ value s, P s → P (put value s)) : (Field.number label put).Maintains P := by
  intro payload s t habsorb hs
  cases payload with
  | number value =>
    cases habsorb
    exact hput value s hs
  | _ =>
    cases habsorb
    exact hs

theorem maintains_nested (label : String) {read : Bytes → Except Fault α} {put : α → σ → σ}
    (hput : ∀ body value s, read body = .ok value → P s → P (put value s)) :
    (Field.nested label read put).Maintains P := by
  intro payload s t habsorb hs
  cases payload with
  | bytes body =>
    obtain ⟨value, hread, rfl⟩ := map_eq_ok_iff.1 habsorb
    exact hput body value s hread hs
  | _ =>
    cases habsorb
    exact hs

theorem Schema.Maintains.absorbAll {schema : Schema σ} (h : schema.Maintains P)
    {records : List Record} {s t : σ} (habsorb : schema.absorbAll records s = .ok t) (hs : P s) :
    P t := by
  induction records generalizing s with
  | nil =>
    cases habsorb
    exact hs
  | cons record records ih =>
    obtain ⟨middle, hmiddle, habsorb⟩ := Schema.absorbAll_cons_eq_ok_iff.1 habsorb
    refine ih habsorb ?_
    unfold Schema.absorb at hmiddle
    split at hmiddle
    · next field hfield => exact h _ field hfield _ _ _ hmiddle hs
    · cases hmiddle
      exact hs

/-- The run over a message: what holds of the first draft and is kept by every field holds at the
end. -/
theorem Schema.Maintains.read {schema : Schema σ} (h : schema.Maintains P) {bytes : Bytes} {s t : σ}
    (hread : schema.read s bytes = .ok t) (hs : P s) : P t := by
  obtain ⟨records, _, _, habsorb⟩ := Schema.read_eq_ok_iff.1 hread
  exact h.absorbAll habsorb hs

end

/-! ### From the attempt to the batch -/

theorem attemptSchema_maintains :
    attemptSchema.Maintains fun draft => ∃ text, draft.attempt.status = .ofText text := by
  intro number field hfield
  match number with
  | 6 =>
    cases hfield
    exact maintains_nested _ fun _ text _ _ _ => ⟨text, rfl⟩
  | 1 | 2 | 5 | 13 | 14 | 15 | 16 =>
    cases hfield
    exact maintains_number _ fun _ _ hs => hs
  | 3 | 4 | 7 | 8 | 9 | 10 | 11 | 12 =>
    cases hfield
    exact maintains_nested _ fun _ _ _ _ hs => hs
  | 0 | _ + 17 => cases hfield

theorem readAttempt_isCanonical {bytes : Bytes} {attempt : Attempt}
    (h : readAttempt bytes = .ok attempt) : attempt.IsCanonical := by
  obtain ⟨draft, hread, hfinish⟩ := bind_eq_ok_iff.1 h
  have hstatus := attemptSchema_maintains.read hread ⟨"", rfl⟩
  unfold AttemptDraft.finish at hfinish
  split at hfinish
  · cases hfinish
  · cases hfinish
  · cases hfinish
    exact ⟨hstatus, Suite.ofTests_ne_empty draft.fuzzyTests draft.unitTests⟩

theorem chainSchema_maintains :
    chainSchema.Maintains fun draft => ∀ attempt ∈ draft.attempts, attempt.IsCanonical := by
  intro number field hfield
  match number with
  | 1 =>
    cases hfield
    have hnested : (Field.nested "" readAttempt fun attempt (draft : ChainDraft) =>
        { draft with attempts := draft.attempts ++ [attempt] }).Maintains
          fun draft => ∀ attempt ∈ draft.attempts, attempt.IsCanonical :=
      maintains_nested "" fun body value s hread hs =>
        List.forall_mem_append.2 ⟨hs, List.forall_mem_singleton.2 (readAttempt_isCanonical hread)⟩
    exact hnested
  | 2 =>
    cases hfield
    intro payload s t habsorb hs
    cases payload with
    | bytes body =>
      obtain ⟨flags, _, rfl⟩ := map_eq_ok_iff.1 habsorb
      exact hs
    | _ =>
      cases habsorb
      exact hs
  | 0 | _ + 3 => cases hfield

theorem readChain_isCanonical {bytes : Bytes} {chain : Chain} (h : readChain bytes = .ok chain) :
    ∀ attempt ∈ chain.attempts, attempt.IsCanonical := by
  obtain ⟨draft, hread, hfinish⟩ := bind_eq_ok_iff.1 h
  have hattempts := chainSchema_maintains.read hread (List.forall_mem_nil _)
  unfold ChainDraft.finish at hfinish
  split at hfinish
  · cases hfinish
    exact hattempts
  · cases hfinish

theorem responseSchema_maintains :
    responseSchema.Maintains fun draft =>
      ∀ chain ∈ draft.chains, ∀ attempt ∈ chain.attempts, attempt.IsCanonical := by
  intro number field hfield
  match number with
  | 1 =>
    cases hfield
    exact maintains_nested _ fun _ _ _ _ hs => hs
  | 2 =>
    cases hfield
    exact maintains_nested _ fun body value s hread hs =>
      List.forall_mem_append.2 ⟨hs, List.forall_mem_singleton.2 (readChain_isCanonical hread)⟩
  | 0 | _ + 3 => cases hfield

theorem readResponse_isCanonical {bytes : Bytes} {response : Response}
    (h : readResponse bytes = .ok response) :
    ∀ chain ∈ response.chains, ∀ attempt ∈ chain.attempts, attempt.IsCanonical := by
  obtain ⟨draft, hread, hfinish⟩ := bind_eq_ok_iff.1 h
  have hchains := responseSchema_maintains.read hread (List.forall_mem_nil _)
  unfold ResponseDraft.finish at hfinish
  split at hfinish
  · cases hfinish
    exact hchains
  · cases hfinish

theorem batchSchema_maintains : batchSchema.Maintains Batch.IsCanonical := by
  intro number field hfield
  match number with
  | 1 =>
    cases hfield
    exact maintains_nested _ fun body value s hread hs =>
      List.forall_mem_append.2 ⟨hs, List.forall_mem_singleton.2 (readResponse_isCanonical hread)⟩
  | 0 | _ + 2 => cases hfield

/-- Whatever byte string a batch was read from, the batch is canonical. -/
theorem decode_isCanonical {bytes : Bytes} {batch : Batch} (h : decode bytes = .ok batch) :
    batch.IsCanonical :=
  batchSchema_maintains.read h (List.forall_mem_nil _)

end AttemptLedger.Wire
