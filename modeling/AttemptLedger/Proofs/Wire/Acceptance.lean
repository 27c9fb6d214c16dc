import AttemptLedger.Encoding
import AttemptLedger.Proofs.Positions
import AttemptLedger.Proofs.Wire.Grammar

/-!
# The byte strings that a batch can be read from

The schemas check what the grammar says about the fields of the seven messages, and the drafts check
which of their records are required. So a batch is read from the byte strings of the grammar, and from
no other.
-/

namespace AttemptLedger.Wire

/-! ### Required records -/

section

variable {σ α β : Type}

def Field.Keeps (field : Field σ) (get : σ → β) : Prop :=
  ∀ payload s t, field.absorb payload s = .ok t → get t = get s

theorem keeps_number (label : String) {put : UInt64 → σ → σ} {get : σ → β}
    (hput : ∀ value s, get (put value s) = get s) : (Field.number label put).Keeps get := by
  intro payload s t habsorb
  cases payload with
  | number value =>
    cases habsorb
    exact hput value s
  | _ =>
    cases habsorb
    rfl

theorem keeps_nested (label : String) {read : Bytes → Except Fault α} {put : α → σ → σ}
    {get : σ → β} (hput : ∀ value s, get (put value s) = get s) :
    (Field.nested label read put).Keeps get := by
  intro payload s t habsorb
  cases payload with
  | bytes body =>
    obtain ⟨value, _, rfl⟩ := map_eq_ok_iff.1 habsorb
    exact hput value s
  | _ =>
    cases habsorb
    rfl

/-- A field that fills a part of the draft from each payload that it is for. -/
def Field.Fills (field : Field σ) (content : Content) (get : σ → Option β) : Prop :=
  ∀ payload s t, content.Admits payload → field.absorb payload s = .ok t → (get t).isSome = true

theorem fills_number (label : String) {put : UInt64 → σ → σ} {get : σ → Option β}
    (hput : ∀ value s, (get (put value s)).isSome = true) :
    (Field.number label put).Fills .number get := by
  intro payload s t hadmits habsorb
  cases hadmits
  cases habsorb
  exact hput _ s

theorem fills_nested (label : String) {read : Bytes → Except Fault α} {put : α → σ → σ}
    {form : Bytes → Prop} {get : σ → Option β}
    (hput : ∀ value s, (get (put value s)).isSome = true) :
    (Field.nested label read put).Fills (.message form) get := by
  intro payload s t hadmits habsorb
  cases hadmits
  obtain ⟨value, _, rfl⟩ := map_eq_ok_iff.1 habsorb
  exact hput value s

theorem get_eq_of_absorb {schema : Schema σ} {number : Nat} {get : σ → β}
    (hkeeps : ∀ other field, other ≠ number → schema other = some field → field.Keeps get)
    {record : Record} (hnumber : record.tag.field ≠ number) {s t : σ}
    (habsorb : schema.absorb record s = .ok t) : get t = get s := by
  unfold Schema.absorb at habsorb
  cases hfield : schema record.tag.field with
  | none =>
    rw [hfield] at habsorb
    cases habsorb
    rfl
  | some field =>
    rw [hfield] at habsorb
    exact hkeeps _ field hnumber hfield _ _ _ habsorb

/-- The part of a draft that one field fills and no other touches is there once the field was met. -/
theorem isSome_absorbAll_iff {schema : Schema σ} {fields : Fields} {number : Nat} {field : Field σ}
    {content : Content} {get : σ → Option β} (hfield : schema number = some field)
    (hcontent : fields number = some content) (hfills : field.Fills content get)
    (hkeeps : ∀ other field, other ≠ number → schema other = some field → field.Keeps get)
    {records : List Record} (hconform : Conform fields records) {s t : σ}
    (habsorb : schema.absorbAll records s = .ok t) :
    (get t).isSome = true ↔ (get s).isSome = true ∨ Has number records := by
  induction records generalizing s with
  | nil =>
    cases habsorb
    simp [Has]
  | cons record records ih =>
    obtain ⟨middle, hmiddle, habsorb⟩ := Schema.absorbAll_cons_eq_ok_iff.1 habsorb
    obtain ⟨hhead, htail⟩ := List.forall_mem_cons.1 hconform
    rw [ih htail habsorb]
    have hhas : Has number (record :: records)
        ↔ record.tag.field = number ∨ Has number records := by simp [Has]
    rw [hhas, ← or_assoc]
    refine or_congr_left ?_
    by_cases hnumber : record.tag.field = number
    · rw [Schema.absorb, hnumber, hfield] at hmiddle
      rw [hnumber] at hhead
      have hsome := hfills record.payload s middle (hhead content hcontent) hmiddle
      simp [hsome, hnumber]
    · have hsame := get_eq_of_absorb hkeeps hnumber hmiddle
      simp [hsame, hnumber]

end

/-! ### The seven messages -/

theorem fuzzyTestSchema_checks : fuzzyTestSchema.Checks fuzzyTestFields := by
  intro number
  match number with
  | 1 | 2 | 3 | 5 => exact checks_text _ _
  | 4 => exact checks_number _ _
  | 0 | _ + 6 => exact True.intro

theorem exists_readFuzzyTest_iff (bytes : Bytes) :
    (∃ test, readFuzzyTest bytes = .ok test) ↔ Message fuzzyTestFields bytes :=
  exists_read_iff_of_checks fuzzyTestSchema_checks {}

theorem unitTestSchema_checks : unitTestSchema.Checks unitTestFields := by
  intro number
  match number with
  | 1 | 2 | 4 => exact checks_text _ _
  | 3 => exact checks_number _ _
  | 0 | _ + 5 => exact True.intro

theorem exists_readUnitTest_iff (bytes : Bytes) :
    (∃ test, readUnitTest bytes = .ok test) ↔ Message unitTestFields bytes :=
  exists_read_iff_of_checks unitTestSchema_checks {}

theorem requestSchema_checks : requestSchema.Checks requestFields := by
  intro number
  match number with
  | 1 | 2 | 3 | 4 => exact checks_text _ _
  | 0 | _ + 5 => exact True.intro

theorem exists_readRequest_iff (bytes : Bytes) :
    (∃ request, readRequest bytes = .ok request) ↔ Message requestFields bytes :=
  exists_read_iff_of_checks requestSchema_checks {}

theorem attemptSchema_checks : attemptSchema.Checks attemptFields := by
  intro number
  match number with
  | 1 | 2 | 5 | 13 | 14 | 15 | 16 => exact checks_number _ _
  | 3 | 4 | 6 | 7 | 8 | 11 | 12 => exact checks_text _ _
  | 9 => exact checks_nested _ _ exists_readFuzzyTest_iff
  | 10 => exact checks_nested _ _ exists_readUnitTest_iff
  | 0 | _ + 17 => exact True.intro

theorem attemptSchema_keeps_id (other : Nat) (field : Field AttemptDraft) (hother : other ≠ 1)
    (hfield : attemptSchema other = some field) : field.Keeps AttemptDraft.id := by
  match other with
  | 1 => exact absurd rfl hother
  | 2 | 5 | 13 | 14 | 15 | 16 =>
    cases hfield
    exact keeps_number _ fun _ _ => rfl
  | 3 | 4 | 6 | 7 | 8 | 9 | 10 | 11 | 12 =>
    cases hfield
    exact keeps_nested _ fun _ _ => rfl
  | 0 | _ + 17 => cases hfield

theorem attemptSchema_keeps_parentId (other : Nat) (field : Field AttemptDraft)
    (hother : other ≠ 2) (hfield : attemptSchema other = some field) :
    field.Keeps AttemptDraft.parentId := by
  match other with
  | 2 => exact absurd rfl hother
  | 1 | 5 | 13 | 14 | 15 | 16 =>
    cases hfield
    exact keeps_number _ fun _ _ => rfl
  | 3 | 4 | 6 | 7 | 8 | 9 | 10 | 11 | 12 =>
    cases hfield
    exact keeps_nested _ fun _ _ => rfl
  | 0 | _ + 17 => cases hfield

theorem AttemptDraft.exists_finish_iff (draft : AttemptDraft) :
    (∃ attempt, draft.finish = .ok attempt)
      ↔ draft.id.isSome = true ∧ draft.parentId.isSome = true := by
  unfold AttemptDraft.finish
  cases draft.id <;> cases draft.parentId <;> simp

theorem exists_readAttempt_iff (bytes : Bytes) :
    (∃ attempt, readAttempt bytes = .ok attempt) ↔ AttemptForm bytes := by
  refine exists_bind_finish_iff_of_checks attemptSchema_checks {} ?_ bytes
  intro records draft hconform habsorb
  have hid : draft.id.isSome = true ↔ _ := isSome_absorbAll_iff rfl rfl
    (fills_number _ fun _ _ => rfl) attemptSchema_keeps_id hconform habsorb
  have hparent : draft.parentId.isSome = true ↔ _ := isSome_absorbAll_iff rfl rfl
    (fills_number _ fun _ _ => rfl) attemptSchema_keeps_parentId hconform habsorb
  rw [AttemptDraft.exists_finish_iff, hid, hparent]
  simp

theorem chainAttempt_checks : chainAttempt.Checks (.message AttemptForm) := by
  intro wireType body payload hpayload s
  have hnested := checks_nested "" (fun attempt (draft : ChainDraft) =>
    { draft with attempts := draft.attempts ++ [attempt] }) exists_readAttempt_iff
  rw [← hnested _ _ _ hpayload s]
  -- A chain words the refusal of a wire type in its own way; which types it refuses is the same.
  refine and_congr_left fun _ => ?_
  show (if wireType = .delimited then none else some _) = none ↔ Field.only _ _ _ = none
  unfold Field.only
  split <;> simp

theorem chainFlags_checks : chainFlags.Checks .flags := by
  intro wireType body payload hpayload s
  constructor
  · rintro ⟨hrefusal, t, habsorb⟩
    cases hpayload with
    | varint _ => exact .flag
    | @delimited _ body _ _ =>
      obtain ⟨flags, hflags, _⟩ := map_eq_ok_iff.1 habsorb
      exact .packed (readFlags_eq_ok_iff.1 hflags)
    | _ => cases hrefusal
  · intro hadmits
    cases hadmits with
    | flag =>
      cases hpayload
      exact ⟨rfl, _, rfl⟩
    | @packed body flags hpacked =>
      cases hpayload
      refine ⟨rfl, { s with flags := s.flags ++ flags }, ?_⟩
      show (readFlags (.ofBytes body)).map _ = _
      rw [readFlags_eq_ok_iff.2 hpacked]
      rfl

theorem chainSchema_checks : chainSchema.Checks chainFields := by
  intro number
  match number with
  | 1 => exact chainAttempt_checks
  | 2 => exact chainFlags_checks
  | 0 | _ + 3 => exact True.intro

theorem exists_chainFlags {records : List Record} (h : Conform chainFields records) :
    ∃ flags, ChainFlags records flags := by
  induction records with
  | nil => exact ⟨[], .nil⟩
  | cons record records ih =>
    obtain ⟨hhead, htail⟩ := List.forall_mem_cons.1 h
    obtain ⟨flags, hflags⟩ := ih htail
    obtain ⟨tag, payload⟩ := record
    by_cases hfield : tag.field = 2
    · have hadmits : Content.flags.Admits payload := hhead .flags (by rw [hfield]; rfl)
      cases hadmits with
      | flag => exact ⟨_, .flag hfield hflags⟩
      | packed hpacked => exact ⟨_, .packed hfield hpacked hflags⟩
    · exact ⟨flags, .other hfield hflags⟩

theorem chainSchema_keeps_flags (other : Nat) (field : Field ChainDraft) (hother : other ≠ 2)
    (hfield : chainSchema other = some field) : field.Keeps ChainDraft.flags := by
  match other with
  | 1 =>
    cases hfield
    have hkeeps : (Field.nested "" readAttempt fun attempt (draft : ChainDraft) =>
        { draft with attempts := draft.attempts ++ [attempt] }).Keeps ChainDraft.flags :=
      keeps_nested "" fun _ _ => rfl
    exact hkeeps
  | 2 => exact absurd rfl hother
  | 0 | _ + 3 => cases hfield

theorem flags_of_absorbAll {records : List Record} {flags : List Bool}
    (h : ChainFlags records flags) {s t : ChainDraft}
    (habsorb : chainSchema.absorbAll records s = .ok t) : t.flags = s.flags ++ flags := by
  induction h generalizing s with
  | nil =>
    cases habsorb
    rw [List.append_nil]
  | @flag tag value records flags hfield _ ih =>
    obtain ⟨middle, hmiddle, habsorb⟩ := Schema.absorbAll_cons_eq_ok_iff.1 habsorb
    rw [Schema.absorb, hfield] at hmiddle
    cases hmiddle
    rw [ih habsorb, List.append_assoc]
    rfl
  | @packed tag body chunk records flags hfield hpacked _ ih =>
    obtain ⟨middle, hmiddle, habsorb⟩ := Schema.absorbAll_cons_eq_ok_iff.1 habsorb
    rw [Schema.absorb, hfield] at hmiddle
    obtain ⟨read, hread, rfl⟩ := map_eq_ok_iff.1 hmiddle
    rw [readFlags_eq_ok_iff.2 hpacked] at hread
    cases hread
    rw [ih habsorb, List.append_assoc]
  | @other record records flags hfield _ ih =>
    obtain ⟨middle, hmiddle, habsorb⟩ := Schema.absorbAll_cons_eq_ok_iff.1 habsorb
    have hsame := get_eq_of_absorb chainSchema_keeps_flags hfield hmiddle
    rw [ih habsorb, hsame]

theorem ChainDraft.exists_finish_iff (draft : ChainDraft) :
    (∃ chain, draft.finish = .ok chain)
      ↔ ∀ position : Nat, draft.flags[position]? = some true → position < 2 ^ 32 := by
  rw [← PositionSet.ofFlags_eq_ok_iff]
  unfold ChainDraft.finish
  cases PositionSet.ofFlags draft.flags <;> simp

theorem exists_readChain_iff (bytes : Bytes) :
    (∃ chain, readChain bytes = .ok chain) ↔ ChainForm bytes := by
  refine exists_bind_finish_iff_of_checks chainSchema_checks {} ?_ bytes
  intro records draft hconform habsorb
  rw [ChainDraft.exists_finish_iff]
  constructor
  · intro hfit
    obtain ⟨flags, hflags⟩ := exists_chainFlags hconform
    have hdraft : draft.flags = flags := flags_of_absorbAll hflags habsorb
    rw [hdraft] at hfit
    exact ⟨flags, hflags, hfit⟩
  · rintro ⟨flags, hflags, hfit⟩
    have hdraft : draft.flags = flags := flags_of_absorbAll hflags habsorb
    rw [hdraft]
    exact hfit

theorem responseSchema_checks : responseSchema.Checks responseFields := by
  intro number
  match number with
  | 1 => exact checks_nested _ _ exists_readRequest_iff
  | 2 => exact checks_nested _ _ exists_readChain_iff
  | 0 | _ + 3 => exact True.intro

theorem responseSchema_keeps_request (other : Nat) (field : Field ResponseDraft)
    (hother : other ≠ 1) (hfield : responseSchema other = some field) :
    field.Keeps ResponseDraft.request := by
  match other with
  | 1 => exact absurd rfl hother
  | 2 =>
    cases hfield
    exact keeps_nested _ fun _ _ => rfl
  | 0 | _ + 3 => cases hfield

theorem ResponseDraft.exists_finish_iff (draft : ResponseDraft) :
    (∃ response, draft.finish = .ok response) ↔ draft.request.isSome = true := by
  unfold ResponseDraft.finish
  cases draft.request <;> simp

theorem exists_readResponse_iff (bytes : Bytes) :
    (∃ response, readResponse bytes = .ok response) ↔ ResponseForm bytes := by
  refine exists_bind_finish_iff_of_checks responseSchema_checks {} ?_ bytes
  intro records draft hconform habsorb
  have hrequest : draft.request.isSome = true ↔ _ := isSome_absorbAll_iff rfl rfl
    (fills_nested _ fun _ _ => rfl) responseSchema_keeps_request hconform habsorb
  rw [ResponseDraft.exists_finish_iff, hrequest]
  simp

theorem batchSchema_checks : batchSchema.Checks batchFields := by
  intro number
  match number with
  | 1 => exact checks_nested _ _ exists_readResponse_iff
  | 0 | _ + 2 => exact True.intro

theorem exists_decode_iff (bytes : Bytes) : (∃ batch, decode bytes = .ok batch) ↔ BatchForm bytes :=
  exists_read_iff_of_checks batchSchema_checks {}

/-- A batch is read from exactly the byte strings that the grammar describes; from every other byte
string the outcome is that the response is malformed. -/
theorem ofBytes_accepts_exactly (bytes : Bytes) :
    ((∃ batch, Batch.ofBytes bytes = .ok batch) ↔ BatchForm bytes)
      ∧ (¬BatchForm bytes → ∃ cause, Batch.ofBytes bytes = .error (.malformed cause)) := by
  have hdecode := exists_decode_iff bytes
  unfold Batch.ofBytes
  cases hread : decode bytes with
  | ok batch =>
    have hform : BatchForm bytes := hdecode.1 ⟨batch, hread⟩
    exact ⟨⟨fun _ => hform, fun _ => ⟨batch, rfl⟩⟩, fun hnot => absurd hform hnot⟩
  | error fault =>
    have hnot : ¬BatchForm bytes := by
      intro hform
      obtain ⟨batch, hbatch⟩ := hdecode.2 hform
      rw [hread] at hbatch
      cases hbatch
    refine ⟨⟨?_, fun hform => absurd hform hnot⟩, fun _ => ⟨.wire fault, rfl⟩⟩
    rintro ⟨batch, hbatch⟩
    cases hbatch

end AttemptLedger.Wire
