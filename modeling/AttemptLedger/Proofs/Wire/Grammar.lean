import AttemptLedger.Proofs.Outcome
import AttemptLedger.Proofs.Text.Utf8
import AttemptLedger.Proofs.Wire.Record

/-!
# The grammar of the binary form

A message is a byte string that can be cut into records such that every field it knows holds what the
field is for, and that has the records it requires. The seven messages are described without the
reader; a batch can be read from exactly the byte strings that are described, and every other byte
string is refused as malformed.
-/

namespace AttemptLedger.Wire

inductive Content
  | number
  | text
  | message (form : Bytes → Prop)
  | flags

/-- The payloads that a field may have. Text is UTF-8, and flags stand alone or packed together. -/
inductive Content.Admits : Content → Payload → Prop
  | number {value : UInt64} : Admits .number (.number value)
  | text {text : String} : Admits .text (.bytes (Text.Utf8.encode text))
  | message {form : Bytes → Prop} {body : Bytes} : form body → Admits (.message form) (.bytes body)
  | flag {value : UInt64} : Admits .flags (.number value)
  | packed {body : Bytes} {flags : List Bool} : PackedFlags body flags → Admits .flags (.bytes body)

abbrev Fields := Nat → Option Content

/-- Whether all records of known fields have payloads that the fields may have. -/
def Conform (fields : Fields) (records : List Record) : Prop :=
  ∀ record ∈ records, ∀ content, fields record.tag.field = some content →
    content.Admits record.payload

def Has (number : Nat) (records : List Record) : Prop :=
  ∃ record ∈ records, record.tag.field = number

def fuzzyTestFields : Fields
  | 1 | 2 | 3 | 5 => some .text
  | 4 => some .number
  | _ => none

def unitTestFields : Fields
  | 1 | 2 | 4 => some .text
  | 3 => some .number
  | _ => none

def requestFields : Fields
  | 1 | 2 | 3 | 4 => some .text
  | _ => none

/-- A message of fields none of which is required. -/
def Message (fields : Fields) (bytes : Bytes) : Prop :=
  ∃ records, Records bytes records ∧ Conform fields records

def attemptFields : Fields
  | 1 | 2 | 5 | 13 | 14 | 15 | 16 => some .number
  | 3 | 4 | 6 | 7 | 8 | 11 | 12 => some .text
  | 9 => some (.message (Message fuzzyTestFields))
  | 10 => some (.message (Message unitTestFields))
  | _ => none

/-- An attempt: its id and its parent's id are required. -/
def AttemptForm (bytes : Bytes) : Prop :=
  ∃ records, Records bytes records ∧ Conform attemptFields records ∧ Has 1 records ∧ Has 2 records

def chainFields : Fields
  | 1 => some (.message AttemptForm)
  | 2 => some .flags
  | _ => none

/-- The flags of a chain in the order of its records. -/
inductive ChainFlags : List Record → List Bool → Prop
  | nil : ChainFlags [] []
  | flag {tag : Tag} {value : UInt64} {records : List Record} {flags : List Bool} :
      tag.field = 2 → ChainFlags records flags →
      ChainFlags (⟨tag, .number value⟩ :: records) ((value != 0) :: flags)
  | packed {tag : Tag} {body : Bytes} {chunk : List Bool} {records : List Record}
      {flags : List Bool} : tag.field = 2 → PackedFlags body chunk → ChainFlags records flags →
      ChainFlags (⟨tag, .bytes body⟩ :: records) (chunk ++ flags)
  | other {record : Record} {records : List Record} {flags : List Bool} :
      record.tag.field ≠ 2 → ChainFlags records flags → ChainFlags (record :: records) flags

/-- A chain: no flag is set at a position that does not fit thirty-two bits. -/
def ChainForm (bytes : Bytes) : Prop :=
  ∃ records, Records bytes records ∧ Conform chainFields records
    ∧ ∃ flags, ChainFlags records flags
      ∧ ∀ position : Nat, flags[position]? = some true → position < 2 ^ 32

def responseFields : Fields
  | 1 => some (.message (Message requestFields))
  | 2 => some (.message ChainForm)
  | _ => none

def ResponseForm (bytes : Bytes) : Prop :=
  ∃ records, Records bytes records ∧ Conform responseFields records ∧ Has 1 records

def batchFields : Fields
  | 1 => some (.message ResponseForm)
  | _ => none

def BatchForm (bytes : Bytes) : Prop := Message batchFields bytes

/-! ### Fields and schemas -/

section

variable {σ α : Type}

/-- A field takes in exactly the payloads that its content admits, whatever was read before. -/
def Field.Checks (field : Field σ) (content : Content) : Prop :=
  ∀ wireType body payload, PayloadForm wireType body payload →
    ∀ s, (field.refusal wireType = none ∧ ∃ t, field.absorb payload s = .ok t)
      ↔ content.Admits payload

theorem checks_number (label : String) (put : UInt64 → σ → σ) :
    (Field.number label put).Checks .number := by
  intro wireType body payload hpayload s
  constructor
  · rintro ⟨hrefusal, _⟩
    cases hpayload with
    | varint _ => exact .number
    | _ => cases hrefusal
  · intro hadmits
    cases hadmits
    cases hpayload
    exact ⟨rfl, _, rfl⟩

theorem checks_nested (label : String) {read : Bytes → Except Fault α} (put : α → σ → σ)
    {form : Bytes → Prop} (hread : ∀ body, (∃ value, read body = .ok value) ↔ form body) :
    (Field.nested label read put).Checks (.message form) := by
  intro wireType body payload hpayload s
  constructor
  · rintro ⟨hrefusal, t, habsorb⟩
    cases hpayload with
    | @delimited length body _ _ =>
      obtain ⟨value, hvalue, _⟩ := map_eq_ok_iff.1 habsorb
      exact .message ((hread body).1 ⟨value, hvalue⟩)
    | _ => cases hrefusal
  · intro hadmits
    cases hadmits with
    | @message _ body hform =>
      cases hpayload
      obtain ⟨value, hvalue⟩ := (hread body).2 hform
      refine ⟨rfl, put value s, ?_⟩
      show (read body).map (put · s) = _
      rw [hvalue]
      rfl

theorem checks_text (label : String) (put : String → σ → σ) :
    (Field.text label put).Checks .text := by
  have htext : ∀ body, (∃ text, textOfBytes body = .ok text)
      ↔ ∃ text, body = Text.Utf8.encode text := by
    intro body
    simp only [← Text.Utf8.decode_eq_ok_iff, textOfBytes]
    cases Text.Utf8.decode body <;> simp
  intro wireType body payload hpayload s
  rw [Field.text, checks_nested label put htext _ _ _ hpayload s]
  constructor
  · intro hadmits
    cases hadmits with
    | message h =>
      obtain ⟨text, rfl⟩ := h
      exact .text
  · intro hadmits
    cases hadmits with
    | text => exact .message ⟨_, rfl⟩

/-- A schema knows the fields that are described, and checks what they are for. -/
def Schema.Checks (schema : Schema σ) (fields : Fields) : Prop :=
  ∀ number, match schema number, fields number with
    | some field, some content => field.Checks content
    | none, none => True
    | _, _ => False

variable {schema : Schema σ} {fields : Fields}

theorem absorb_iff_of_checks (h : schema.Checks fields) {tag : Tag} {body : Bytes}
    {payload : Payload} (hpayload : PayloadForm tag.wireType body payload) (s : σ) :
    (schema.refusal tag = none ∧ ∃ t, schema.absorb ⟨tag, payload⟩ s = .ok t)
      ↔ ∀ content, fields tag.field = some content → content.Admits payload := by
  have hcheck := h tag.field
  unfold Schema.refusal Schema.absorb
  cases hfield : schema tag.field with
  | none =>
    cases hcontent : fields tag.field with
    | none =>
      constructor
      · intro _ content hsome
        cases hsome
      · intro _
        exact ⟨rfl, s, rfl⟩
    | some content =>
      rw [hfield, hcontent] at hcheck
      exact hcheck.elim
  | some field =>
    cases hcontent : fields tag.field with
    | none =>
      rw [hfield, hcontent] at hcheck
      exact hcheck.elim
    | some content =>
      rw [hfield, hcontent] at hcheck
      dsimp only [Option.bind_some]
      rw [hcheck _ _ _ hpayload s]
      constructor
      · intro hadmits other hother
        cases hother
        exact hadmits
      · intro hadmits
        exact hadmits content rfl

/-- Records are taken in to the last one exactly when all of them conform. -/
theorem absorbAll_iff_of_checks (h : schema.Checks fields) {bytes : Bytes} {records : List Record}
    (hrecords : Records bytes records) (s : σ) :
    ((∀ record ∈ records, schema.refusal record.tag = none)
        ∧ ∃ t, schema.absorbAll records s = .ok t) ↔ Conform fields records := by
  induction hrecords generalizing s with
  | nil =>
    constructor
    · intro _ record hrecord
      cases hrecord
    · intro _
      refine ⟨?_, s, rfl⟩
      intro record hrecord
      cases hrecord
  | @cons lead body rest payload records hlead hfield hbody _ ih =>
    have hhead := absorb_iff_of_checks h hbody s
    unfold Conform at ih ⊢
    rw [List.forall_mem_cons, List.forall_mem_cons, ← hhead]
    constructor
    · rintro ⟨⟨hrefusal, hrefusals⟩, t, habsorb⟩
      obtain ⟨middle, hmiddle, habsorb⟩ := Schema.absorbAll_cons_eq_ok_iff.1 habsorb
      exact ⟨⟨hrefusal, middle, hmiddle⟩, (ih middle).1 ⟨hrefusals, t, habsorb⟩⟩
    · rintro ⟨⟨hrefusal, middle, hmiddle⟩, hconform⟩
      obtain ⟨hrefusals, t, habsorb⟩ := (ih middle).2 hconform
      exact ⟨⟨hrefusal, hrefusals⟩, t,
        Schema.absorbAll_cons_eq_ok_iff.2 ⟨middle, hmiddle, habsorb⟩⟩

theorem exists_read_iff_of_checks (h : schema.Checks fields) {bytes : Bytes} (s : σ) :
    (∃ t, schema.read s bytes = .ok t) ↔ Message fields bytes := by
  constructor
  · rintro ⟨t, hread⟩
    obtain ⟨records, hrecords, hrefusal, habsorb⟩ := Schema.read_eq_ok_iff.1 hread
    exact ⟨records, hrecords, (absorbAll_iff_of_checks h hrecords s).1 ⟨hrefusal, t, habsorb⟩⟩
  · rintro ⟨records, hrecords, hconform⟩
    obtain ⟨hrefusal, t, habsorb⟩ := (absorbAll_iff_of_checks h hrecords s).2 hconform
    exact ⟨t, Schema.read_eq_ok_iff.2 ⟨records, hrecords, hrefusal, habsorb⟩⟩

/-- A message whose draft is finished at its end is read exactly when its records conform and are
enough to finish the draft. -/
theorem exists_bind_finish_iff_of_checks (h : schema.Checks fields) (s : σ)
    {finish : σ → Except Fault α} {Enough : List Record → Prop}
    (henough : ∀ records draft, Conform fields records → schema.absorbAll records s = .ok draft →
      ((∃ value, finish draft = .ok value) ↔ Enough records)) (bytes : Bytes) :
    (∃ value, (schema.read s bytes).bind finish = .ok value)
      ↔ ∃ records, Records bytes records ∧ Conform fields records ∧ Enough records := by
  constructor
  · rintro ⟨value, hvalue⟩
    obtain ⟨draft, hread, hfinish⟩ := bind_eq_ok_iff.1 hvalue
    obtain ⟨records, hrecords, hrefusal, habsorb⟩ := Schema.read_eq_ok_iff.1 hread
    have hconform := (absorbAll_iff_of_checks h hrecords s).1 ⟨hrefusal, draft, habsorb⟩
    exact ⟨records, hrecords, hconform, (henough records draft hconform habsorb).1 ⟨value, hfinish⟩⟩
  · rintro ⟨records, hrecords, hconform, hmet⟩
    obtain ⟨hrefusal, draft, habsorb⟩ := (absorbAll_iff_of_checks h hrecords s).2 hconform
    obtain ⟨value, hvalue⟩ := (henough records draft hconform habsorb).2 hmet
    have hread := Schema.read_eq_ok_iff.2 ⟨records, hrecords, hrefusal, habsorb⟩
    exact ⟨value, bind_eq_ok_iff.2 ⟨draft, hread, hvalue⟩⟩

end

end AttemptLedger.Wire
