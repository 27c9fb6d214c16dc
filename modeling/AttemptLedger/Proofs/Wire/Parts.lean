import AttemptLedger.Proofs.Wire.Acceptance
import AttemptLedger.Proofs.Wire.Commuting
import AttemptLedger.Proofs.Wire.Edits
import AttemptLedger.Proofs.Wire.Written

/-!
# The parts that fields play

The seven messages as one family: what is read of each, from which draft, by which schema and to which
value. Every field does to a draft what its part says: a singular field undoes what an earlier record
of it did, a written default leaves the first draft alone, and of a message only what is read from it
counts.
-/

namespace AttemptLedger.Wire

def Overwrites {σ α : Type} (put : α → σ → σ) : Prop := ∀ a b s, put b (put a s) = put b s

namespace Kind

def Draft : Kind → Type
  | batch => Batch
  | response => ResponseDraft
  | request => Request
  | chain => ChainDraft
  | attempt => AttemptDraft
  | fuzzyTest => FuzzyTest
  | unitTest => UnitTest

def Value : Kind → Type
  | batch => Batch
  | response => Response
  | request => Request
  | chain => Chain
  | attempt => Attempt
  | fuzzyTest => FuzzyTest
  | unitTest => UnitTest

def schema : (kind : Kind) → Schema kind.Draft
  | batch => batchSchema
  | response => responseSchema
  | request => requestSchema
  | chain => chainSchema
  | attempt => attemptSchema
  | fuzzyTest => fuzzyTestSchema
  | unitTest => unitTestSchema

def start : (kind : Kind) → kind.Draft
  | batch => ({} : Batch)
  | response => ({} : ResponseDraft)
  | request => ({} : Request)
  | chain => ({} : ChainDraft)
  | attempt => ({} : AttemptDraft)
  | fuzzyTest => ({} : FuzzyTest)
  | unitTest => ({} : UnitTest)

def finish : (kind : Kind) → kind.Draft → Except Fault kind.Value
  | response => ResponseDraft.finish
  | chain => ChainDraft.finish
  | attempt => AttemptDraft.finish
  | batch | request | fuzzyTest | unitTest => .ok

def read : (kind : Kind) → Bytes → Except Fault kind.Value
  | batch => decode
  | response => readResponse
  | request => readRequest
  | chain => readChain
  | attempt => readAttempt
  | fuzzyTest => readFuzzyTest
  | unitTest => readUnitTest

theorem read_eq (kind : Kind) (bytes : Bytes) :
    kind.read bytes = (kind.schema.read kind.start bytes).bind kind.finish := by
  have hplain : ∀ {α : Type} (outcome : Except Fault α), outcome = outcome.bind .ok := by
    intro α outcome
    cases outcome <;> rfl
  cases kind with
  | response | chain | attempt => rfl
  | batch | request | fuzzyTest | unitTest => exact hplain _

theorem exists_read_iff (kind : Kind) (bytes : Bytes) :
    (∃ value, kind.read bytes = .ok value) ↔ kind.Form bytes := by
  cases kind with
  | batch => exact exists_decode_iff bytes
  | response => exact exists_readResponse_iff bytes
  | request => exact exists_readRequest_iff bytes
  | chain => exact exists_readChain_iff bytes
  | attempt => exact exists_readAttempt_iff bytes
  | fuzzyTest => exact exists_readFuzzyTest_iff bytes
  | unitTest => exact exists_readUnitTest_iff bytes

end Kind

section

variable {σ : Type}

/-- What the field of a part does to drafts, of which `start` is the one before any record. -/
def Field.Plays (field : Field σ) (start : σ) : Part → Prop
  | .id => ∃ label put, field = .int label put ∧ Overwrites put
  | .int => ∃ label put, field = .int label put ∧ Overwrites put ∧ put 0 start = start
  | .flag => ∃ label put, field = .flag label put ∧ Overwrites put ∧ put false start = start
  | .text => ∃ label put, field = .text label put ∧ Overwrites put ∧ put "" start = start
  | .optionalText => ∃ label put, field = .text label put ∧ Overwrites put
  | .single kind => ∃ label put, field = .nested label kind.read put ∧ Overwrites put
  | .list kind => ∃ put : kind.Value → σ → σ,
      ∀ body s, field.absorb (.bytes body) s = (kind.read body).map (put · s)
  | .flags => True

theorem absorb_number_overwrites {label : String} {put : UInt64 → σ → σ} (hput : Overwrites put)
    {first last : Payload} (hfirst : Content.number.Admits first)
    (hlast : Content.number.Admits last) {s middle t u : σ}
    (halone : (Field.number label put).absorb last s = .ok t)
    (hbefore : (Field.number label put).absorb first s = .ok middle)
    (hafter : (Field.number label put).absorb last middle = .ok u) : u = t := by
  cases hfirst
  cases hlast
  cases halone
  cases hbefore
  cases hafter
  exact hput _ _ s

theorem absorb_nested_overwrites {α : Type} {label : String} {read : Bytes → Except Fault α}
    {put : α → σ → σ} (hput : Overwrites put) {first last : Bytes} {s middle t u : σ}
    (halone : (Field.nested label read put).absorb (.bytes last) s = .ok t)
    (hbefore : (Field.nested label read put).absorb (.bytes first) s = .ok middle)
    (hafter : (Field.nested label read put).absorb (.bytes last) middle = .ok u) : u = t := by
  obtain ⟨a, _, rfl⟩ := map_eq_ok_iff.1 hbefore
  obtain ⟨b, hb, rfl⟩ := map_eq_ok_iff.1 halone
  obtain ⟨c, hc, rfl⟩ := map_eq_ok_iff.1 hafter
  rw [hb] at hc
  cases hc
  exact hput a b s

namespace Field.Plays

variable {field : Field σ} {start : σ} {part : Part}

/-- A record of a singular field undoes what an earlier one of the field did. -/
theorem absorb_last (h : field.Plays start part) (hsingular : part.IsSingular)
    {first last : Payload} (hfirst : part.content.Admits first) (hlast : part.content.Admits last)
    {s middle t u : σ} (halone : field.absorb last s = .ok t)
    (hbefore : field.absorb first s = .ok middle) (hafter : field.absorb last middle = .ok u) :
    u = t := by
  cases part with
  | id =>
    obtain ⟨label, put, rfl, hput⟩ := h
    exact absorb_number_overwrites (fun _ _ => hput _ _) hfirst hlast halone hbefore hafter
  | int | flag =>
    obtain ⟨label, put, rfl, hput, _⟩ := h
    exact absorb_number_overwrites (fun _ _ => hput _ _) hfirst hlast halone hbefore hafter
  | text =>
    obtain ⟨label, put, rfl, hput, _⟩ := h
    cases hfirst
    cases hlast
    exact absorb_nested_overwrites hput halone hbefore hafter
  | optionalText =>
    obtain ⟨label, put, rfl, hput⟩ := h
    cases hfirst
    cases hlast
    exact absorb_nested_overwrites hput halone hbefore hafter
  | single kind =>
    obtain ⟨label, put, rfl, hput⟩ := h
    cases hfirst
    cases hlast
    exact absorb_nested_overwrites hput halone hbefore hafter
  | list kind | flags => exact hsingular.elim

theorem absorb_default (h : field.Plays start part) {payload : Payload}
    (hdefault : part.default? = some payload) : field.absorb payload start = .ok start := by
  cases part with
  | int | flag =>
    obtain ⟨label, put, rfl, _, hstart⟩ := h
    cases hdefault
    exact congrArg Except.ok hstart
  | text =>
    obtain ⟨label, put, rfl, _, hstart⟩ := h
    cases hdefault
    show (textOfBytes (Text.Utf8.encode "")).map (put · start) = .ok start
    rw [textOfBytes_encode]
    exact congrArg Except.ok hstart
  | id | optionalText | single kind | list kind | flags => cases hdefault

theorem absorb_truth (h : field.Plays start .flag) {value other : UInt64} (hvalue : value ≠ 0)
    (hother : other ≠ 0) (s : σ) :
    field.absorb (.number other) s = field.absorb (.number value) s := by
  obtain ⟨label, put, rfl, _⟩ := h
  have hsame : (other != 0) = (value != 0) := by
    rw [bne_iff_ne.2 hother, bne_iff_ne.2 hvalue]
  show Except.ok (put (other != 0) s) = Except.ok (put (value != 0) s)
  rw [hsame]

/-- What a field takes in of a message is what is read from it. -/
theorem absorb_message (h : field.Plays start part) {inner : Kind}
    (hmessage : part.message? = some inner) {body edited : Bytes}
    (hread : inner.read edited = inner.read body) (s : σ) :
    field.absorb (.bytes edited) s = field.absorb (.bytes body) s := by
  cases part with
  | single kind =>
    obtain ⟨label, put, rfl, _⟩ := h
    cases hmessage
    exact congrArg (Except.map (put · s)) hread
  | list kind =>
    obtain ⟨put, hput⟩ := h
    cases hmessage
    rw [hput, hput, hread]
  | id | int | flag | text | optionalText | flags => cases hmessage

end Field.Plays

end

theorem Kind.exists_plays {kind : Kind} {number : Nat} {part : Part}
    (h : kind.part number = some part) :
    ∃ field, kind.schema number = some field ∧ field.Plays kind.start part := by
  cases kind with
  | batch =>
    match number with
    | 1 =>
      cases h
      exact ⟨_, rfl, _, fun _ _ => rfl⟩
    | 0 | _ + 2 => cases h
  | response =>
    match number with
    | 1 =>
      cases h
      exact ⟨_, rfl, _, _, rfl, fun _ _ _ => rfl⟩
    | 2 =>
      cases h
      exact ⟨_, rfl, _, fun _ _ => rfl⟩
    | 0 | _ + 3 => cases h
  | request =>
    match number with
    | 1 | 2 | 3 | 4 =>
      cases h
      exact ⟨_, rfl, _, _, rfl, fun _ _ _ => rfl, rfl⟩
    | 0 | _ + 5 => cases h
  | chain =>
    match number with
    | 1 =>
      cases h
      exact ⟨_, rfl, _, fun _ _ => rfl⟩
    | 2 =>
      cases h
      exact ⟨_, rfl, True.intro⟩
    | 0 | _ + 3 => cases h
  | attempt =>
    match number with
    | 1 | 2 =>
      cases h
      exact ⟨_, rfl, _, _, rfl, fun _ _ _ => rfl⟩
    | 3 | 4 | 5 | 6 | 7 | 8 | 11 | 12 | 13 | 14 | 15 | 16 =>
      cases h
      exact ⟨_, rfl, _, _, rfl, fun _ _ _ => rfl, rfl⟩
    | 9 | 10 =>
      cases h
      exact ⟨_, rfl, _, fun _ _ => rfl⟩
    | 0 | _ + 17 => cases h
  | fuzzyTest =>
    match number with
    | 1 | 2 | 4 | 5 =>
      cases h
      exact ⟨_, rfl, _, _, rfl, fun _ _ _ => rfl, rfl⟩
    | 3 =>
      cases h
      exact ⟨_, rfl, _, _, rfl, fun _ _ _ => rfl⟩
    | 0 | _ + 6 => cases h
  | unitTest =>
    match number with
    | 1 | 3 | 4 =>
      cases h
      exact ⟨_, rfl, _, _, rfl, fun _ _ _ => rfl, rfl⟩
    | 2 =>
      cases h
      exact ⟨_, rfl, _, _, rfl, fun _ _ _ => rfl⟩
    | 0 | _ + 5 => cases h

theorem Kind.schema_commutes (kind : Kind) : kind.schema.Commutes := by
  cases kind with
  | batch => exact batchSchema_commutes
  | response => exact responseSchema_commutes
  | request => exact requestSchema_commutes
  | chain => exact chainSchema_commutes
  | attempt => exact attemptSchema_commutes
  | fuzzyTest => exact fuzzyTestSchema_commutes
  | unitTest => exact unitTestSchema_commutes

theorem Kind.fields_attempt : Kind.attempt.fields = attemptFields := by
  funext number
  match number with
  | 0 | 1 | 2 | 3 | 4 | 5 | 6 | 7 | 8 | 9 | 10 | 11 | 12 | 13 | 14 | 15 | 16 | _ + 17 => rfl

theorem Kind.schema_checks (kind : Kind) : kind.schema.Checks kind.fields := by
  intro number
  cases kind with
  | batch =>
    have h := batchSchema_checks number
    match number, h with
    | 0, h | 1, h | _ + 2, h => exact h
  | response =>
    have h := responseSchema_checks number
    match number, h with
    | 0, h | 1, h | 2, h | _ + 3, h => exact h
  | request =>
    have h := requestSchema_checks number
    match number, h with
    | 0, h | 1, h | 2, h | 3, h | 4, h | _ + 5, h => exact h
  | chain =>
    have h := chainSchema_checks number
    match number, h with
    | 0, h | 1, h | 2, h | _ + 3, h => exact h
  | attempt =>
    rw [fields_attempt]
    exact attemptSchema_checks number
  | fuzzyTest =>
    have h := fuzzyTestSchema_checks number
    match number, h with
    | 0, h | 1, h | 2, h | 3, h | 4, h | 5, h | _ + 6, h => exact h
  | unitTest =>
    have h := unitTestSchema_checks number
    match number, h with
    | 0, h | 1, h | 2, h | 3, h | 4, h | _ + 5, h => exact h

theorem Kind.read_eq_ok_iff {kind : Kind} {bytes : Bytes} {value : kind.Value} :
    kind.read bytes = .ok value
      ↔ ∃ records draft, Records bytes records ∧ Conform kind.fields records
        ∧ kind.schema.absorbAll records kind.start = .ok draft ∧ kind.finish draft = .ok value := by
  rw [kind.read_eq, bind_eq_ok_iff]
  constructor
  · rintro ⟨draft, hread, hfinish⟩
    obtain ⟨records, hrecords, hrefusal, habsorb⟩ := Schema.read_eq_ok_iff.1 hread
    have hconform := (absorbAll_iff_of_checks kind.schema_checks hrecords kind.start).1
      ⟨hrefusal, draft, habsorb⟩
    exact ⟨records, draft, hrecords, hconform, habsorb, hfinish⟩
  · rintro ⟨records, draft, hrecords, hconform, habsorb, hfinish⟩
    obtain ⟨hrefusal, _⟩ :=
      (absorbAll_iff_of_checks kind.schema_checks hrecords kind.start).2 hconform
    exact ⟨draft, Schema.read_eq_ok_iff.2 ⟨records, hrecords, hrefusal, habsorb⟩, hfinish⟩

end AttemptLedger.Wire
