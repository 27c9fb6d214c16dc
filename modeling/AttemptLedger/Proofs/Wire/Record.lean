import AttemptLedger.Proofs.Outcome
import AttemptLedger.Proofs.Wire.Varint
import AttemptLedger.Wire.Message

/-!
# Messages cut into records

A byte string is a sequence of records when it can be cut into tags and payloads, with nothing left
over. Reading a message succeeds exactly when there is such a cut, no tag of it is refused, and its
records can be absorbed one after the other; so messages are read piece by piece.
-/

namespace AttemptLedger.Wire

def Tag.ofWord (value : UInt64) : Tag := ⟨value.toNat / 8 % UInt32.size, .ofTag value.toNat⟩

/-- The payloads of each wire type and their bytes; the other four wire types have none. -/
inductive PayloadForm : WireType → Bytes → Payload → Prop
  | varint {bytes : Bytes} : IsVarint bytes → PayloadForm .varint bytes (.number (word bytes))
  | delimited {length body : Bytes} : IsVarint length → (word length).toNat = body.length →
      PayloadForm .delimited (length ++ body) (.bytes body)
  | fixed64 {bytes : Bytes} : bytes.length = 8 → PayloadForm .fixed64 bytes .skipped
  | fixed32 {bytes : Bytes} : bytes.length = 4 → PayloadForm .fixed32 bytes .skipped

/-- A byte string cut into records: tags of fields other than zero, each with its payload. -/
inductive Records : Bytes → List Record → Prop
  | nil : Records [] []
  | cons {lead body rest : Bytes} {payload : Payload} {records : List Record} :
      IsVarint lead → (Tag.ofWord (word lead)).field ≠ 0 →
      PayloadForm (Tag.ofWord (word lead)).wireType body payload → Records rest records →
      Records (lead ++ (body ++ rest)) (⟨.ofWord (word lead), payload⟩ :: records)

/-- A byte string cut into integers, each of which is a flag that is set unless it is zero. -/
inductive PackedFlags : Bytes → List Bool → Prop
  | nil : PackedFlags [] []
  | cons {taken rest : Bytes} {flags : List Bool} : IsVarint taken → PackedFlags rest flags →
      PackedFlags (taken ++ rest) ((word taken != 0) :: flags)

theorem Records.append {a b : Bytes} {as bs : List Record} (ha : Records a as)
    (hb : Records b bs) : Records (a ++ b) (as ++ bs) := by
  induction ha with
  | nil => exact hb
  | cons hlead hfield hbody _ ih =>
    rw [List.append_assoc, List.append_assoc]
    exact .cons hlead hfield hbody ih

namespace Cursor

theorem readVarint_eq_ok_iff {c after : Cursor} {n : UInt64} :
    c.readVarint = (.ok n, after)
      ↔ ∃ taken, IsVarint taken ∧ n = word taken
        ∧ c.rest = taken ++ after.rest ∧ after.size = c.size := by
  cases hread : Wire.readVarint c.rest with
  | mk outcome rest =>
    have hcursor : c.readVarint = (outcome, ⟨c.size, rest⟩) := by rw [readVarint, hread]
    constructor
    · intro h
      rw [hcursor] at h
      cases h
      obtain ⟨taken, htaken, hbytes, hn⟩ := Wire.readVarint_eq_ok_iff.1 hread
      exact ⟨taken, htaken, hn, hbytes, rfl⟩
    · rintro ⟨taken, htaken, rfl, hbytes, hsize⟩
      have hok := Wire.readVarint_eq_ok_iff.2 ⟨taken, htaken, hbytes, rfl⟩
      rw [readVarint, hok, ← hsize]

theorem readTag_eq_ok_iff {c after : Cursor} {tag : Tag} :
    c.readTag = (.ok tag, after)
      ↔ ∃ lead, IsVarint lead ∧ tag = .ofWord (word lead) ∧ tag.field ≠ 0
        ∧ c.rest = lead ++ after.rest ∧ after.size = c.size := by
  constructor
  · intro h
    cases hread : c.readVarint with
    | mk outcome next =>
      cases outcome with
      | error fault =>
        rw [readTag, hread] at h
        cases h
      | ok value =>
        rw [readTag, hread] at h
        dsimp only at h
        split at h
        · cases h
        · next hfield =>
          cases h
          obtain ⟨lead, hlead, rfl, hrest⟩ := readVarint_eq_ok_iff.1 hread
          exact ⟨lead, hlead, rfl, hfield, hrest⟩
  · rintro ⟨lead, hlead, rfl, hfield, hrest⟩
    have hread := readVarint_eq_ok_iff.2 ⟨lead, hlead, rfl, hrest⟩
    rw [readTag, hread]
    exact if_neg hfield

theorem take?_eq_some_append {count : Nat} {c after : Cursor} {taken : Bytes} :
    c.take? count = some (taken, after)
      ↔ taken.length = count ∧ c.rest = taken ++ after.rest ∧ after.size = c.size := by
  rw [take?_eq_some_iff]
  constructor
  · rintro ⟨hcount, rfl, rfl⟩
    refine ⟨by rw [List.length_take]; omega, ?_, rfl⟩
    exact (List.take_append_drop count c.rest).symm
  · rintro ⟨rfl, hrest, hsize⟩
    cases after
    cases hsize
    dsimp only at hrest
    rw [hrest]
    refine ⟨by rw [List.length_append]; omega, List.take_left.symm, ?_⟩
    rw [List.drop_left]

theorem readBytes_eq_ok_iff {c after : Cursor} {body : Bytes} :
    c.readBytes = (.ok body, after)
      ↔ ∃ length, IsVarint length ∧ (word length).toNat = body.length
        ∧ c.rest = length ++ body ++ after.rest ∧ after.size = c.size := by
  constructor
  · intro h
    cases hread : c.readVarint with
    | mk outcome next =>
      rw [readBytes, hread] at h
      cases outcome with
      | error fault => cases h
      | ok n =>
        obtain ⟨length, hlength, rfl, hrest, hsize⟩ := readVarint_eq_ok_iff.1 hread
        dsimp only at h
        split at h
        · next htake =>
          cases h
          obtain ⟨hcount, hnext, hnextSize⟩ := take?_eq_some_append.1 htake
          refine ⟨length, hlength, hcount.symm, ?_, hnextSize.trans hsize⟩
          rw [hrest, hnext, List.append_assoc]
        · cases h
  · rintro ⟨length, hlength, hcount, hrest, hsize⟩
    have hread : c.readVarint = (.ok (word length), ⟨c.size, body ++ after.rest⟩) :=
      readVarint_eq_ok_iff.2 ⟨length, hlength, rfl, by rw [hrest, List.append_assoc], rfl⟩
    have htake : (⟨c.size, body ++ after.rest⟩ : Cursor).take? (word length).toNat
        = some (body, after) := take?_eq_some_append.2 ⟨hcount.symm, rfl, hsize⟩
    rw [readBytes, hread]
    dsimp only
    rw [htake]

theorem skip_eq_ok_iff {count : Nat} {c after : Cursor} :
    c.skip count = (.ok (), after)
      ↔ ∃ taken, taken.length = count ∧ c.rest = taken ++ after.rest ∧ after.size = c.size := by
  unfold skip
  constructor
  · intro h
    split at h
    · next taken next htake =>
      cases h
      exact ⟨taken, take?_eq_some_append.1 htake⟩
    · cases h
  · rintro ⟨taken, htaken⟩
    rw [take?_eq_some_append.2 htaken]

theorem map_outcome_eq_ok_iff {α β : Type} {step : Except Fault α × Cursor} {f : α → β} {b : β}
    {after : Cursor} :
    (step.1.map f, step.2) = (.ok b, after) ↔ ∃ a, step = (.ok a, after) ∧ f a = b := by
  obtain ⟨outcome, rest⟩ := step
  rw [Prod.mk.injEq, map_eq_ok_iff]
  constructor
  · rintro ⟨⟨a, rfl, hb⟩, rfl⟩
    exact ⟨a, rfl, hb⟩
  · rintro ⟨a, hstep, hb⟩
    cases hstep
    exact ⟨⟨a, rfl, hb⟩, rfl⟩

theorem readPayload_eq_ok_iff {tag : Tag} {c after : Cursor} {payload : Payload} :
    c.readPayload tag = (.ok payload, after)
      ↔ ∃ body, PayloadForm tag.wireType body payload
        ∧ c.rest = body ++ after.rest ∧ after.size = c.size := by
  obtain ⟨field, wireType⟩ := tag
  constructor
  · intro h
    cases wireType with
    | varint =>
      have hstep : (c.readVarint.1.map Payload.number, c.readVarint.2) = (.ok payload, after) := h
      obtain ⟨value, hread, rfl⟩ := map_outcome_eq_ok_iff.1 hstep
      obtain ⟨taken, htaken, rfl, hrest⟩ := readVarint_eq_ok_iff.1 hread
      exact ⟨taken, .varint htaken, hrest⟩
    | delimited =>
      obtain ⟨body, hread, rfl⟩ := map_outcome_eq_ok_iff.1 h
      obtain ⟨length, hlength, hcount, hrest⟩ := readBytes_eq_ok_iff.1 hread
      exact ⟨length ++ body, .delimited hlength hcount, hrest⟩
    | fixed64 =>
      obtain ⟨_, hread, rfl⟩ := map_outcome_eq_ok_iff.1 h
      obtain ⟨taken, hcount, hrest⟩ := skip_eq_ok_iff.1 hread
      exact ⟨taken, .fixed64 hcount, hrest⟩
    | fixed32 =>
      obtain ⟨_, hread, rfl⟩ := map_outcome_eq_ok_iff.1 h
      obtain ⟨taken, hcount, hrest⟩ := skip_eq_ok_iff.1 hread
      exact ⟨taken, .fixed32 hcount, hrest⟩
    | _ => cases h
  · rintro ⟨body, hbody, hrest⟩
    cases hbody with
    | varint hvarint =>
      have hread := readVarint_eq_ok_iff.2 ⟨_, hvarint, rfl, hrest⟩
      exact map_outcome_eq_ok_iff.2 ⟨_, hread, rfl⟩
    | delimited hlength hcount =>
      have hread := readBytes_eq_ok_iff.2 ⟨_, hlength, hcount, hrest⟩
      exact map_outcome_eq_ok_iff.2 ⟨_, hread, rfl⟩
    | fixed64 hcount =>
      have hread := skip_eq_ok_iff.2 ⟨_, hcount, hrest⟩
      exact map_outcome_eq_ok_iff.2 ⟨_, hread, rfl⟩
    | fixed32 hcount =>
      have hread := skip_eq_ok_iff.2 ⟨_, hcount, hrest⟩
      exact map_outcome_eq_ok_iff.2 ⟨_, hread, rfl⟩

theorem atEnd_eq_false_of_length_lt {c after : Cursor} (h : after.rest.length < c.rest.length) :
    c.atEnd = false := by
  rw [atEnd, List.isEmpty_eq_false_iff]
  exact List.length_pos_iff.1 (Nat.zero_lt_of_lt h)

end Cursor

namespace Schema

variable {σ : Type} {schema : Schema σ}

theorem readRecord_eq_ok_iff {c after : Cursor} {record : Record} :
    schema.readRecord c = .ok (record, after)
      ↔ ∃ lead body, IsVarint lead ∧ record.tag = .ofWord (word lead) ∧ record.tag.field ≠ 0
        ∧ PayloadForm record.tag.wireType body record.payload ∧ schema.refusal record.tag = none
        ∧ c.rest = lead ++ (body ++ after.rest) ∧ after.size = c.size := by
  constructor
  · intro h
    unfold readRecord at h
    split at h
    · cases h
    · next tag c₁ htag =>
      split at h
      · cases h
      · next hrefusal =>
        split at h
        · cases h
        · next payload c₂ hpayload =>
          cases h
          obtain ⟨lead, hlead, rfl, hfield, hrest, hsize⟩ := Cursor.readTag_eq_ok_iff.1 htag
          obtain ⟨body, hbody, hrest', hsize'⟩ := Cursor.readPayload_eq_ok_iff.1 hpayload
          refine ⟨lead, body, hlead, rfl, hfield, hbody, hrefusal, ?_, hsize'.trans hsize⟩
          rw [hrest, hrest']
  · rintro ⟨lead, body, hlead, htag, hfield, hbody, hrefusal, hrest, hsize⟩
    obtain ⟨tag, payload⟩ := record
    have hread : c.readTag = (.ok tag, ⟨c.size, body ++ after.rest⟩) :=
      Cursor.readTag_eq_ok_iff.2 ⟨lead, hlead, htag, hfield, hrest, rfl⟩
    have hpayload : (⟨c.size, body ++ after.rest⟩ : Cursor).readPayload tag = (.ok payload, after) :=
      Cursor.readPayload_eq_ok_iff.2 ⟨body, hbody, rfl, hsize⟩
    unfold readRecord
    rw [hread]
    dsimp only at hrefusal ⊢
    rw [hrefusal]
    dsimp only
    rw [hpayload]

def absorbAll (schema : Schema σ) : List Record → σ → Except Fault σ
  | [], s => .ok s
  | record :: records, s =>
    match schema.absorb record s with
    | .error fault => .error fault
    | .ok s => absorbAll schema records s

theorem absorbAll_cons_eq_ok_iff {record : Record} {records : List Record} {s t : σ} :
    schema.absorbAll (record :: records) s = .ok t
      ↔ ∃ middle, schema.absorb record s = .ok middle ∧ schema.absorbAll records middle = .ok t := by
  rw [absorbAll]
  constructor
  · intro h
    cases habsorb : schema.absorb record s with
    | error fault =>
      rw [habsorb] at h
      cases h
    | ok middle =>
      rw [habsorb] at h
      exact ⟨middle, rfl, h⟩
  · rintro ⟨middle, habsorb, h⟩
    rw [habsorb]
    exact h

theorem absorbAll_singleton (record : Record) (s : σ) :
    schema.absorbAll [record] s = schema.absorb record s := by
  rw [absorbAll]
  cases schema.absorb record s <;> rfl

theorem absorbAll_append {as bs : List Record} {s t : σ} (h : schema.absorbAll as s = .ok t) :
    schema.absorbAll (as ++ bs) s = schema.absorbAll bs t := by
  induction as generalizing s with
  | nil =>
    cases h
    rfl
  | cons record as ih =>
    obtain ⟨middle, habsorb, h⟩ := absorbAll_cons_eq_ok_iff.1 h
    rw [List.cons_append, absorbAll, habsorb]
    exact ih h

theorem absorbAll_append_eq_ok_iff {as bs : List Record} {s t : σ} :
    schema.absorbAll (as ++ bs) s = .ok t
      ↔ ∃ middle, schema.absorbAll as s = .ok middle ∧ schema.absorbAll bs middle = .ok t := by
  constructor
  · intro h
    induction as generalizing s with
    | nil => exact ⟨s, rfl, h⟩
    | cons record as ih =>
      obtain ⟨first, hfirst, h⟩ := absorbAll_cons_eq_ok_iff.1 h
      obtain ⟨middle, hmiddle, h⟩ := ih h
      exact ⟨middle, absorbAll_cons_eq_ok_iff.2 ⟨first, hfirst, hmiddle⟩, h⟩
  · rintro ⟨middle, hmiddle, h⟩
    rw [absorbAll_append hmiddle, h]

/-- A record that is read and taken in is one step of reading a message. -/
theorem readFrom_step {c after : Cursor} {record : Record} {s t : σ}
    (hread : schema.readRecord c = .ok (record, after)) (habsorb : schema.absorb record s = .ok t) :
    schema.readFrom c s = schema.readFrom after t := by
  have hmore := Cursor.atEnd_eq_false_of_length_lt (readRecord_length_lt hread)
  rw [readFrom, hmore, if_neg Bool.false_ne_true]
  split
  · next hfault =>
    rw [hread] at hfault
    cases hfault
  · next hok =>
    rw [hread] at hok
    cases hok
    rw [habsorb]

theorem readFrom_of_records {bytes : Bytes} {records : List Record} (h : Records bytes records)
    (hrefusal : ∀ record ∈ records, schema.refusal record.tag = none) {s t : σ}
    (habsorb : schema.absorbAll records s = .ok t) (size : Nat) :
    schema.readFrom ⟨size, bytes⟩ s = .ok t := by
  induction h generalizing s with
  | nil =>
    cases habsorb
    rw [readFrom]
    rfl
  | @cons lead body rest payload records hlead hfield hbody _ ih =>
    obtain ⟨middle, hmiddle, habsorb⟩ := absorbAll_cons_eq_ok_iff.1 habsorb
    have hread : schema.readRecord ⟨size, lead ++ (body ++ rest)⟩
        = .ok (⟨.ofWord (word lead), payload⟩, ⟨size, rest⟩) :=
      readRecord_eq_ok_iff.2 ⟨lead, body, hlead, rfl, hfield, hbody,
        hrefusal _ (List.mem_cons_self ..), rfl, rfl⟩
    have htail := ih (fun record hrecord => hrefusal record (List.mem_cons_of_mem _ hrecord)) habsorb
    rw [readFrom_step hread hmiddle]
    exact htail

theorem records_of_readFrom {c : Cursor} {s t : σ} (h : schema.readFrom c s = .ok t) :
    ∃ records, Records c.rest records
      ∧ (∀ record ∈ records, schema.refusal record.tag = none)
      ∧ schema.absorbAll records s = .ok t := by
  -- Along the reader's own steps: the record read first goes in front of the cut of what is left.
  fun_induction readFrom schema c s with
  | case1 c s hend =>
    cases h
    have hempty : c.rest = [] := List.isEmpty_iff.1 hend
    refine ⟨[], ?_, ?_, rfl⟩
    · rw [hempty]
      exact .nil
    · intro record hrecord
      cases hrecord
  | case2 => cases h
  | case3 => cases h
  | case4 c s _ record after hread middle habsorb ih =>
    obtain ⟨records, hrecords, hrefusal, hall⟩ := ih h
    obtain ⟨lead, body, hlead, htag, hfield, hbody, hrefused, hrest, _⟩ :=
      readRecord_eq_ok_iff.1 hread
    refine ⟨record :: records, ?_, ?_, absorbAll_cons_eq_ok_iff.2 ⟨middle, habsorb, hall⟩⟩
    · obtain ⟨tag, payload⟩ := record
      dsimp only at htag hfield hbody
      subst htag
      rw [hrest]
      exact .cons hlead hfield hbody hrecords
    · intro other hother
      rcases List.mem_cons.1 hother with rfl | hother
      · exact hrefused
      · exact hrefusal other hother

/-- A message is read exactly when it can be cut into records that are all taken in. -/
theorem read_eq_ok_iff {bytes : Bytes} {s t : σ} :
    schema.read s bytes = .ok t
      ↔ ∃ records, Records bytes records
        ∧ (∀ record ∈ records, schema.refusal record.tag = none)
        ∧ schema.absorbAll records s = .ok t := by
  constructor
  · exact records_of_readFrom
  · rintro ⟨records, hrecords, hrefusal, habsorb⟩
    exact readFrom_of_records hrecords hrefusal habsorb bytes.length

theorem read_nil (s : σ) : schema.read s [] = .ok s :=
  readFrom_of_records .nil (fun _ hrecord => by cases hrecord) rfl 0

theorem read_append {a b : Bytes} {s t u : σ} (ha : schema.read s a = .ok t)
    (hb : schema.read t b = .ok u) : schema.read s (a ++ b) = .ok u := by
  obtain ⟨as, has, hrefusalA, habsorbA⟩ := read_eq_ok_iff.1 ha
  obtain ⟨bs, hbs, hrefusalB, habsorbB⟩ := read_eq_ok_iff.1 hb
  refine read_eq_ok_iff.2 ⟨as ++ bs, has.append hbs, ?_, ?_⟩
  · intro record hrecord
    rcases List.mem_append.1 hrecord with hrecord | hrecord
    · exact hrefusalA record hrecord
    · exact hrefusalB record hrecord
  · rw [absorbAll_append habsorbA]
    exact habsorbB

theorem read_record {lead body : Bytes} {payload : Payload} {field : Field σ} {s t : σ}
    (hlead : IsVarint lead) (hnumber : (Tag.ofWord (word lead)).field ≠ 0)
    (hbody : PayloadForm (Tag.ofWord (word lead)).wireType body payload)
    (hfield : schema (Tag.ofWord (word lead)).field = some field)
    (hrefusal : field.refusal (Tag.ofWord (word lead)).wireType = none)
    (habsorb : field.absorb payload s = .ok t) : schema.read s (lead ++ body) = .ok t := by
  refine read_eq_ok_iff.2 ⟨[⟨.ofWord (word lead), payload⟩], ?_, ?_, ?_⟩
  · have h := Records.cons hlead hnumber hbody .nil
    rwa [List.append_nil] at h
  · intro record hrecord
    rw [List.mem_singleton] at hrecord
    subst hrecord
    rw [refusal, hfield]
    exact hrefusal
  · refine absorbAll_cons_eq_ok_iff.2 ⟨t, ?_, rfl⟩
    rw [absorb, hfield]
    exact habsorb

end Schema

theorem Records.cases_readRecord {bytes : Bytes} {records : List Record} (h : Records bytes records) :
    (bytes = [] ∧ records = [])
      ∨ ∃ record rest tail, records = record :: tail ∧ Records rest tail
        ∧ Schema.readRecord (fun _ => none : Schema Unit) (.ofBytes bytes)
          = .ok (record, ⟨bytes.length, rest⟩) := by
  cases h with
  | nil => exact Or.inl ⟨rfl, rfl⟩
  | cons hlead hfield hbody htail =>
    refine Or.inr ⟨_, _, _, rfl, htail, ?_⟩
    exact Schema.readRecord_eq_ok_iff.2 ⟨_, _, hlead, rfl, hfield, hbody, rfl, rfl, rfl⟩

theorem Records.of_readRecord {bytes rest : Bytes} {record : Record} {records : List Record}
    {size : Nat} (h : Schema.readRecord (fun _ => none : Schema Unit) ⟨size, bytes⟩
      = .ok (record, ⟨size, rest⟩)) (hrest : Records rest records) :
    Records bytes (record :: records) := by
  obtain ⟨tag, payload⟩ := record
  obtain ⟨lead, body, hlead, rfl, hfield, hbody, _, rfl, _⟩ := Schema.readRecord_eq_ok_iff.1 h
  exact .cons hlead hfield hbody hrest

/-- A byte string can be cut into records in one way only. -/
theorem Records.unique {bytes : Bytes} {as bs : List Record} (ha : Records bytes as)
    (hb : Records bytes bs) : as = bs := by
  -- Reading by a schema that knows no field finds the first record of either cut.
  induction ha generalizing bs with
  | nil =>
    rcases hb.cases_readRecord with ⟨_, rfl⟩ | ⟨record, rest, tail, _, _, hread⟩
    · rfl
    · cases hread
  | @cons lead body rest payload tail hlead hfield hbody htail ih =>
    have hfirst : Schema.readRecord (fun _ => none : Schema Unit) (.ofBytes (lead ++ (body ++ rest)))
        = .ok (⟨.ofWord (word lead), payload⟩, ⟨_, rest⟩) :=
      Schema.readRecord_eq_ok_iff.2 ⟨lead, body, hlead, rfl, hfield, hbody, rfl, rfl, rfl⟩
    rcases hb.cases_readRecord with ⟨hnil, _⟩ | ⟨record, after, others, rfl, hothers, hread⟩
    · rw [hnil] at hfirst
      cases hfirst
    · rw [hfirst] at hread
      cases hread
      rw [ih hothers]

theorem readFlags_step {c after : Cursor} {value : UInt64} (hread : c.readVarint = (.ok value, after)) :
    readFlags c = (readFlags after).map ((value != 0) :: ·) := by
  have hlength := Cursor.readVarint_length_lt (congrArg Prod.fst hread)
  rw [hread] at hlength
  rw [readFlags, Cursor.atEnd_eq_false_of_length_lt hlength, if_neg Bool.false_ne_true]
  split
  · next hfault =>
    rw [hread] at hfault
    cases hfault
  · next hok =>
    rw [hread] at hok
    cases hok
    rfl

theorem readFlags_of_packedFlags {bytes : Bytes} {flags : List Bool} (h : PackedFlags bytes flags)
    (size : Nat) : readFlags ⟨size, bytes⟩ = .ok flags := by
  induction h with
  | nil =>
    rw [readFlags]
    rfl
  | @cons taken rest flags htaken _ ih =>
    have hread : (⟨size, taken ++ rest⟩ : Cursor).readVarint = (.ok (word taken), ⟨size, rest⟩) :=
      Cursor.readVarint_eq_ok_iff.2 ⟨taken, htaken, rfl, rfl, rfl⟩
    rw [readFlags_step hread, ih]
    rfl

theorem packedFlags_of_readFlags {c : Cursor} {flags : List Bool} (h : readFlags c = .ok flags) :
    PackedFlags c.rest flags := by
  fun_induction readFlags c generalizing flags with
  | case1 c hend =>
    cases h
    have hempty : c.rest = [] := List.isEmpty_iff.1 hend
    rw [hempty]
    exact .nil
  | case2 => cases h
  | case3 c _ value after hread ih =>
    obtain ⟨taken, htaken, rfl, hrest, _⟩ := Cursor.readVarint_eq_ok_iff.1 hread
    obtain ⟨tail, hflags, rfl⟩ := map_eq_ok_iff.1 h
    rw [hrest]
    exact .cons htaken (ih hflags)

theorem readFlags_eq_ok_iff {bytes : Bytes} {flags : List Bool} :
    readFlags (.ofBytes bytes) = .ok flags ↔ PackedFlags bytes flags :=
  ⟨packedFlags_of_readFlags, fun h => readFlags_of_packedFlags h bytes.length⟩

end AttemptLedger.Wire
