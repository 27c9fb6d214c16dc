import AttemptLedger.Proofs.Concatenation
import AttemptLedger.Proofs.Wire.Layout

/-!
# Field numbers beyond thirty-two bits

A tag has room for a field number of sixty-one bits, of which a reader keeps the low thirty-two. So it
is what is left of its number that a record counts by: with nothing left it is refused, it is passed over
if its message knows no field of that number, and otherwise it is a record of the field that has it.
-/

namespace AttemptLedger.Wire

/-- The field number that stands in a tag, all of it. -/
def fieldNumber (lead : Bytes) : Nat := (word lead).toNat / 8

/-- The number that a reader takes a record's field to have. -/
def keptNumber (lead : Bytes) : Nat := fieldNumber lead % 2 ^ 32

/-- A tag and a payload of its wire type. -/
def IsRecord (lead body : Bytes) : Prop :=
  IsVarint lead ∧ ∃ payload, PayloadForm (.ofTag (word lead).toNat) body payload

/-- Two messages that are alike but for one place in a message of kind `place`, the message itself or
one inside it: behind some records of that message, the first has `old` where the second has `new`. The
lengths around the place are those of what they hold. -/
inductive Differs (place : Kind) (old new : Bytes) : Kind → Bytes → Bytes → Prop
  | here {front back : Bytes} {fronts : List Record} : Records front fronts →
      Differs place old new place (front ++ (old ++ back)) (front ++ (new ++ back))
  | inside {kind inner : Kind} {front before after back : Bytes} {fronts : List Record} {tag : Tag}
      {body edited : Bytes} {part : Part} :
      Records front fronts → Records before [⟨tag, .bytes body⟩] →
      Records after [⟨tag, .bytes edited⟩] → kind.part tag.field = some part →
      part.message? = some inner → Differs place old new inner body edited →
      Differs place old new kind (front ++ (before ++ back)) (front ++ (after ++ back))

/-! ### Messages and what is behind their first records -/

theorem exists_backs_of_read {kind : Kind} {front middle back : Bytes} {fronts middles : List Record}
    (hfront : Records front fronts) (hmiddle : Records middle middles) {value : kind.Value}
    (hread : kind.read (front ++ (middle ++ back)) = .ok value) :
    ∃ backs, Records back backs ∧ Conform kind.fields middles := by
  obtain ⟨records, -, hrecords, hconform, -⟩ := Kind.read_eq_ok_iff.1 hread
  obtain ⟨rests, hrests, rfl⟩ := hfront.append_inv hrecords
  obtain ⟨backs, hbacks, rfl⟩ := hmiddle.append_inv hrests
  have hrest := (List.forall_mem_append.1 hconform).2
  exact ⟨backs, hbacks, (List.forall_mem_append.1 hrest).1⟩

/-- Records may be put in place of others whatever is behind them, where they conform and do the same. -/
theorem read_of_agree {kind : Kind} {front old new back : Bytes} {fronts olds news : List Record}
    (hfront : Records front fronts) (hold : Records old olds) (hnew : Records new news)
    (hconform : Conform kind.fields olds → Conform kind.fields news)
    (hagree : kind.schema.Agree olds news) {value : kind.Value}
    (hread : kind.read (front ++ (old ++ back)) = .ok value) :
    kind.read (front ++ (new ++ back)) = .ok value := by
  obtain ⟨backs, hbacks, -⟩ := exists_backs_of_read hfront hold hread
  refine read_replaced hfront hold hnew hbacks hconform (fun _ _ t u ht hu => ?_) hread
  rw [Schema.absorbAll_frame hagree fronts backs kind.start t u ht hu]

namespace Differs

variable {place kind : Kind} {old new before after : Bytes}

theorem symm (h : Differs place old new kind before after) :
    Differs place new old kind after before := by
  induction h with
  | here hfront => exact .here hfront
  | inside hfront hbefore hafter hpart hmessage _ ih =>
    exact .inside hfront hafter hbefore hpart hmessage ih

/-- What is read of messages that differ at their outermost place only is read at any depth. -/
theorem read_of_here (h : Differs place old new kind before after)
    (hhere : ∀ {front back : Bytes} {fronts : List Record}, Records front fronts → ∀ value,
      place.read (front ++ (old ++ back)) = .ok value → place.read (front ++ (new ++ back)) = .ok value)
    {value : kind.Value} (hread : kind.read before = .ok value) : kind.read after = .ok value := by
  -- The induction is on the depth of the place.
  induction h with
  | here hfront => exact hhere hfront value hread
  | inside hfront hbefore hafter hpart hmessage _ ih =>
    obtain ⟨_, hbacks, -⟩ := exists_backs_of_read hfront hbefore hread
    exact read_of_inside hfront hbefore hafter hbacks hpart hmessage (fun _ => ih) hread

/-- A message can be read only if the message with the place in it can. -/
theorem exists_read_here (h : Differs place old new kind before after) {value : kind.Value}
    (hread : kind.read after = .ok value) :
    ∃ front back fronts value, Records front fronts
      ∧ place.read (front ++ (new ++ back)) = .ok value := by
  induction h with
  | here hfront => exact ⟨_, _, _, value, hfront, hread⟩
  | inside hfront _ hafter hpart hmessage _ ih =>
    obtain ⟨_, -, hconform⟩ := exists_backs_of_read hfront hafter hread
    obtain ⟨_, hinner⟩ := exists_read_of_conform hpart hmessage hconform
    exact ih hinner

end Differs

/-! ### Records by what is kept of their numbers -/

theorem field_ofWord (lead : Bytes) : (Tag.ofWord (word lead)).field = keptNumber lead := rfl

theorem records_of_kept {lead body : Bytes} {payload : Payload} (hlead : IsVarint lead)
    (hkept : keptNumber lead ≠ 0) (hpayload : PayloadForm (.ofTag (word lead).toNat) body payload) :
    Records (lead ++ body) [⟨.ofWord (word lead), payload⟩] := by
  have hrecord := Records.cons hlead (by rwa [field_ofWord]) hpayload .nil
  rwa [List.append_nil] at hrecord

/-- No byte string with a tag of field zero can be cut into records. -/
theorem not_records_of_kept_zero {lead rest : Bytes} (hlead : IsVarint lead) (hkept : keptNumber lead = 0)
    (records : List Record) : ¬Records (lead ++ rest) records := by
  intro h
  -- The reader looks at the kept number only, after it has read the tag as a whole.
  have hvarint : (Cursor.ofBytes (lead ++ rest)).readVarint
      = (.ok (word lead), ⟨(lead ++ rest).length, rest⟩) :=
    Cursor.readVarint_eq_ok_iff.2 ⟨lead, hlead, rfl, rfl, rfl⟩
  have hzero : (word lead).toNat / 8 % UInt32.size = 0 := hkept
  have htag : (Cursor.ofBytes (lead ++ rest)).readTag
      = (.error .fieldZero, ⟨(lead ++ rest).length, rest⟩) := by
    rw [Cursor.readTag, hvarint]
    exact if_pos hzero
  rcases h.cases_readRecord with ⟨hnil, -⟩ | ⟨record, after, tail, -, -, hread⟩
  · obtain ⟨groups, last, rfl, -⟩ := hlead
    simp at hnil
  · rw [Schema.readRecord, htag] at hread
    cases hread

section

variable {place kind : Kind} {lead body before after : Bytes}

theorem read_of_kept_zero (h : IsRecord lead body) (hkept : keptNumber lead = 0)
    (hadded : Differs place [] (lead ++ body) kind before after) : ∃ fault, kind.read after = .error fault := by
  cases hread : kind.read after with
  | error fault => exact ⟨fault, rfl⟩
  | ok value =>
    obtain ⟨front, back, fronts, value, hfront, hread⟩ := hadded.exists_read_here hread
    obtain ⟨records, -, hrecords, -⟩ := Kind.read_eq_ok_iff.1 hread
    obtain ⟨rests, hrests, -⟩ := hfront.append_inv hrecords
    rw [List.append_assoc] at hrests
    exact absurd hrests (not_records_of_kept_zero h.1 hkept rests)

theorem read_of_kept_unknown (h : IsRecord lead body) (hkept : keptNumber lead ≠ 0)
    (hunknown : place.part (keptNumber lead) = none)
    (hadded : Differs place [] (lead ++ body) kind before after) (value : kind.Value) :
    kind.read after = .ok value ↔ kind.read before = .ok value := by
  obtain ⟨hlead, payload, hpayload⟩ := h
  have hrecord := records_of_kept hlead hkept hpayload
  have hagree : place.schema.Agree [] [⟨.ofWord (word lead), payload⟩] := agree_unknown hunknown
  constructor
  · refine hadded.symm.read_of_here fun hfront value hread => ?_
    exact read_of_agree hfront hrecord .nil (fun _ _ hmem => by cases hmem)
      (fun s t u ht hu => (hagree s u t hu ht).symm) hread
  · refine hadded.read_of_here fun hfront value hread => ?_
    refine read_of_agree hfront .nil hrecord (fun _ => ?_) hagree hread
    refine List.forall_mem_singleton.2 fun content hcontent => ?_
    rw [field_ofWord, Kind.fields, hunknown] at hcontent
    cases hcontent

/-- Records of one kept number, wire type and payload are read alike. -/
theorem read_of_kept_eq {known : Bytes} (h : IsRecord lead body) (hkept : keptNumber lead ≠ 0)
    (hknown : IsVarint known) (hnumber : keptNumber known = keptNumber lead)
    (htype : WireType.ofTag (word known).toNat = .ofTag (word lead).toNat)
    (hdiffers : Differs place (known ++ body) (lead ++ body) kind before after) (value : kind.Value) :
    kind.read after = .ok value ↔ kind.read before = .ok value := by
  have htag : Tag.ofWord (word known) = .ofWord (word lead) := by
    rw [Tag.ofWord, Tag.ofWord, htype]
    exact congrArg (Tag.mk · _) hnumber
  obtain ⟨hlead, payload, hpayload⟩ := h
  have hrecord := records_of_kept hlead hkept hpayload
  rw [← hnumber] at hkept
  rw [← htype] at hpayload
  have hother := records_of_kept hknown hkept hpayload
  rw [htag] at hother
  have hsame : place.schema.Agree [⟨.ofWord (word lead), payload⟩] [⟨.ofWord (word lead), payload⟩] :=
    fun s t u ht hu => Except.ok.inj (hu.symm.trans ht)
  constructor
  · exact hdiffers.symm.read_of_here fun hfront value => read_of_agree hfront hrecord hother id hsame
  · exact hdiffers.read_of_here fun hfront value => read_of_agree hfront hother hrecord id hsame

end

/-- A record of any field number, added to a message at any depth. Nothing is read any more if nothing is
kept of the number; the same is read as before if the message knows no field of the kept number; and
if something is kept, that number might as well stand in the tag. So a batch is malformed or unchanged
by the record wherever the kept number is unknown, as it is of all unknown numbers of thirty-two
bits. -/
theorem read_of_added_record {place : Kind} {lead body : Bytes} (h : IsRecord lead body) :
    (keptNumber lead = 0 →
        ∀ kind before after, Differs place [] (lead ++ body) kind before after →
          ∃ fault, kind.read after = .error fault)
      ∧ (keptNumber lead ≠ 0 → place.part (keptNumber lead) = none →
        ∀ kind before after, Differs place [] (lead ++ body) kind before after →
          ∀ value, kind.read after = .ok value ↔ kind.read before = .ok value)
      ∧ (keptNumber lead ≠ 0 →
        ∀ known, IsVarint known → fieldNumber known = keptNumber lead →
          WireType.ofTag (word known).toNat = .ofTag (word lead).toNat →
          ∀ kind before after, Differs place (known ++ body) (lead ++ body) kind before after →
            ∀ value, kind.read after = .ok value ↔ kind.read before = .ok value)
      ∧ (place.part (keptNumber lead) = none →
        ∀ before after, Differs place [] (lead ++ body) .batch before after →
          (∃ cause, Batch.ofBytes after = .error (.malformed cause))
            ∨ Batch.ofBytes after = Batch.ofBytes before) := by
  refine ⟨fun hkept _ _ _ => read_of_kept_zero h hkept,
    fun hkept hunknown _ _ _ => read_of_kept_unknown h hkept hunknown, ?_, ?_⟩
  · intro hkept known hknown hnumber htype kind before after hdiffers
    have hsmall : keptNumber lead < 2 ^ 32 := Nat.mod_lt _ (by decide)
    have hsame : keptNumber known = keptNumber lead := by
      rw [keptNumber, hnumber, Nat.mod_eq_of_lt hsmall]
    exact read_of_kept_eq h hkept hknown hsame htype hdiffers
  · intro hunknown before after hadded
    by_cases hread : ∃ batch, Batch.ofBytes after = .ok batch
    · obtain ⟨batch, hread⟩ := hread
      have hafter : Kind.batch.read after = .ok batch := Batch.ofBytes_eq_ok_iff.1 hread
      by_cases hkept : keptNumber lead = 0
      · obtain ⟨fault, hfault⟩ := read_of_kept_zero h hkept hadded
        rw [hfault] at hafter
        cases hafter
      · have hbefore := (read_of_kept_unknown h hkept hunknown hadded batch).1 hafter
        exact .inr (hread.trans (Batch.ofBytes_eq_ok_iff.2 hbefore).symm)
    · exact .inl (Batch.malformed_of_ofBytes_ne_ok fun batch hbatch => hread ⟨batch, hbatch⟩)

/-- A record of the field 2^32 + 9, of which 9 is kept, in the request of a response of a batch. -/
theorem read_of_added_record_in_request :
    let lead : Bytes := [0xc8, 0x80, 0x80, 0x80, 0x80, 0x01]
    let before : Bytes := [0x0a, 0x07, 0x0a, 0x03, 0x0a, 0x01, 0x61, 0x12, 0x00]
    let after : Bytes :=
      [0x0a, 0x0e, 0x0a, 0x0a, 0x0a, 0x01, 0x61, 0xc8, 0x80, 0x80, 0x80, 0x80, 0x01, 0x05, 0x12, 0x00]
    IsRecord lead [0x05] ∧ fieldNumber lead = 2 ^ 32 + 9 ∧ keptNumber lead = 9
      ∧ Kind.request.part 9 = none ∧ Differs .request [] (lead ++ [0x05]) .batch before after
      ∧ decode after = .ok ⟨[⟨{ id := "a" }, [{}]⟩]⟩ ∧ Batch.ofBytes after = Batch.ofBytes before := by
  intro lead before after
  have hcut : ∀ {record : Record} (bytes : Bytes),
      Schema.readRecord (fun _ => none : Schema Unit) ⟨0, bytes⟩ = .ok (record, ⟨0, []⟩) →
      Records bytes [record] := fun _ hread => .of_readRecord hread .nil
  have htype : WireType.ofTag (word lead).toNat = .varint := by decide +kernel
  have hrecord : IsRecord lead [0x05] := by
    refine ⟨⟨[0xc8, 0x80, 0x80, 0x80, 0x80], 0x01, rfl, by decide, by simp, by decide⟩, ?_⟩
    rw [htype]
    exact ⟨_, .varint (isGroups_singleton (by decide))⟩
  have hkept : keptNumber lead = 9 := by decide +kernel
  have hrequest : Differs .request [] (lead ++ [0x05]) .request
      ([0x0a, 0x01, 0x61] ++ ([] ++ [])) ([0x0a, 0x01, 0x61] ++ ((lead ++ [0x05]) ++ [])) :=
    .here (hcut [0x0a, 0x01, 0x61] rfl)
  have hresponse : Differs .request [] (lead ++ [0x05]) .response
      ([] ++ ([0x0a, 0x03, 0x0a, 0x01, 0x61] ++ [0x12, 0x00]))
      ([] ++ ([0x0a, 0x0a, 0x0a, 0x01, 0x61, 0xc8, 0x80, 0x80, 0x80, 0x80, 0x01, 0x05] ++ [0x12, 0x00])) :=
    .inside .nil (hcut _ rfl) (hcut _ rfl) rfl rfl hrequest
  have hbatch : Differs .request [] (lead ++ [0x05]) .batch ([] ++ (before ++ [])) ([] ++ (after ++ [])) :=
    .inside .nil (hcut before rfl) (hcut after rfl) rfl rfl hresponse
  obtain ⟨-, hsame, -, hwhole⟩ := @read_of_added_record .request _ _ hrecord
  rw [hkept] at hsame hwhole
  have hbefore : decode before = .ok ⟨[⟨{ id := "a" }, [{}]⟩]⟩ := by decide +kernel
  have hafter := (hsame (by decide) rfl .batch before after hbatch _).2 hbefore
  refine ⟨hrecord, by decide +kernel, hkept, rfl, hbatch, hafter, ?_⟩
  rcases hwhole rfl before after hbatch with ⟨cause, hfault⟩ | hequal
  · rw [Batch.ofBytes_eq_ok_iff.2 hafter] at hfault
    cases hfault
  · exact hequal

/-- A record of the unknown field 2^32 + 1 alone is read as a response. -/
theorem ofBytes_of_large_number :
    let lead : Bytes := [0x8a, 0x80, 0x80, 0x80, 0x80, 0x01]
    let body : Bytes := [0x02, 0x0a, 0x00]
    IsRecord lead body ∧ fieldNumber lead = 2 ^ 32 + 1 ∧ Kind.batch.part (fieldNumber lead) = none
      ∧ Differs .batch [] (lead ++ body) .batch [] (lead ++ body)
      ∧ Batch.ofBytes [] = .ok ⟨[]⟩ ∧ Batch.ofBytes (lead ++ body) = .ok ⟨[⟨{}, []⟩]⟩ := by
  intro lead body
  have htype : WireType.ofTag (word lead).toNat = .delimited := by decide +kernel
  have hrecord : IsRecord lead body := by
    refine ⟨⟨[0x8a, 0x80, 0x80, 0x80, 0x80], 0x01, rfl, by decide, by simp, by decide⟩, ?_⟩
    rw [htype]
    exact ⟨_, @PayloadForm.delimited [0x02] [0x0a, 0x00] (isGroups_singleton (by decide)) rfl⟩
  have hadded : Differs .batch [] (lead ++ body) .batch ([] ++ ([] ++ [])) ([] ++ ((lead ++ body) ++ [])) :=
    .here .nil
  refine ⟨hrecord, by decide +kernel, by decide +kernel, ?_, Batch.ofBytes_eq_ok_iff.2 (by decide +kernel),
    Batch.ofBytes_eq_ok_iff.2 (by decide +kernel)⟩
  simpa using hadded

end AttemptLedger.Wire
