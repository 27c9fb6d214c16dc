import AttemptLedger.Proofs.Interchange
import AttemptLedger.Proofs.Wire.Acceptance

/-!
# Integers wider than a word

Ten groups of seven bits spell more than a word can hold, and a reader looks at the number of groups
only. An integer of more than ten bytes is refused, whatever it spells; of one of ten bytes the low
sixty-four bits are read, so it is read exactly if its tenth byte is zero or one, and as another number
if not. What is read of lengths and of the integers of an attempt is what is read of the bytes they stand
in.
-/

namespace AttemptLedger.Wire

/-! ### What bytes spell -/

/-- The bytes of an integer, any number of them: only the last one has its high bit unset. -/
def IsInteger (bytes : Bytes) : Prop := IsGroups bytes.length bytes

/-- Whether a word can hold what is spelled, as far as the tenth byte tells. -/
def FitsWord (bytes : Bytes) : Prop := ∀ b, bytes[9]? = some b → b.toNat ≤ 1

theorem isVarint_iff_isInteger {bytes : Bytes} : IsVarint bytes ↔ IsInteger bytes ∧ bytes.length ≤ 10 := by
  constructor
  · rintro ⟨front, last, rfl, hlength, hgroups⟩
    rw [List.length_append, List.length_singleton]
    refine ⟨⟨front, last, rfl, ?_, hgroups⟩, hlength⟩
    rw [List.length_append, List.length_singleton]
    exact Nat.lt_succ_self _
  · rintro ⟨⟨front, last, rfl, _, hgroups⟩, hlength⟩
    rw [List.length_append, List.length_singleton] at hlength
    exact ⟨front, last, rfl, hlength, hgroups⟩

theorem spelled_append (a b : Bytes) : spelled (a ++ b) = spelled a + 128 ^ a.length * spelled b := by
  induction a with
  | nil => simp [spelled]
  | cons x a ih =>
    rw [List.cons_append, spelled, spelled, ih, List.length_cons, Nat.pow_succ, Nat.mul_add,
      Nat.mul_comm (128 ^ a.length) 128, Nat.mul_assoc, Nat.add_assoc]

theorem spelled_lt (bytes : Bytes) : spelled bytes < 128 ^ bytes.length := by
  induction bytes with
  | nil => exact Nat.one_pos
  | cons b bytes ih =>
    rw [spelled, List.length_cons, Nat.pow_succ]
    omega

/-- Nine groups fit into a word with one bit to spare. -/
theorem spelled_lt_iff_fitsWord {bytes : Bytes} (h : IsVarint bytes) :
    spelled bytes < 2 ^ 64 ↔ FitsWord bytes := by
  obtain ⟨front, last, rfl, hlength, _, hlast⟩ := h
  have hvalue : spelled (front ++ [last]) = spelled front + 128 ^ front.length * last.toNat := by
    rw [spelled_append, spelled, spelled, Nat.mod_eq_of_lt hlast]
    rfl
  have hfront := spelled_lt front
  rw [hvalue, FitsWord]
  rcases Nat.lt_or_eq_of_le (Nat.le_of_lt_succ hlength) with hshort | hnine
  · have hnone : (front ++ [last])[9]? = none := by
      rw [List.getElem?_eq_none]
      simp only [List.length_append, List.length_singleton]
      omega
    rw [hnone]
    have hpow : 128 ^ (front.length + 1) ≤ 128 ^ 9 := Nat.pow_le_pow_right (by decide) (by omega)
    rw [Nat.pow_succ] at hpow
    have hmul : 128 ^ front.length * last.toNat ≤ 128 ^ front.length * 127 :=
      Nat.mul_le_mul_left _ (Nat.le_of_lt_succ hlast)
    refine iff_of_true ?_ nofun
    omega
  · have hget : (front ++ [last])[9]? = some last := by
      rw [← hnine]
      exact List.getElem?_concat_length
    rw [hnine] at hfront
    simp only [hget, hnine, Option.some.injEq, forall_eq']
    omega

theorem toNat_word (bytes : Bytes) : (word bytes).toNat = spelled bytes % 2 ^ 64 := UInt64.toNat_ofNat'

theorem toInt_word (bytes : Bytes) : (word bytes).toInt64.toInt = (spelled bytes : Int).bmod (2 ^ 64) := by
  rw [word, UInt64.toInt64_ofNat']
  exact Int64.toInt_ofNat'

/-! ### Integers of too many bytes -/

/-- As many bytes as are allowed, all of which announce another one, are refused; nothing else is. -/
theorem readGroups_eq_overflow_iff {groups : Nat} {bytes rest : Bytes} :
    readGroups (groups + 1) bytes = (.error .varintOverflow, rest)
      ↔ ∃ taken, taken.length = groups + 1 ∧ (∀ b ∈ taken, 128 ≤ b.toNat) ∧ bytes = taken ++ rest := by
  induction groups generalizing bytes with
  | zero =>
    constructor
    · intro h
      cases bytes with
      | nil => cases h
      | cons b bytes =>
        rw [readGroups] at h
        split at h
        · cases h
        · next hb =>
          rw [if_pos rfl] at h
          cases h
          exact ⟨[b], rfl, List.forall_mem_singleton.2 (Nat.not_lt.1 hb), rfl⟩
    · rintro ⟨taken, hlength, hgroups, rfl⟩
      obtain ⟨b, rfl⟩ := List.length_eq_one_iff.1 hlength
      have hb := List.forall_mem_singleton.1 hgroups
      rw [List.singleton_append, readGroups, if_neg (Nat.not_lt.2 hb), if_pos rfl]
  | succ groups ih =>
    constructor
    · intro h
      cases bytes with
      | nil => cases h
      | cons b bytes =>
        rw [readGroups] at h
        split at h
        · cases h
        · next hb =>
          rw [if_neg (Nat.succ_ne_zero groups)] at h
          cases hread : readGroups (groups + 1) bytes with
          | mk outcome after =>
            rw [hread] at h
            cases outcome with
            | ok n => cases h
            | error fault =>
              cases h
              obtain ⟨taken, hlength, hgroups, rfl⟩ := ih.1 hread
              refine ⟨b :: taken, by rw [List.length_cons, hlength], ?_, rfl⟩
              exact List.forall_mem_cons.2 ⟨Nat.not_lt.1 hb, hgroups⟩
    · rintro ⟨taken, hlength, hgroups, rfl⟩
      cases taken with
      | nil => cases hlength
      | cons b taken =>
        obtain ⟨hb, hgroups⟩ := List.forall_mem_cons.1 hgroups
        have hread := ih.2 ⟨taken, Nat.succ.inj hlength, hgroups, rfl⟩
        rw [List.cons_append, readGroups, if_neg (Nat.not_lt.2 hb), if_neg (Nat.succ_ne_zero groups),
          hread]
        rfl

namespace Cursor

variable {c after : Cursor} {taken rest : Bytes}

theorem readVarint_eq_overflow_iff :
    c.readVarint = (.error .varintOverflow, after)
      ↔ ∃ taken, taken.length = 10 ∧ (∀ b ∈ taken, 128 ≤ b.toNat)
        ∧ c.rest = taken ++ after.rest ∧ after.size = c.size := by
  have hgroups : c.readVarint = (.error .varintOverflow, after)
      ↔ readGroups 10 c.rest = (.error .varintOverflow, after.rest) ∧ after.size = c.size := by
    obtain ⟨size, rest⟩ := after
    rw [readVarint, Wire.readVarint]
    obtain ⟨outcome, left⟩ := readGroups 10 c.rest
    constructor
    · intro h
      cases outcome <;> cases h
      exact ⟨rfl, rfl⟩
    · rintro ⟨h, hsize⟩
      cases h
      cases hsize
      rfl
  simp only [hgroups, readGroups_eq_overflow_iff, ← exists_and_right, and_assoc]

/-- An integer is refused as too large exactly if it has more than ten bytes. -/
theorem readVarint_overflow_iff_of_isInteger (h : IsInteger taken) (hrest : c.rest = taken ++ rest) :
    c.readVarint.1 = .error .varintOverflow ↔ 10 < taken.length := by
  constructor
  · intro hrefused
    refine Nat.not_le.1 fun hshort => ?_
    have hvarint : IsVarint taken := isVarint_iff_isInteger.2 ⟨h, hshort⟩
    have hread : c.readVarint = (.ok (word taken), ⟨c.size, rest⟩) :=
      readVarint_eq_ok_iff.2 ⟨taken, hvarint, rfl, hrest, rfl⟩
    rw [hread] at hrefused
    cases hrefused
  · intro hlong
    obtain ⟨front, last, rfl, _, hgroups, _⟩ := h
    rw [List.length_append, List.length_singleton] at hlong
    have hsplit : c.rest = front.take 10 ++ (front.drop 10 ++ [last] ++ rest) := by
      rw [hrest, ← List.append_assoc, ← List.append_assoc, List.take_append_drop]
    have hten : (front.take 10).length = 10 := by
      rw [List.length_take]
      omega
    have hread : c.readVarint = (.error .varintOverflow, ⟨c.size, front.drop 10 ++ [last] ++ rest⟩) :=
      readVarint_eq_overflow_iff.2
        ⟨front.take 10, hten, fun b hb => hgroups b (List.mem_of_mem_take hb), hsplit, rfl⟩
    rw [hread]

theorem readInt_eq_ok_iff {value : Int64} :
    c.readInt = (.ok value, after)
      ↔ ∃ taken, IsVarint taken ∧ value.toInt = (spelled taken : Int).bmod (2 ^ 64)
        ∧ c.rest = taken ++ after.rest ∧ after.size = c.size := by
  have hstep : c.readInt = (c.readVarint.1.map UInt64.toInt64, c.readVarint.2) := rfl
  rw [hstep, map_outcome_eq_ok_iff]
  constructor
  · rintro ⟨n, hread, hvalue⟩
    obtain ⟨taken, htaken, rfl, hrest⟩ := readVarint_eq_ok_iff.1 hread
    exact ⟨taken, htaken, by rw [← hvalue, toInt_word], hrest⟩
  · rintro ⟨taken, htaken, hvalue, hrest⟩
    refine ⟨word taken, readVarint_eq_ok_iff.2 ⟨taken, htaken, rfl, hrest⟩, ?_⟩
    rw [← Int64.toInt_inj, toInt_word, hvalue]

theorem readBytes_of_refused {fault : Fault} (h : c.readVarint.1 = .error fault) :
    c.readBytes.1 = .error fault := by
  rw [readBytes]
  split
  · next hread =>
    rw [hread] at h
    exact congrArg Except.error (Except.error.inj h)
  · next hread =>
    rw [hread] at h
    cases h

end Cursor

/-! ### Integers of an attempt -/

inductive AttemptInteger
  | id
  | parentId
  | level
  | inferenceTime
  | executionTime

namespace AttemptInteger

def number : AttemptInteger → Nat
  | id => 1
  | parentId => 2
  | level => 5
  | inferenceTime => 14
  | executionTime => 15

def value : AttemptInteger → Attempt → Int64
  | id => Attempt.id
  | parentId => Attempt.parentId
  | level => Attempt.level
  | inferenceTime => Attempt.inferenceTime
  | executionTime => Attempt.executionTime

/-- The value in a draft, zero for an id that was not met yet. -/
def drafted : AttemptInteger → AttemptDraft → Int64
  | id, draft => draft.id.getD 0
  | parentId, draft => draft.parentId.getD 0
  | level, draft => draft.attempt.level
  | inferenceTime, draft => draft.attempt.inferenceTime
  | executionTime, draft => draft.attempt.executionTime

theorem exists_schema_eq (integer : AttemptInteger) :
    ∃ put : Int64 → AttemptDraft → AttemptDraft,
      attemptSchema integer.number = some (.int "translation edge scalar" put)
        ∧ ∀ n draft, integer.drafted (put n draft) = n := by
  cases integer <;> exact ⟨_, rfl, fun _ _ => rfl⟩

theorem keeps_drafted (integer : AttemptInteger) (other : Nat) (field : Field AttemptDraft)
    (hother : other ≠ integer.number) (hfield : attemptSchema other = some field) :
    field.Keeps integer.drafted := by
  match other with
  | 1 | 2 | 5 | 14 | 15 =>
    cases hfield
    cases integer <;> first
      | exact absurd rfl hother
      | exact keeps_number _ fun _ _ => rfl
  | 13 | 16 =>
    cases hfield
    cases integer <;> exact keeps_number _ fun _ _ => rfl
  | 3 | 4 | 6 | 7 | 8 | 9 | 10 | 11 | 12 =>
    cases hfield
    cases integer <;> exact keeps_nested _ fun _ _ => rfl
  | 0 | _ + 17 => cases hfield

theorem value_eq_drafted (integer : AttemptInteger) {draft : AttemptDraft} {attempt : Attempt}
    (h : draft.finish = .ok attempt) : integer.value attempt = integer.drafted draft := by
  obtain ⟨id, parentId, fuzzyTests, unitTests, rest⟩ := draft
  cases id with
  | none => cases h
  | some id =>
    cases parentId with
    | none => cases h
    | some parentId =>
      cases h
      cases integer <;> rfl

end AttemptInteger

/-- Where a message has a field, there is a last record of it: the byte string cut in front of this record,
behind its tag and behind its payload. -/
theorem Records.none_or_last {bytes : Bytes} {records : List Record} (h : Records bytes records)
    (number : Nat) :
    ¬Has number records
      ∨ ∃ front lead body back fronts payload backs, bytes = front ++ (lead ++ (body ++ back))
        ∧ records = fronts ++ ⟨.ofWord (word lead), payload⟩ :: backs
        ∧ Records front fronts ∧ IsVarint lead ∧ (Tag.ofWord (word lead)).field = number
        ∧ PayloadForm (Tag.ofWord (word lead)).wireType body payload
        ∧ Records back backs ∧ ¬Has number backs := by
  induction h with
  | nil =>
    left
    rintro ⟨record, hrecord, _⟩
    cases hrecord
  | @cons lead body rest payload records hlead hfield hbody hrest ih =>
    rcases ih with hnone | ⟨front, lead', body', back, fronts, payload', backs, rfl, rfl, hfront, hlast⟩
    · by_cases hnumber : (Tag.ofWord (word lead)).field = number
      · exact .inr ⟨[], lead, body, rest, [], payload, records, rfl, rfl, .nil, hlead, hnumber, hbody,
          hrest, hnone⟩
      · left
        rintro ⟨record, hrecord, hsame⟩
        rcases List.mem_cons.1 hrecord with rfl | hrecord
        · exact hnumber hsame
        · exact hnone ⟨record, hrecord, hsame⟩
    · refine .inr ⟨lead ++ (body ++ front), lead', body', back, ⟨.ofWord (word lead), payload⟩ :: fronts,
        payload', backs, by simp only [List.append_assoc], rfl, .cons hlead hfield hbody hfront, hlast⟩

theorem get_eq_of_absorbAll {σ β : Type} {schema : Schema σ} {number : Nat} {get : σ → β}
    (hkeeps : ∀ other field, other ≠ number → schema other = some field → field.Keeps get)
    {records : List Record} (hnone : ¬Has number records) {s t : σ}
    (habsorb : schema.absorbAll records s = .ok t) : get t = get s := by
  induction records generalizing s with
  | nil =>
    cases habsorb
    rfl
  | cons record records ih =>
    obtain ⟨middle, hmiddle, habsorb⟩ := Schema.absorbAll_cons_eq_ok_iff.1 habsorb
    have hother : record.tag.field ≠ number := fun hfield => hnone ⟨record, List.mem_cons_self .., hfield⟩
    have htail : ¬Has number records :=
      fun ⟨other, hmem, hfield⟩ => hnone ⟨other, List.mem_cons_of_mem _ hmem, hfield⟩
    rw [ih htail habsorb, get_eq_of_absorb hkeeps hother hmiddle]

/-- Whether a message has a record of a field that is an integer, and `taken` spells it in the last of
these records. -/
def IsLastInteger (number : Nat) (taken bytes : Bytes) : Prop :=
  ∃ front fronts lead back backs, bytes = front ++ (lead ++ (taken ++ back))
    ∧ Records front fronts ∧ IsVarint lead ∧ Tag.ofWord (word lead) = ⟨number, .varint⟩
    ∧ IsVarint taken ∧ Records back backs ∧ ¬Has number backs

/-- An integer of an attempt that was read is what the last record of its field spells, as far as a word
holds it, or zero if there is none. -/
theorem AttemptInteger.toInt_of_readAttempt (integer : AttemptInteger) {bytes : Bytes} {attempt : Attempt}
    (h : readAttempt bytes = .ok attempt) :
    (integer.value attempt = 0 ∧ ∃ records, Records bytes records ∧ ¬Has integer.number records)
      ∨ ∃ taken, IsLastInteger integer.number taken bytes
        ∧ (integer.value attempt).toInt = (spelled taken : Int).bmod (2 ^ 64) := by
  obtain ⟨draft, hread, hfinish⟩ := bind_eq_ok_iff.1 h
  obtain ⟨records, hrecords, hrefusal, habsorb⟩ := Schema.read_eq_ok_iff.1 hread
  rw [integer.value_eq_drafted hfinish]
  rcases hrecords.none_or_last integer.number with hnone | ⟨front, lead, body, back, fronts, payload, backs,
    rfl, rfl, hfront, hlead, hfield, hbody, hback, hlast⟩
  · refine .inl ⟨?_, records, hrecords, hnone⟩
    rw [get_eq_of_absorbAll integer.keeps_drafted hnone habsorb]
    cases integer <;> rfl
  · obtain ⟨put, hschema, hput⟩ := integer.exists_schema_eq
    have haccepted : attemptSchema.refusal (.ofWord (word lead)) = none :=
      hrefusal ⟨_, payload⟩ (List.mem_append_right _ (List.mem_cons_self ..))
    rw [Schema.refusal, hfield, hschema] at haccepted
    have htype : (Tag.ofWord (word lead)).wireType = .varint := by
      by_cases hsame : (Tag.ofWord (word lead)).wireType = .varint
      · exact hsame
      · have hrefused : some _ = none := (if_neg hsame).symm.trans haccepted
        cases hrefused
    rw [htype] at hbody
    cases hbody with
    | varint hbody =>
      obtain ⟨first, _, habsorb⟩ := Schema.absorbAll_append_eq_ok_iff.1 habsorb
      obtain ⟨second, hsecond, habsorb⟩ := Schema.absorbAll_cons_eq_ok_iff.1 habsorb
      rw [Schema.absorb, hfield, hschema] at hsecond
      cases hsecond
      refine .inr ⟨body, ⟨front, fronts, lead, back, backs, rfl, hfront, hlead, ?_, hbody, hback, hlast⟩, ?_⟩
      · rw [← hfield, ← htype]
      · rw [get_eq_of_absorbAll integer.keeps_drafted hlast habsorb, hput, toInt_word]

/-- What is read of integers wherever they stand. The bytes that are taken are an integer of at most ten
bytes, and what is read is what they spell, reduced to a word: so it is with numbers, with signed integers,
with lengths and with the integers of an attempt. It is what they spell itself exactly if their tenth byte,
where they have one, is zero or one. An integer is refused as too large exactly if it has more than ten
bytes, so what a word cannot hold is refused unless it is spelled in ten. -/
theorem integers_reduced_to_word (c : Cursor) (integer : AttemptInteger) (bytes : Bytes) :
    (∀ after n, c.readVarint = (.ok n, after)
      ↔ ∃ taken, IsVarint taken ∧ n.toNat = spelled taken % 2 ^ 64
        ∧ c.rest = taken ++ after.rest ∧ after.size = c.size)
    ∧ (∀ after value, c.readInt = (.ok value, after)
      ↔ ∃ taken, IsVarint taken ∧ value.toInt = (spelled taken : Int).bmod (2 ^ 64)
        ∧ c.rest = taken ++ after.rest ∧ after.size = c.size)
    ∧ (∀ after body, c.readBytes = (.ok body, after)
      ↔ ∃ length, IsVarint length ∧ body.length = spelled length % 2 ^ 64
        ∧ c.rest = length ++ body ++ after.rest ∧ after.size = c.size)
    ∧ (∀ attempt, readAttempt bytes = .ok attempt →
      (integer.value attempt = 0 ∧ ∃ records, Records bytes records ∧ ¬Has integer.number records)
        ∨ ∃ taken, IsLastInteger integer.number taken bytes
          ∧ (integer.value attempt).toInt = (spelled taken : Int).bmod (2 ^ 64))
    ∧ (∀ taken, IsVarint taken → (spelled taken % 2 ^ 64 = spelled taken ↔ FitsWord taken))
    ∧ ∀ taken rest, IsInteger taken → c.rest = taken ++ rest →
      (c.readVarint.1 = .error .varintOverflow ↔ 10 < taken.length)
        ∧ (2 ^ 64 ≤ spelled taken → taken.length ≠ 10 → c.readVarint.1 = .error .varintOverflow
          ∧ c.readInt.1 = .error .varintOverflow ∧ c.readBytes.1 = .error .varintOverflow) := by
  refine ⟨?_, fun _ _ => Cursor.readInt_eq_ok_iff, ?_, fun _ => integer.toInt_of_readAttempt, ?_, ?_⟩
  · intro after n
    simp only [Cursor.readVarint_eq_ok_iff, ← toNat_word, UInt64.toNat_inj]
  · intro after body
    rw [Cursor.readBytes_eq_ok_iff]
    simp only [← toNat_word, eq_comm]
  · intro taken htaken
    rw [← spelled_lt_iff_fitsWord htaken]
    exact ⟨fun hsame => hsame ▸ Nat.mod_lt _ (by decide), Nat.mod_eq_of_lt⟩
  · intro taken rest hinteger hrest
    have hlong := Cursor.readVarint_overflow_iff_of_isInteger hinteger hrest
    refine ⟨hlong, fun hlarge hten => ?_⟩
    have hrefused : c.readVarint.1 = .error .varintOverflow := by
      refine hlong.2 (Nat.not_le.1 fun hshort => ?_)
      have hvarint := isVarint_iff_isInteger.2 ⟨hinteger, hshort⟩
      have hfits : FitsWord taken := by
        rw [FitsWord, List.getElem?_eq_none (by omega)]
        exact nofun
      exact Nat.not_lt.2 hlarge ((spelled_lt_iff_fitsWord hvarint).2 hfits)
    have hint : c.readInt.1 = c.readVarint.1.map UInt64.toInt64 := rfl
    exact ⟨hrefused, by rw [hint, hrefused]; rfl, Cursor.readBytes_of_refused hrefused⟩

/-- The id of an attempt is given as 2^64 + 5, in ten bytes, and read as 5. -/
theorem ofBytes_of_wide_id :
    let wide : Bytes := [0x85, 0x80, 0x80, 0x80, 0x80, 0x80, 0x80, 0x80, 0x80, 0x02]
    let attempt : Bytes := [0x08] ++ wide ++ [0x10, 0x01]
    IsVarint wide ∧ spelled wide = 2 ^ 64 + 5 ∧ (Cursor.ofBytes wide).readVarint = (.ok 5, ⟨10, []⟩)
      ∧ readAttempt attempt = .ok { id := 5, parentId := 1 }
      ∧ Batch.ofBytes ([0x0a, 0x13, 0x0a, 0x00, 0x12, 0x0f, 0x0a, 0x0d] ++ attempt)
        = .ok ⟨[⟨{}, [⟨[{ id := 5, parentId := 1 }], .empty⟩]⟩]⟩ := by
  intro wide attempt
  have hvarint : IsVarint wide :=
    ⟨[0x85, 0x80, 0x80, 0x80, 0x80, 0x80, 0x80, 0x80, 0x80], 0x02, rfl, by decide, by simp, by decide⟩
  exact ⟨hvarint, by decide +kernel, rfl, by decide +kernel,
    Batch.ofBytes_eq_ok_iff.2 (by decide +kernel)⟩

end AttemptLedger.Wire
