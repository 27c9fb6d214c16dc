import AttemptLedger.Proofs.Wire.Record

/-!
# Where a cursor stands

A cursor made on a byte string stands inside it, whatever is called on it and whether or not the calls
succeed: its position never goes back, never passes the end, and a call that succeeds moves it by a byte
at least. So a loop that reads something in every turn takes no more turns than there are bytes, and what
stands inside a message is shorter than the message.
-/

namespace AttemptLedger.Wire

namespace Cursor

/-- The cursor at a position of a byte string. -/
def seek (data : Bytes) (position : Nat) : Cursor := ⟨data.length, data.drop position⟩

/-- Whether a cursor is the one at its position, which is in the byte string or at its end. -/
structure IsIn (c : Cursor) (data : Bytes) : Prop where
  eq_seek : c = seek data c.position
  position_le : c.position ≤ data.length

/-- A step from a cursor goes on in the same byte string, and by a byte at least if it succeeds. A step that
fails may have moved the cursor, too. -/
structure Forward (c : Cursor) (step : Bool × Cursor) : Prop where
  size_eq : step.2.size = c.size
  suffix : step.2.rest <:+ c.rest
  length_lt : step.1 = true → step.2.rest.length < c.rest.length

/-- Whether a reading step succeeds, and the cursor it leaves behind. -/
def outcome {α : Type} (step : Except Fault α × Cursor) : Bool × Cursor := (step.1.isOk, step.2)

variable {c next after : Cursor} {data : Bytes}

theorem position_seek {position : Nat} (h : position ≤ data.length) :
    (seek data position).position = position := by
  simp only [seek, Cursor.position, List.length_drop]
  omega

theorem isIn_seek {position : Nat} (h : position ≤ data.length) : (seek data position).IsIn data := by
  constructor
  · rw [position_seek h]
  · rw [position_seek h]
    exact h

theorem isIn_ofBytes (data : Bytes) : (ofBytes data).IsIn data := isIn_seek (Nat.zero_le _)

theorem seek_append (front back : Bytes) :
    seek (front ++ back) front.length = ⟨(front ++ back).length, back⟩ := by
  rw [seek, List.drop_left]

theorem IsIn.rest_eq (h : c.IsIn data) : c.rest = data.drop c.position := congrArg Cursor.rest h.eq_seek

theorem IsIn.size_eq (h : c.IsIn data) : c.size = data.length := congrArg Cursor.size h.eq_seek

theorem IsIn.suffix (h : c.IsIn data) : c.rest <:+ data := by
  rw [h.rest_eq]
  exact List.drop_suffix _ _

theorem IsIn.position_add_length (h : c.IsIn data) : c.position + c.rest.length = data.length := by
  have := h.position_le
  rw [h.rest_eq, List.length_drop]
  omega

theorem isIn_append (front back : Bytes) :
    IsIn ⟨(front ++ back).length, back⟩ (front ++ back) := by
  rw [← seek_append]
  refine isIn_seek ?_
  rw [List.length_append]
  exact Nat.le_add_right ..

/-- What is left of a byte string tells the position. -/
theorem isIn_of_suffix (hsize : c.size = data.length) (hsuffix : c.rest <:+ data) : c.IsIn data := by
  obtain ⟨size, rest⟩ := c
  obtain ⟨front, rfl⟩ := hsuffix
  change size = (front ++ rest).length at hsize
  rw [hsize]
  exact isIn_append front rest

theorem IsIn.forward {step : Bool × Cursor} (h : c.IsIn data) (hstep : Forward c step) :
    step.2.IsIn data ∧ c.position + step.1.toNat ≤ step.2.position := by
  have hin : step.2.IsIn data :=
    isIn_of_suffix (hstep.size_eq.trans h.size_eq) (hstep.suffix.trans h.suffix)
  refine ⟨hin, ?_⟩
  have hbefore := h.position_add_length
  have hafter := hin.position_add_length
  have hle := hstep.suffix.length_le
  have hlt := hstep.length_lt
  cases hok : step.1 with
  | false =>
    rw [Bool.toNat_false]
    omega
  | true =>
    rw [hok] at hlt
    rw [Bool.toNat_true]
    have := hlt rfl
    omega

/-! ### The calls of a cursor -/

theorem forward_refused (c : Cursor) : Forward c (false, c) := ⟨rfl, List.suffix_refl _, nofun⟩

/-- Behind a step that succeeded, any step that does not go back is forward. -/
theorem Forward.further {ok : Bool} (h : Forward c (true, next)) (hsize : after.size = next.size)
    (hsuffix : after.rest <:+ next.rest) : Forward c (ok, after) where
  size_eq := hsize.trans h.size_eq
  suffix := hsuffix.trans h.suffix
  length_lt _ := Nat.lt_of_le_of_lt hsuffix.length_le (h.length_lt rfl)

theorem Forward.map {α β : Type} {step : Except Fault α × Cursor} (h : Forward c (outcome step))
    (f : α → β) : Forward c (outcome (step.1.map f, step.2)) := by
  obtain ⟨result, after⟩ := step
  cases result <;> exact h

theorem Forward.bind {α β : Type} {step : Except Fault α × Cursor} (h : Forward c (outcome step))
    (f : α → Except Fault β) : Forward c (outcome (step.1.bind f, step.2)) := by
  obtain ⟨result, after⟩ := step
  cases result with
  | error fault => exact h
  | ok a => exact h.further rfl (List.suffix_refl _)

theorem forward_varint (c : Cursor) : Forward c (outcome c.readVarint) := by
  refine ⟨rfl, readVarint_suffix c, fun h => ?_⟩
  cases hread : c.readVarint.1 with
  | error fault =>
    rw [outcome, hread] at h
    cases h
  | ok n => exact readVarint_length_lt hread

theorem forward_tag (c : Cursor) : Forward c (outcome c.readTag) := by
  have h := forward_varint c
  rw [readTag]
  split
  · next hread =>
    rw [hread] at h
    exact h
  · next hread =>
    rw [hread] at h
    dsimp only
    split <;> exact h.further rfl (List.suffix_refl _)

theorem forward_bytes (c : Cursor) : Forward c (outcome c.readBytes) := by
  have h := forward_varint c
  rw [readBytes]
  split
  · next hread =>
    rw [hread] at h
    exact h
  · next hread =>
    rw [hread] at h
    split
    · next htake =>
      obtain ⟨_, _, rfl⟩ := take?_eq_some_iff.1 htake
      exact h.further rfl (take?_suffix htake)
    · exact h.further rfl (List.suffix_refl _)

theorem forward_skip {count : Nat} (hcount : 0 < count) (c : Cursor) :
    Forward c (outcome (c.skip count)) := by
  rw [skip]
  split
  · next htake =>
    obtain ⟨hle, _, rfl⟩ := take?_eq_some_iff.1 htake
    refine ⟨rfl, take?_suffix htake, fun _ => ?_⟩
    show (c.rest.drop count).length < c.rest.length
    rw [List.length_drop]
    omega
  · exact forward_refused c

theorem forward_payload (tag : Tag) (c : Cursor) : Forward c (outcome (c.readPayload tag)) := by
  rw [readPayload]
  split
  · exact (forward_varint c).map _
  · exact (forward_bytes c).map _
  · exact (forward_skip (by decide) c).map _
  · exact (forward_skip (by decide) c).map _
  · exact forward_refused c

/-- A call of a cursor. A field may be passed over under any number as its wire type. -/
inductive Call
  | tag
  | number
  | int
  | flag
  | bytes
  | text
  | skipField (field wireType : UInt32)

/-- Whether a call succeeds, and the cursor it leaves behind. A number of more than three bits is no wire
type that is supported. -/
def call (c : Cursor) : Call → Bool × Cursor
  | .tag => outcome c.readTag
  | .number => outcome c.readVarint
  | .int => outcome c.readInt
  | .flag => outcome c.readFlag
  | .bytes => outcome c.readBytes
  | .text => outcome c.readText
  | .skipField field wireType =>
    if wireType < 8 then outcome (c.skipField ⟨field.toNat, .ofTag wireType.toNat⟩) else (false, c)

/-- How many of some calls succeed when they are made one after the other, and the cursor they leave
behind. A call is made wherever the call before it left the cursor, also if that one failed. -/
def callAll (c : Cursor) : List Call → Nat × Cursor
  | [] => (0, c)
  | call :: calls =>
    let step := c.call call
    let rest := step.2.callAll calls
    (step.1.toNat + rest.1, rest.2)

theorem forward_call (c : Cursor) (call : Call) : Forward c (c.call call) := by
  cases call with
  | tag => exact forward_tag c
  | number => exact forward_varint c
  | int => exact (forward_varint c).map _
  | flag => exact (forward_varint c).map _
  | bytes => exact forward_bytes c
  | text => exact (forward_bytes c).bind _
  | skipField field wireType =>
    rw [Cursor.call]
    split
    · exact (forward_payload _ c).map _
    · exact forward_refused c

theorem IsIn.callAll (h : c.IsIn data) (calls : List Call) :
    (c.callAll calls).2.IsIn data ∧ c.position + (c.callAll calls).1 ≤ (c.callAll calls).2.position := by
  induction calls generalizing c with
  | nil => exact ⟨h, Nat.le_refl _⟩
  | cons call calls ih =>
    obtain ⟨hstep, hposition⟩ := h.forward (forward_call c call)
    obtain ⟨hlast, hcount⟩ := ih hstep
    refine ⟨hlast, ?_⟩
    rw [Cursor.callAll]
    dsimp only
    omega

/-! ### What is taken from a byte string -/

theorem IsIn.take?_eq (h : c.IsIn data) (count : Nat) :
    c.take? count = if c.position + count ≤ data.length
      then some ((data.drop c.position).take count, seek data (c.position + count)) else none := by
  have hlength := h.position_add_length
  split
  · next hcount =>
    refine take?_eq_some_iff.2 ⟨by omega, by rw [h.rest_eq], ?_⟩
    rw [seek, h.size_eq, h.rest_eq, List.drop_drop]
  · next hcount => exact take?_eq_none_iff.2 (by omega)

/-- The sum of two words, unless it overflows. -/
def checkedAdd? (a b : UInt64) : Option UInt64 :=
  if a.toNat + b.toNat < 2 ^ 64 then some (a + b) else none

theorem checkedAdd?_eq_some_iff {a b sum : UInt64} :
    checkedAdd? a b = some sum ↔ sum.toNat = a.toNat + b.toNat := by
  have hsum := sum.toNat_lt
  rw [checkedAdd?]
  split
  · next hlt =>
    rw [Option.some_inj, ← UInt64.toNat_inj, UInt64.toNat_add, Nat.mod_eq_of_lt hlt, eq_comm]
  · next hnot =>
    constructor
    · nofun
    · intro hvalue
      omega

theorem checkedAdd?_eq_none_iff {a b : UInt64} :
    checkedAdd? a b = none ↔ 2 ^ 64 ≤ a.toNat + b.toNat := by
  rw [checkedAdd?]
  split
  · next hlt => exact ⟨nofun, fun hle => absurd hlt (Nat.not_lt.2 hle)⟩
  · next hnot => exact ⟨fun _ => Nat.le_of_not_lt hnot, fun _ => rfl⟩

/-- The bound of `read_bytes`, in words: the length is added to the position, and nothing is taken if the sum
overflows or is past the end. What is taken stands between the two positions. -/
theorem IsIn.take?_eq_checkedAdd? (h : c.IsIn data) (hdata : data.length < 2 ^ 64) (count : UInt64) :
    c.take? count.toNat
      = ((checkedAdd? (.ofNat c.position) count).filter fun sum => sum.toNat ≤ data.length).map
        fun sum => ((data.take sum.toNat).drop c.position, seek data sum.toNat) := by
  have hposition : (UInt64.ofNat c.position).toNat = c.position :=
    UInt64.toNat_ofNat_of_lt' (Nat.lt_of_le_of_lt h.position_le hdata)
  rw [h.take?_eq]
  -- A sum that overflows is past the end of any byte string, so there the two bounds agree as well.
  cases hsum : checkedAdd? (.ofNat c.position) count with
  | none =>
    have hover := checkedAdd?_eq_none_iff.1 hsum
    rw [hposition] at hover
    rw [if_neg (by omega)]
    rfl
  | some sum =>
    have hvalue := checkedAdd?_eq_some_iff.1 hsum
    rw [hposition] at hvalue
    rw [Option.filter_some, hvalue]
    by_cases hend : c.position + count.toNat ≤ data.length
    · rw [if_pos hend, if_pos (decide_eq_true hend), Option.map_some, hvalue, List.drop_take,
        Nat.add_sub_cancel_left]
    · rw [if_neg hend, if_neg (by simpa using hend)]
      rfl

/-- Bytes are taken where the announced length, whatever it is, ends in the byte string. -/
theorem IsIn.readBytes_eq (h : c.IsIn data) {n : UInt64} (hread : c.readVarint = (.ok n, next)) :
    c.readBytes = if next.position + n.toNat ≤ data.length
      then (.ok ((data.drop next.position).take n.toNat), seek data (next.position + n.toNat))
      else (.error (.pastEnd next.position n.toNat data.length), next) := by
  have hstep := forward_varint c
  rw [hread] at hstep
  have hnext : next.IsIn data := (h.forward hstep).1
  rw [readBytes, hread]
  dsimp only
  rw [hnext.take?_eq, hnext.size_eq]
  by_cases hend : next.position + n.toNat ≤ data.length
  · rw [if_pos hend, if_pos hend]
  · rw [if_neg hend, if_neg hend]

/-- A length of 2^64 - 1 is announced, and one byte follows. -/
example : (ofBytes [0xff, 0xff, 0xff, 0xff, 0xff, 0xff, 0xff, 0xff, 0xff, 0x01, 0x61]).readBytes
    = (.error (.pastEnd 10 18446744073709551615 11), ⟨11, [0x61]⟩) := rfl

theorem IsIn.skip_eq (h : c.IsIn data) (count : Nat) :
    c.skip count = if c.position + count ≤ data.length
      then (.ok (), seek data (c.position + count)) else (.error .skipPastEnd, c) := by
  rw [skip, h.take?_eq]
  by_cases hend : c.position + count ≤ data.length
  · rw [if_pos hend, if_pos hend]
  · rw [if_neg hend, if_neg hend]

end Cursor

/-! ### Loops over a byte string -/

variable {σ : Type} {schema : Schema σ} {c after : Cursor} {data : Bytes}

theorem Schema.forward_record {record : Record} (h : schema.readRecord c = .ok (record, after)) :
    Cursor.Forward c (true, after) := by
  obtain ⟨lead, body, _, _, _, _, _, hrest, hsize⟩ := readRecord_eq_ok_iff.1 h
  refine ⟨hsize, ?_, fun _ => readRecord_length_lt h⟩
  rw [hrest]
  exact (List.suffix_append body after.rest).trans (List.suffix_append lead _)

/-- The bytes in a record are shorter than what was left in front of it. -/
theorem Schema.body_of_readRecord {record : Record} {body : Bytes}
    (h : schema.readRecord c = .ok (record, after)) (hbody : record.payload = .bytes body) :
    body.length < c.rest.length ∧ body <:+: c.rest := by
  obtain ⟨⟨field, wireType⟩, payload⟩ := record
  obtain ⟨lead, taken, hlead, _, _, hform, _, hrest, _⟩ := readRecord_eq_ok_iff.1 h
  cases hbody
  cases hform with
  | @delimited length _ hlength _ =>
    have := length_pos_of_isVarint hlead
    rw [hrest]
    constructor
    · simp only [List.length_append]
      omega
    · exact ⟨lead ++ length, after.rest, by simp only [List.append_assoc]⟩

/-- What a loop has read after a number of turns, and the cursor at which the next turn begins. -/
inductive Turns (turn : Cursor × σ → Cursor × σ → Prop) (start : Cursor × σ) : Nat → Cursor × σ → Prop
  | start : Turns turn start 0 start
  | turn {turns : Nat} {now next : Cursor × σ} :
      Turns turn start turns now → turn now next → Turns turn start (turns + 1) next

/-- One turn of reading a message: a record is read and taken in. -/
def Schema.turn (schema : Schema σ) (now next : Cursor × σ) : Prop :=
  ∃ record, schema.readRecord now.1 = .ok (record, next.1) ∧ schema.absorb record now.2 = .ok next.2

/-- One turn of reading packed flags. -/
def flagTurn (now next : Cursor × List Bool) : Prop :=
  ∃ flag, now.1.readFlag = (.ok flag, next.1) ∧ next.2 = now.2 ++ [flag]

theorem Turns.isIn {turn : Cursor × σ → Cursor × σ → Prop} {start : σ} {turns : Nat} {now : Cursor × σ}
    (hturn : ∀ now next, turn now next → Cursor.Forward now.1 (true, next.1))
    (h : Turns turn (.ofBytes data, start) turns now) :
    now.1.IsIn data ∧ turns ≤ now.1.position := by
  induction h with
  | start => exact ⟨Cursor.isIn_ofBytes data, Nat.zero_le _⟩
  | turn _ hlast ih =>
    -- Each turn takes a byte at least, so the position is no less than the number of turns.
    obtain ⟨hnext, hposition⟩ := ih.1.forward (hturn _ _ hlast)
    exact ⟨hnext, Nat.le_trans (Nat.succ_le_succ ih.2) hposition⟩

/-- A turn that begins, whether or not it is completed, is one of no more than there are bytes. -/
theorem Turns.lt_length {turn : Cursor × σ → Cursor × σ → Prop} {start : σ} {turns : Nat}
    {now : Cursor × σ} (hturn : ∀ now next, turn now next → Cursor.Forward now.1 (true, next.1))
    (h : Turns turn (.ofBytes data, start) turns now) (hmore : now.1.atEnd = false) :
    turns < data.length := by
  obtain ⟨hin, hposition⟩ := h.isIn hturn
  have hrest : 0 < now.1.rest.length := List.length_pos_iff.2 (List.isEmpty_eq_false_iff.1 hmore)
  have hlength := hin.position_add_length
  omega

theorem Schema.forward_turn (now next : Cursor × σ) (h : schema.turn now next) :
    Cursor.Forward now.1 (true, next.1) := by
  obtain ⟨record, hread, _⟩ := h
  exact forward_record hread

theorem forward_flagTurn (now next : Cursor × List Bool) (h : flagTurn now next) :
    Cursor.Forward now.1 (true, next.1) := by
  obtain ⟨flag, hread, _⟩ := h
  have hstep := Cursor.forward_call now.1 .flag
  rw [Cursor.call, hread] at hstep
  exact hstep

/-- What is read of a message is what is read of it from any turn on. -/
theorem Schema.readFrom_of_turns {start : σ} {turns : Nat} {now : Cursor × σ}
    (h : Turns schema.turn (.ofBytes data, start) turns now) :
    schema.readFrom now.1 now.2 = schema.read start data := by
  induction h with
  | start => rfl
  | turn _ hlast ih =>
    obtain ⟨record, hread, habsorb⟩ := hlast
    rw [← ih, readFrom_step hread habsorb]

/-- The flags that are read are those of the turns so far and those that are read from there on. -/
theorem readFlags_of_turns {turns : Nat} {now : Cursor × List Bool}
    (h : Turns flagTurn (.ofBytes data, []) turns now) :
    readFlags (.ofBytes data) = (readFlags now.1).map (now.2 ++ ·) := by
  induction h with
  | start => cases readFlags (.ofBytes data) <;> rfl
  | @turn turns now next _ hlast ih =>
    obtain ⟨flag, hflag, hflags⟩ := hlast
    rw [Cursor.readFlag, Cursor.map_outcome_eq_ok_iff] at hflag
    obtain ⟨value, hread, rfl⟩ := hflag
    rw [ih, readFlags_step hread, hflags]
    cases readFlags next.1 with
    | error fault => rfl
    | ok flags => exact congrArg Except.ok (List.append_assoc now.2 [value != 0] flags).symm

/-- Wherever calls leave a cursor that was made on a byte string, however many of them failed, it stands in
the byte string, and no more of them succeeded than there are bytes in front of it. Another call leaves it
there or moves it on, by a byte at least if it succeeds. Bytes are taken, or passed over, exactly if they end
in the byte string, whatever length is announced; a machine word holds the position behind what would be
passed over, also where that is refused. Each turn of reading a message, or packed flags, begins in the byte
string, and there are no more turns than bytes; the bytes in a record of a message are a shorter part of it. -/
theorem cursor_stays_and_advances (schema : Schema σ) (start : σ) (data : Bytes)
    (calls : List Cursor.Call) :
    let c := ((Cursor.ofBytes data).callAll calls).2
    (c.IsIn data ∧ ((Cursor.ofBytes data).callAll calls).1 ≤ c.position)
    ∧ (∀ call, (c.call call).2.IsIn data ∧ c.position ≤ (c.call call).2.position
      ∧ ((c.call call).1 = true → c.position < (c.call call).2.position))
    ∧ (∀ n next, c.readVarint = (.ok n, next) →
      c.readBytes = if next.position + n.toNat ≤ data.length
        then (.ok ((data.drop next.position).take n.toNat), .seek data (next.position + n.toNat))
        else (.error (.pastEnd next.position n.toNat data.length), next))
    ∧ (∀ count, c.skip count = if c.position + count ≤ data.length
      then (.ok (), .seek data (c.position + count)) else (.error .skipPastEnd, c))
    ∧ (data.length < 2 ^ 63 → ∀ count ≤ 8, c.position + count < 2 ^ 64)
    ∧ (∀ turns now s, Turns schema.turn (.ofBytes data, start) turns (now, s) →
      now.IsIn data ∧ turns ≤ now.position ∧ (now.atEnd = false → turns < data.length)
        ∧ schema.readFrom now s = schema.read start data
        ∧ ∀ record next body, schema.readRecord now = .ok (record, next) →
          record.payload = .bytes body → body.length < data.length ∧ body <:+: data)
    ∧ ∀ turns now flags, Turns flagTurn (.ofBytes data, []) turns (now, flags) →
      now.IsIn data ∧ turns ≤ now.position ∧ (now.atEnd = false → turns < data.length)
        ∧ readFlags (.ofBytes data) = (readFlags now).map (flags ++ ·) := by
  intro c
  obtain ⟨hin, hcount⟩ := (Cursor.isIn_ofBytes data).callAll calls
  refine ⟨⟨hin, Nat.le_trans (Nat.le_add_left ..) hcount⟩, fun call => ?_, fun n next => hin.readBytes_eq,
    hin.skip_eq, fun hdata count hsmall => ?_, fun turns now s h => ?_, fun turns now flags h => ?_⟩
  · obtain ⟨hnext, hposition⟩ := hin.forward (Cursor.forward_call c call)
    refine ⟨hnext, Nat.le_trans (Nat.le_add_right ..) hposition, fun hok => ?_⟩
    rw [hok, Bool.toNat_true] at hposition
    exact hposition
  · have hle : c.position ≤ data.length := hin.position_le
    omega
  · obtain ⟨hnow, hturns⟩ := h.isIn Schema.forward_turn
    refine ⟨hnow, hturns, h.lt_length Schema.forward_turn, Schema.readFrom_of_turns h, ?_⟩
    intro record next body hread hbody
    obtain ⟨hshort, hpart⟩ := Schema.body_of_readRecord hread hbody
    exact ⟨Nat.lt_of_lt_of_le hshort hnow.suffix.length_le, hpart.trans hnow.suffix.isInfix⟩
  · obtain ⟨hnow, hturns⟩ := h.isIn forward_flagTurn
    exact ⟨hnow, hturns, h.lt_length forward_flagTurn, readFlags_of_turns h⟩

end AttemptLedger.Wire
