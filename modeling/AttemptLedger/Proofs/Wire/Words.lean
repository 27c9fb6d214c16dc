import AttemptLedger.Proofs.Wire.Written
import Mathlib.Algebra.Group.Nat.Defs

/-!
# Base-128 integers in a machine word

The word algorithms of `read_varint`, `write_varint`, `read_tag` and `write_tag`, with their shifts and
masks explicit. A word is put together by or-ing in seven bits of each byte at a growing shift, and it is
taken apart by shifting seven bits out at a time. They read and write what the definitions by numbers do,
on every input: of the tenth byte only the lowest bit finds room in the word, and an eleventh is not read.
-/

namespace AttemptLedger.Wire

/-! ### Bits of bytes and words -/

theorem toNat_and_low (b : UInt8) : (b &&& 0x7f).toNat = b.toNat % 128 := by
  rw [UInt8.toNat_and]
  exact Nat.and_two_pow_sub_one_eq_mod b.toNat 7

theorem or_high {n : Nat} (h : n < 256) : n ||| 128 = 128 + n % 128 := by
  have hlow : (n ||| 128) % 2 ^ 7 = n % 128 := by
    rw [Nat.or_mod_two_pow]
    exact Nat.or_zero _
  have hhigh : (n ||| 128) / 2 ^ 7 = 1 := by
    have hbit : n / 2 ^ 7 = 0 ∨ n / 2 ^ 7 = 1 := by omega
    rw [Nat.or_div_two_pow]
    rcases hbit with hbit | hbit <;> rw [hbit] <;> rfl
  omega

theorem and_high_eq_zero_iff {b : UInt8} : b &&& 0x80 = 0 ↔ b.toNat < 128 := by
  have hlow : (b.toNat &&& 128) % 2 ^ 7 = 0 := by
    rw [Nat.and_mod_two_pow]
    exact Nat.and_zero _
  have hhigh : (b.toNat &&& 128) / 2 ^ 7 = b.toNat / 2 ^ 7 % 2 := by
    rw [Nat.and_div_two_pow]
    exact Nat.and_two_pow_sub_one_eq_mod (b.toNat / 2 ^ 7) 1
  have hb := b.toNat_lt
  rw [← UInt8.toNat_inj, UInt8.toNat_and]
  show b.toNat &&& 128 = 0 ↔ b.toNat < 128
  omega

/-- What is or-ed in above the bits of a word is added to it; the bits that find no room are lost. -/
theorem or_shiftLeft {value : UInt64} {shift : Nat} (hshift : shift < 64) (hvalue : value.toNat < 2 ^ shift)
    (group : UInt8) :
    value ||| (group.toUInt64 <<< UInt64.ofNat shift) = .ofNat (value.toNat + 2 ^ shift * group.toNat) := by
  have hamount : (UInt64.ofNat shift).toNat % 64 = shift := by
    rw [UInt64.toNat_ofNat_of_lt' (Nat.lt_trans hshift (by decide)), Nat.mod_eq_of_lt hshift]
  rw [← UInt64.toNat_inj, UInt64.toNat_or, UInt64.toNat_shiftLeft, hamount, UInt8.toNat_toUInt64,
    UInt64.toNat_ofNat', Nat.shiftLeft_eq, Nat.mul_comm _ (2 ^ shift), Nat.add_comm value.toNat,
    Nat.two_pow_add_eq_or_of_lt hvalue, Nat.or_mod_two_pow, Nat.mod_eq_of_lt value.toNat_lt, Nat.or_comm]

/-! ### Reading -/

/-- Reads on behind the groups that make up `value` so far; the next one goes in at the shift. -/
def shiftIn (value : UInt64) (shift : Nat) : Bytes → Except Fault UInt64 × Bytes
  | [] => (.error .varintCutShort, [])
  | b :: rest =>
    let value := value ||| ((b &&& 0x7f).toUInt64 <<< UInt64.ofNat shift)
    if b &&& 0x80 = 0 then (.ok value, rest)
    else if 64 ≤ shift + 7 then (.error .varintOverflow, rest)
    else shiftIn value (shift + 7) rest

/-- A group that leaves room for another one is put in above the word without losing a bit. -/
theorem toNat_put {value : UInt64} {shift : Nat} (hshift : shift + 7 < 64)
    (hvalue : value.toNat < 2 ^ shift) {group : Nat} (hgroup : group < 128) :
    (UInt64.ofNat (value.toNat + 2 ^ shift * group)).toNat = value.toNat + 2 ^ shift * group
      ∧ value.toNat + 2 ^ shift * group < 2 ^ (shift + 7) := by
  have hpow : 2 ^ (shift + 7) = 2 ^ shift * 128 := Nat.pow_add 2 shift 7
  have hroom : 2 ^ (shift + 7) < 2 ^ 64 := Nat.pow_lt_pow_right (by decide) hshift
  have hput : 2 ^ shift * group ≤ 2 ^ shift * 127 := Nat.mul_le_mul_left _ (by omega)
  have hlt : value.toNat + 2 ^ shift * group < 2 ^ (shift + 7) := by omega
  exact ⟨UInt64.toNat_ofNat_of_lt' (Nat.lt_trans hlt hroom), hlt⟩

theorem put_put (value shift group n : Nat) :
    value + 2 ^ shift * group + 2 ^ (shift + 7) * n = value + 2 ^ shift * (group + 128 * n) := by
  rw [Nat.pow_add, Nat.mul_add, Nat.add_assoc, Nat.mul_assoc]

/-- Behind some groups, the word takes in what the groups still to come spell. -/
theorem shiftIn_eq {done groups : Nat} (hgroups : done + groups = 10) (hmore : 0 < groups) {value : UInt64}
    (hvalue : value.toNat < 2 ^ (7 * done)) (bytes : Bytes) :
    shiftIn value (7 * done) bytes
      = ((readGroups groups bytes).1.map fun n => .ofNat (value.toNat + 2 ^ (7 * done) * n),
        (readGroups groups bytes).2) := by
  -- By induction on the groups that are still allowed; what was read stays below the shift.
  induction groups generalizing done value bytes with
  | zero => exact absurd hmore (Nat.lt_irrefl 0)
  | succ groups ih =>
    cases bytes with
    | nil => rfl
    | cons b rest =>
      have hb := b.toNat_lt
      have hput := or_shiftLeft (by omega) hvalue (b &&& 0x7f)
      rw [toNat_and_low] at hput
      rw [shiftIn, readGroups, hput]
      by_cases hlast : b.toNat < 128
      · rw [if_pos (and_high_eq_zero_iff.2 hlast), if_pos hlast, Nat.mod_eq_of_lt hlast]
        rfl
      · have hgroup : b.toNat % 128 = b.toNat - 128 := by omega
        rw [if_neg (mt and_high_eq_zero_iff.1 hlast), if_neg hlast, hgroup]
        by_cases hfull : groups = 0
        · rw [if_pos hfull, if_pos (by omega)]
          rfl
        · obtain ⟨hword, hroom⟩ :=
            toNat_put (by omega) hvalue (by omega : b.toNat - 128 < 128)
          have hread := @ih (done + 1) (by omega) (Nat.pos_of_ne_zero hfull) _
            (by rw [hword]; exact hroom) rest
          rw [Nat.mul_succ, hword] at hread
          rw [if_neg hfull, if_neg (by omega), hread]
          rcases readGroups groups rest with ⟨fault | n, after⟩
          · simp only [Except.map]
          · simp only [Except.map, put_put]

/-- Reading a number is or-ing in its groups. -/
theorem readVarint_eq_shiftIn (bytes : Bytes) : readVarint bytes = shiftIn 0 0 bytes := by
  have hread := @shiftIn_eq 0 10 rfl (by decide) 0 (by decide) bytes
  rw [Nat.mul_zero] at hread
  rw [hread, readVarint]
  simp only [UInt64.toNat_zero, Nat.pow_zero, Nat.one_mul, Nat.zero_add]

/-- The tenth byte has one bit that finds room, its lowest; here it is not set, so nothing is left of it. -/
example : shiftIn 0 0 [0x85, 0x80, 0x80, 0x80, 0x80, 0x80, 0x80, 0x80, 0x80, 0x02] = (.ok 5, []) :=
  rfl

/-! ### Writing -/

/-- Writes the low seven bits of a word as long as there are others above them. -/
def shiftOut (value : UInt64) : Bytes :=
  if 0x80 ≤ value then (value.toUInt8 ||| 0x80) :: shiftOut (value >>> 7) else [value.toUInt8]
termination_by value.toNat
decreasing_by
  next hmore =>
    have hle : 128 ≤ value.toNat := UInt64.le_iff_toNat_le.1 hmore
    rw [UInt64.toNat_shiftRight, Nat.shiftRight_eq_div_pow]
    exact Nat.div_lt_self (by omega) (by decide)

theorem varintBytes_eq_shiftOut (value : UInt64) : varintBytes value.toNat = shiftOut value := by
  induction value using shiftOut.induct with
  | case1 value hmore ih =>
    have hle : 128 ≤ value.toNat := UInt64.le_iff_toNat_le.1 hmore
    have hrest : (value >>> 7).toNat = value.toNat / 128 := by
      rw [UInt64.toNat_shiftRight]
      exact Nat.shiftRight_eq_div_pow _ _
    have hbyte : value.toUInt8 ||| 0x80 = UInt8.ofNat (128 + value.toNat % 128) := by
      rw [← UInt8.toNat_inj, UInt8.toNat_or, UInt64.toNat_toUInt8, toNat_ofNat_of_lt (by omega)]
      exact (or_high (Nat.mod_lt _ (by decide))).trans (by omega)
    rw [varintBytes_of_le hle, shiftOut, if_pos hmore, hbyte, ← ih, hrest]
  | case2 value hlast =>
    have hlt : value.toNat < 128 := Nat.lt_of_not_le fun hle => hlast (UInt64.le_iff_toNat_le.2 hle)
    rw [varintBytes_of_lt hlt, shiftOut, if_neg hlast]
    rfl

/-! ### Tags -/

theorem tagBytes_eq_shiftOut (field : UInt32) (wireType : WireType) :
    tagBytes field.toNat wireType
      = shiftOut ((field.toUInt64 <<< 3) ||| UInt64.ofNat wireType.code) := by
  have hcode : wireType.code < 2 ^ 3 := by cases wireType <;> decide
  have hfield := field.toNat_lt
  have hword : ((field.toUInt64 <<< 3) ||| UInt64.ofNat wireType.code).toNat
      = field.toNat * 8 + wireType.code := by
    have hshifted : (field.toUInt64 <<< 3).toNat = 2 ^ 3 * field.toNat := by
      rw [UInt64.toNat_shiftLeft, UInt32.toNat_toUInt64]
      show field.toNat <<< 3 % 2 ^ 64 = _
      rw [Nat.shiftLeft_eq]
      omega
    rw [UInt64.toNat_or, hshifted, UInt64.toNat_ofNat_of_lt' (Nat.lt_trans hcode (by decide)),
      ← Nat.two_pow_add_eq_or_of_lt hcode, Nat.mul_comm]
  rw [← varintBytes_eq_shiftOut, hword, tagBytes]

/-- The field of a tag is cut to thirty-two bits, so the highest bits of a word play no part. -/
theorem Tag.ofWord_eq (value : UInt64) :
    Tag.ofWord value = ⟨(value >>> 3).toUInt32.toNat, .ofTag (value &&& 7).toUInt32.toNat⟩ := by
  have hfield : (value >>> 3).toUInt32.toNat = value.toNat / 8 % UInt32.size := by
    rw [UInt64.toNat_toUInt32, UInt64.toNat_shiftRight]
    exact congrArg (· % 2 ^ 32) (Nat.shiftRight_eq_div_pow _ _)
  have htype : (value &&& 7).toUInt32.toNat = value.toNat % 8 := by
    have hlow : (value &&& 7).toNat = value.toNat % 8 := by
      rw [UInt64.toNat_and]
      exact Nat.and_two_pow_sub_one_eq_mod value.toNat 3
    rw [UInt64.toNat_toUInt32, hlow]
    omega
  rw [Tag.ofWord, hfield, htype, WireType.ofTag, WireType.ofTag, Nat.mod_mod]

end AttemptLedger.Wire
