import AttemptLedger.Proofs.Wire.Position
import AttemptLedger.Proofs.Wire.Width
import AttemptLedger.Proofs.Wire.Written
import Mathlib.Data.Nat.Size
import Mathlib.Order.Basic

/-!
# Integers in as few bytes as can be

A number is written in one byte for every seven bits of it, the last of which may be fewer. No reader takes
fewer bytes and gives the same number. Wherever a number is written it is read back and nothing else is taken,
and a signed integer is read back behind its tag.
-/

namespace AttemptLedger.Wire

/-! ### Lengths -/

theorem length_varintBytes_pos (n : Nat) : 0 < (varintBytes n).length := by
  rw [varintBytes]
  split <;> simp

/-- Some bytes suffice for a number exactly if seven bits in each of them do. -/
theorem length_varintBytes_le_iff {n count : Nat} :
    (varintBytes n).length ≤ count + 1 ↔ n < 128 ^ (count + 1) := by
  induction count generalizing n with
  | zero =>
    by_cases hsmall : n < 128
    · rw [varintBytes_of_lt hsmall]
      exact iff_of_true (Nat.le_refl _) hsmall
    · have hrest := length_varintBytes_pos (n / 128)
      rw [varintBytes_of_le (Nat.le_of_not_lt hsmall), List.length_cons]
      exact iff_of_false (by omega) hsmall
  | succ count ih =>
    have hpow : 128 ^ (count + 1 + 1) = 128 ^ (count + 1) * 128 := Nat.pow_succ 128 (count + 1)
    by_cases hsmall : n < 128
    · have hone : 0 < 128 ^ (count + 1) := Nat.pow_pos (by decide)
      rw [varintBytes_of_lt hsmall, List.length_singleton]
      exact iff_of_true (by omega) (by omega)
    · rw [varintBytes_of_le (Nat.le_of_not_lt hsmall), List.length_cons, Nat.add_le_add_iff_right, ih,
        hpow, Nat.div_lt_iff_lt_mul (by decide)]

/-- One byte for each group of seven bits that was started, and one for zero. -/
theorem length_varintBytes (n : Nat) : (varintBytes n).length = max 1 ((n.size + 6) / 7) := by
  have hpos := length_varintBytes_pos n
  -- Both sides have the same upper bounds: of the left one these are the powers of 128 above the number.
  refine eq_of_forall_ge_iff fun count => ?_
  cases count with
  | zero => exact iff_of_false (by omega) (by omega)
  | succ count =>
    have hpow : (128 : Nat) ^ (count + 1) = 2 ^ (7 * (count + 1)) := (Nat.pow_mul 2 7 _).symm
    rw [length_varintBytes_le_iff, hpow, ← Nat.size_le]
    omega

theorem length_varintBytes_word_le (bytes : Bytes) (h : 0 < bytes.length) :
    (varintBytes (word bytes).toNat).length ≤ bytes.length := by
  obtain ⟨count, hcount⟩ := Nat.exists_eq_succ_of_ne_zero (Nat.ne_of_gt h)
  have hspelled := spelled_lt bytes
  rw [hcount] at hspelled ⊢
  rw [length_varintBytes_le_iff, toNat_word]
  exact Nat.lt_of_le_of_lt (Nat.mod_le _ _) hspelled

/-! ### Reading back -/

namespace Cursor

variable {n : Nat}

theorem rest_seek_append (front taken back : Bytes) :
    (seek (front ++ (taken ++ back)) front.length).rest
      = taken ++ (seek (front ++ (taken ++ back)) (front.length + taken.length)).rest := by
  have hnext := seek_append (front ++ taken) back
  rw [List.append_assoc, List.length_append] at hnext
  rw [seek_append, hnext]

theorem readVarint_seek (h : n < 2 ^ 64) (front back : Bytes) :
    (seek (front ++ (varintBytes n ++ back)) front.length).readVarint
      = (.ok (.ofNat n), seek (front ++ (varintBytes n ++ back)) (front.length + (varintBytes n).length)) := by
  obtain ⟨hvarint, hword⟩ := isVarint_varintBytes h
  exact readVarint_eq_ok_iff.2 ⟨_, hvarint, hword.symm, rest_seek_append .., rfl⟩

theorem readTag_of_readVarint {c next : Cursor} {value : UInt64} (h : c.readVarint = (.ok value, next)) :
    c.readTag = (if (Tag.ofWord value).field = 0 then .error .fieldZero else .ok (.ofWord value), next) := by
  rw [readTag, h]
  dsimp only
  by_cases hfield : (Tag.ofWord value).field = 0
  · rw [if_pos hfield]
    exact if_pos hfield
  · rw [if_neg hfield]
    exact if_neg hfield

theorem readTag_seek (field : UInt32) (wireType : WireType) (front back : Bytes) :
    (seek (front ++ (tagBytes field.toNat wireType ++ back)) front.length).readTag
      = (if field = 0 then .error .fieldZero else .ok ⟨field.toNat, wireType⟩,
        seek (front ++ (tagBytes field.toNat wireType ++ back))
          (front.length + (tagBytes field.toNat wireType).length)) := by
  obtain ⟨hvarint, htag⟩ := tagBytes_spec field.toNat_lt wireType
  have hread := readVarint_eq_ok_iff.2 ⟨_, hvarint, rfl, rest_seek_append front _ back, rfl⟩
  have hzero : field.toNat = 0 ↔ field = 0 := by rw [← UInt32.toNat_inj, UInt32.toNat_zero]
  rw [readTag_of_readVarint hread, htag]
  simp only [hzero]

theorem readInt_seek (x : Int64) (front back : Bytes) :
    (seek (front ++ (varintBytes x.toUInt64.toNat ++ back)) front.length).readInt
      = (.ok x, seek (front ++ (varintBytes x.toUInt64.toNat ++ back))
        (front.length + (varintBytes x.toUInt64.toNat).length)) := by
  rw [readInt, readVarint_seek x.toUInt64.toNat_lt, UInt64.ofNat_toNat]
  rfl

theorem readInt_behind_tag (field : Nat) (x : Int64) (front back : Bytes) :
    (seek (front ++ (requiredInt field x ++ back)) (front.length + (tagBytes field .varint).length)).readInt
      = (.ok x, seek (front ++ (requiredInt field x ++ back))
        (front.length + (requiredInt field x).length)) := by
  have hdata : front ++ (requiredInt field x ++ back)
      = front ++ tagBytes field .varint ++ (varintBytes x.toUInt64.toNat ++ back) := by
    simp only [requiredInt, List.append_assoc]
  have hlast : front.length + (requiredInt field x).length
      = (front ++ tagBytes field .varint).length + (varintBytes x.toUInt64.toNat).length := by
    simp only [requiredInt, List.length_append, Nat.add_assoc]
  rw [hdata, hlast, ← List.length_append]
  exact readInt_seek x _ back

end Cursor

/-- A number is read back from where it was written, whatever stands around it, and what follows it is
left. It is written in one byte for each group of seven bits that was started, hence in ten if it has the
highest bit of a word; no cursor takes fewer bytes and reads the same number. A signed integer is read back
behind the tag of its field. -/
theorem varint_read_back_and_minimal (v : UInt64) (front back : Bytes) :
    let bytes := varintBytes v.toNat
    let data := front ++ (bytes ++ back)
    ((Cursor.seek data front.length).readVarint = (.ok v, .seek data (front.length + bytes.length))
      ∧ (Cursor.seek data (front.length + bytes.length)).rest = back)
    ∧ bytes.length = max 1 ((v.toNat.size + 6) / 7)
    ∧ (bytes.length = 10 ↔ 2 ^ 63 ≤ v.toNat)
    ∧ (∀ c after : Cursor, c.readVarint = (.ok v, after) → bytes.length + after.rest.length ≤ c.rest.length)
    ∧ ∀ (field : UInt32) (x : Int64),
      let data := front ++ (requiredInt field.toNat x ++ back)
      let tagged := (Cursor.seek data front.length).readTag
      tagged.1 = (if field = 0 then .error .fieldZero else .ok ⟨field.toNat, .varint⟩)
        ∧ tagged.2.readInt = (.ok x, .seek data (front.length + (requiredInt field.toNat x).length)) := by
  intro bytes data
  refine ⟨⟨?_, ?_⟩, length_varintBytes _, ?_, ?_, ?_⟩
  · have hread := Cursor.readVarint_seek v.toNat_lt front back
    rwa [UInt64.ofNat_toNat] at hread
  · have hrest := Cursor.rest_seek_append front bytes back
    rw [Cursor.seek_append] at hrest
    exact (List.append_cancel_left hrest).symm
  · have hnine : bytes.length ≤ 9 ↔ v.toNat < 128 ^ 9 := length_varintBytes_le_iff
    have hten : bytes.length ≤ 10 ↔ v.toNat < 128 ^ 10 := length_varintBytes_le_iff
    have := v.toNat_lt
    omega
  · intro c after hread
    obtain ⟨taken, htaken, hv, hrest, _⟩ := Cursor.readVarint_eq_ok_iff.1 hread
    have hlength := length_varintBytes_word_le taken (length_pos_of_isVarint htaken)
    rw [← hv] at hlength
    rw [hrest, List.length_append]
    exact Nat.add_le_add_right hlength _
  · intro field x data tagged
    have htagged := Cursor.readTag_seek field .varint front (varintBytes x.toUInt64.toNat ++ back)
    rw [← List.append_assoc (tagBytes _ _)] at htagged
    have hnext : tagged.2 = .seek data (front.length + (tagBytes field.toNat .varint).length) :=
      congrArg Prod.snd htagged
    rw [hnext]
    exact ⟨congrArg Prod.fst htagged, Cursor.readInt_behind_tag field.toNat x front back⟩

end AttemptLedger.Wire
