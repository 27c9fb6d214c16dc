import AttemptLedger.Text.Utf8
import AttemptLedger.Wire.Fault

/-!
# Base-128 integers

A number is written in groups of seven bits, least significant group first; every byte but the last
has its high bit set. Reading takes at most ten bytes and keeps the low sixty-four bits of what they
spell. Main statements: what is left after reading is the end of what was there, and a number that was
read took at least one byte.
-/

namespace AttemptLedger.Wire

/-- The bytes of a number, no more than needed (`write_varint`). -/
def varintBytes (n : Nat) : Bytes :=
  if n < 128 then [UInt8.ofNat n] else UInt8.ofNat (128 + n % 128) :: varintBytes (n / 128)
termination_by n

/-- Reads at most `groups` groups: the number they spell and what follows them, or what is wrong and
what is left then. -/
def readGroups : (groups : Nat) → Bytes → Except Fault Nat × Bytes
  | 0, rest => (.error .varintOverflow, rest)
  | _ + 1, [] => (.error .varintCutShort, [])
  | groups + 1, b :: rest =>
    if b.toNat < 128 then (.ok b.toNat, rest)
    else if groups = 0 then (.error .varintOverflow, rest)
    else
      let (outcome, rest) := readGroups groups rest
      (outcome.map fun n => b.toNat - 128 + 128 * n, rest)

/-- Reads a number of at most ten groups (`read_varint`); bits beyond the sixty-fourth are dropped. -/
def readVarint (bytes : Bytes) : Except Fault UInt64 × Bytes :=
  let (outcome, rest) := readGroups 10 bytes
  (outcome.map UInt64.ofNat, rest)

theorem toNat_ofNat_of_lt {n : Nat} (h : n < 256) : (UInt8.ofNat n).toNat = n :=
  UInt8.toNat_ofNat_of_lt h

theorem varintBytes_of_lt {n : Nat} (h : n < 128) : varintBytes n = [UInt8.ofNat n] := by
  rw [varintBytes, if_pos h]

theorem varintBytes_of_le {n : Nat} (h : 128 ≤ n) :
    varintBytes n = UInt8.ofNat (128 + n % 128) :: varintBytes (n / 128) := by
  rw [varintBytes, if_neg (Nat.not_lt.2 h)]

theorem readGroups_suffix (groups : Nat) (bytes : Bytes) :
    (readGroups groups bytes).2 <:+ bytes := by
  induction groups generalizing bytes with
  | zero => exact List.suffix_refl _
  | succ groups ih =>
    cases bytes with
    | nil => exact List.suffix_refl _
    | cons b rest =>
      simp only [readGroups]
      split
      · exact List.suffix_cons b rest
      · split
        · exact List.suffix_cons b rest
        · exact (ih rest).trans (List.suffix_cons b rest)

theorem readVarint_suffix (bytes : Bytes) : (readVarint bytes).2 <:+ bytes :=
  readGroups_suffix 10 bytes

theorem readGroups_length_lt {groups n : Nat} {bytes : Bytes}
    (h : (readGroups groups bytes).1 = .ok n) : (readGroups groups bytes).2.length < bytes.length := by
  cases groups with
  | zero => simp [readGroups] at h
  | succ groups =>
    cases bytes with
    | nil => simp [readGroups] at h
    | cons b rest =>
      simp only [readGroups]
      split
      · simp
      · split
        · simp
        · exact Nat.lt_succ_of_le (readGroups_suffix groups rest).length_le

theorem readVarint_length_lt {n : UInt64} {bytes : Bytes} (h : (readVarint bytes).1 = .ok n) :
    (readVarint bytes).2.length < bytes.length := by
  cases hg : (readGroups 10 bytes).1 with
  | error fault => simp [readVarint, hg, Except.map] at h
  | ok m => exact readGroups_length_lt hg

end AttemptLedger.Wire
