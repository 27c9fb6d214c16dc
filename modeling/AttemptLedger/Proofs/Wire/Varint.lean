import AttemptLedger.Wire.Varint
import Mathlib.Algebra.Group.Nat.Defs

/-!
# The shape of base-128 integers

A byte string is an integer when its last byte alone has the high bit unset and there are at most ten
bytes. The reader takes such a byte string from the front of its input, and nothing else.
-/

namespace AttemptLedger.Wire

/-- The number that groups of seven bits spell, the least significant group first. -/
def spelled : Bytes → Nat
  | [] => 0
  | b :: bytes => b.toNat % 128 + 128 * spelled bytes

/-- At most `limit` bytes, of which only the last one has its high bit unset. -/
def IsGroups (limit : Nat) (bytes : Bytes) : Prop :=
  ∃ front last, bytes = front ++ [last] ∧ front.length < limit
    ∧ (∀ b ∈ front, 128 ≤ b.toNat) ∧ last.toNat < 128

def IsVarint (bytes : Bytes) : Prop := IsGroups 10 bytes

/-- The low sixty-four bits of what is spelled. -/
def word (bytes : Bytes) : UInt64 := UInt64.ofNat (spelled bytes)

theorem isGroups_singleton {limit : Nat} {b : UInt8} (hb : b.toNat < 128) :
    IsGroups (limit + 1) [b] := by
  refine ⟨[], b, rfl, Nat.succ_pos limit, ?_, hb⟩
  intro x hx
  cases hx

theorem isGroups_cons {limit : Nat} {b : UInt8} {bytes : Bytes} (hb : 128 ≤ b.toNat)
    (h : IsGroups limit bytes) : IsGroups (limit + 1) (b :: bytes) := by
  obtain ⟨front, last, rfl, hlength, hfront, hlast⟩ := h
  refine ⟨b :: front, last, rfl, Nat.succ_lt_succ hlength, ?_, hlast⟩
  intro x hx
  rcases List.mem_cons.1 hx with rfl | hx
  · exact hb
  · exact hfront x hx

theorem isGroups_cases {limit : Nat} {bytes : Bytes} (h : IsGroups (limit + 1) bytes) :
    (∃ b, bytes = [b] ∧ b.toNat < 128)
      ∨ ∃ b rest, bytes = b :: rest ∧ 128 ≤ b.toNat ∧ IsGroups limit rest := by
  obtain ⟨front, last, rfl, hlength, hfront, hlast⟩ := h
  cases front with
  | nil => exact Or.inl ⟨last, rfl, hlast⟩
  | cons b front =>
    right
    refine ⟨b, front ++ [last], rfl, hfront b (List.mem_cons_self ..), front, last, rfl,
      Nat.lt_of_succ_lt_succ hlength, ?_, hlast⟩
    exact fun x hx => hfront x (List.mem_cons_of_mem _ hx)

theorem length_pos_of_isVarint {bytes : Bytes} (h : IsVarint bytes) : 0 < bytes.length := by
  obtain ⟨front, last, rfl, _⟩ := h
  rw [List.length_append, List.length_singleton]
  exact Nat.succ_pos _

theorem not_isGroups_zero (bytes : Bytes) : ¬IsGroups 0 bytes := by
  rintro ⟨front, last, _, hlength, _, _⟩
  exact Nat.not_lt_zero _ hlength

theorem isGroups_of_readGroups {groups n : Nat} {bytes rest : Bytes}
    (h : readGroups groups bytes = (.ok n, rest)) :
    ∃ taken, IsGroups groups taken ∧ bytes = taken ++ rest ∧ n = spelled taken := by
  induction groups generalizing n bytes with
  | zero => cases h
  | succ groups ih =>
    cases bytes with
    | nil => cases h
    | cons b bytes =>
      simp only [readGroups] at h
      split at h
      · next hb =>
        cases h
        refine ⟨[b], isGroups_singleton hb, rfl, ?_⟩
        show b.toNat = b.toNat % 128 + 128 * 0
        omega
      · next hb =>
        split at h
        · cases h
        · cases hread : readGroups groups bytes with
          | mk outcome after =>
            rw [hread] at h
            cases outcome with
            | error fault => cases h
            | ok m =>
              cases h
              obtain ⟨taken, htaken, rfl, rfl⟩ := ih hread
              refine ⟨b :: taken, isGroups_cons (by omega) htaken, rfl, ?_⟩
              have := b.toNat_lt
              show b.toNat - 128 + 128 * spelled taken = b.toNat % 128 + 128 * spelled taken
              omega

theorem readGroups_of_isGroups {groups : Nat} {taken : Bytes} (h : IsGroups groups taken)
    (rest : Bytes) : readGroups groups (taken ++ rest) = (.ok (spelled taken), rest) := by
  induction groups generalizing taken with
  | zero => exact absurd h (not_isGroups_zero taken)
  | succ groups ih =>
    rcases isGroups_cases h with ⟨b, rfl, hb⟩ | ⟨b, tail, rfl, hb, htail⟩
    · have hvalue : spelled [b] = b.toNat := by
        show b.toNat % 128 + 128 * 0 = b.toNat
        omega
      rw [List.singleton_append, readGroups, if_pos hb, hvalue]
    · -- Another group follows, so this one cannot have been the last that is allowed.
      have hgroups : groups ≠ 0 := by
        rintro rfl
        exact not_isGroups_zero tail htail
      have hvalue : spelled (b :: tail) = b.toNat - 128 + 128 * spelled tail := by
        have := b.toNat_lt
        show b.toNat % 128 + 128 * spelled tail = _
        omega
      rw [List.cons_append, readGroups, if_neg (by omega), if_neg hgroups, ih htail, hvalue]
      rfl

/-- Reading succeeds exactly on what starts with an integer, and gives its low sixty-four bits. -/
theorem readVarint_eq_ok_iff {bytes rest : Bytes} {n : UInt64} :
    readVarint bytes = (.ok n, rest)
      ↔ ∃ taken, IsVarint taken ∧ bytes = taken ++ rest ∧ n = word taken := by
  constructor
  · intro h
    cases hread : readGroups 10 bytes with
    | mk outcome after =>
      rw [readVarint, hread] at h
      cases outcome with
      | error fault => cases h
      | ok m =>
        cases h
        obtain ⟨taken, htaken, hbytes, rfl⟩ := isGroups_of_readGroups hread
        exact ⟨taken, htaken, hbytes, rfl⟩
  · rintro ⟨taken, htaken, rfl, rfl⟩
    rw [readVarint, readGroups_of_isGroups htaken]
    rfl

/-- Reading takes exactly the bytes of the number, whatever follows them. -/
theorem readGroups_varintBytes {groups n : Nat} (h : n < 128 ^ (groups + 1)) (rest : Bytes) :
    readGroups (groups + 1) (varintBytes n ++ rest) = (.ok n, rest) := by
  induction groups generalizing n with
  | zero =>
    have hSmall : n < 128 := by simpa using h
    have hByte : (UInt8.ofNat n).toNat = n := toNat_ofNat_of_lt (by omega)
    rw [varintBytes_of_lt hSmall, List.singleton_append, readGroups, hByte, if_pos hSmall]
  | succ groups ih =>
    by_cases hSmall : n < 128
    · have hByte : (UInt8.ofNat n).toNat = n := toNat_ofNat_of_lt (by omega)
      rw [varintBytes_of_lt hSmall, List.singleton_append, readGroups, hByte, if_pos hSmall]
    · have hByte : (UInt8.ofNat (128 + n % 128)).toNat = 128 + n % 128 :=
        toNat_ofNat_of_lt (by omega)
      have hRest : n / 128 < 128 ^ (groups + 1) := by
        rw [Nat.pow_succ] at h
        exact Nat.div_lt_of_lt_mul (by rw [Nat.mul_comm]; exact h)
      have hValue : 128 + n % 128 - 128 + 128 * (n / 128) = n := by omega
      rw [varintBytes_of_le (Nat.le_of_not_lt hSmall), List.cons_append, readGroups, hByte,
        if_neg (by omega), if_neg (by omega), ih hRest]
      simp only [Except.map, hValue]

theorem readVarint_varintBytes {n : Nat} (h : n < 2 ^ 64) (rest : Bytes) :
    readVarint (varintBytes n ++ rest) = (.ok (UInt64.ofNat n), rest) := by
  rw [readVarint, readGroups_varintBytes (by omega)]
  rfl

theorem isVarint_varintBytes {n : Nat} (h : n < 2 ^ 64) :
    IsVarint (varintBytes n) ∧ word (varintBytes n) = UInt64.ofNat n := by
  have hread := readVarint_varintBytes h []
  rw [List.append_nil, readVarint_eq_ok_iff] at hread
  obtain ⟨taken, htaken, hbytes, hn⟩ := hread
  rw [List.append_nil] at hbytes
  rw [hbytes]
  exact ⟨htaken, hn.symm⟩

end AttemptLedger.Wire
