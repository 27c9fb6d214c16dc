import AttemptLedger.Proofs.Text.Utf8
import Mathlib.Data.String.Basic

/-!
# The order of texts is the order of their bytes

The bytes of a character that comes first come first, whatever follows them, so texts stand in the same
order as their bytes do.
-/

namespace AttemptLedger.Text.Utf8

/-- The four forms of a character; in each the digits after the first byte have six bits. -/
theorem encodeChar_forms (c : Char) :
    (∃ a, encodeChar c = [a] ∧ a.toNat < 0x80 ∧ c.toNat = a.toNat)
      ∨ (∃ a b, encodeChar c = [a, b] ∧ 0x80 ≤ c.toNat ∧ 0xc0 ≤ a.toNat ∧ a.toNat < 0xe0
        ∧ 0x80 ≤ b.toNat ∧ b.toNat < 0xc0
        ∧ c.toNat = (a.toNat - 0xc0) * 64 + (b.toNat - 0x80))
      ∨ (∃ a b d, encodeChar c = [a, b, d] ∧ 0x800 ≤ c.toNat ∧ 0xe0 ≤ a.toNat ∧ a.toNat < 0xf0
        ∧ 0x80 ≤ b.toNat ∧ b.toNat < 0xc0 ∧ 0x80 ≤ d.toNat ∧ d.toNat < 0xc0
        ∧ c.toNat = (a.toNat - 0xe0) * 4096 + (b.toNat - 0x80) * 64 + (d.toNat - 0x80))
      ∨ ∃ a b d e, encodeChar c = [a, b, d, e] ∧ 0x10000 ≤ c.toNat ∧ 0xf0 ≤ a.toNat
        ∧ 0x80 ≤ b.toNat ∧ b.toNat < 0xc0 ∧ 0x80 ≤ d.toNat ∧ d.toNat < 0xc0
        ∧ 0x80 ≤ e.toNat ∧ e.toNat < 0xc0
        ∧ c.toNat = (a.toNat - 0xf0) * 262144 + (b.toNat - 0x80) * 4096 + (d.toNat - 0x80) * 64
          + (e.toNat - 0x80) := by
  have hrange := char_range c
  unfold encodeChar
  generalize c.toNat = n at hrange ⊢
  dsimp only
  by_cases h1 : n < 0x80
  · rw [if_pos h1]
    refine .inl ⟨_, rfl, ?_⟩
    simp only [UInt8.toNat_ofNat']
    omega
  by_cases h2 : n < 0x800
  · rw [if_neg h1, if_pos h2]
    refine .inr (.inl ⟨_, _, rfl, ?_⟩)
    simp only [UInt8.toNat_ofNat']
    omega
  by_cases h3 : n < 0x10000
  · rw [if_neg h1, if_neg h2, if_pos h3]
    refine .inr (.inr (.inl ⟨_, _, _, rfl, ?_⟩))
    simp only [UInt8.toNat_ofNat']
    omega
  · rw [if_neg h1, if_neg h2, if_neg h3]
    refine .inr (.inr (.inr ⟨_, _, _, _, rfl, ?_⟩))
    simp only [UInt8.toNat_ofNat']
    omega

theorem encodeChar_ne_nil (c : Char) : encodeChar c ≠ [] := by
  intro h
  rcases encodeChar_forms c with ⟨_, hc, _⟩ | ⟨_, _, hc, _⟩ | ⟨_, _, _, hc, _⟩ | ⟨_, _, _, _, hc, _⟩
  all_goals simp [hc] at h

theorem cons_lt_cons {a b : UInt8} {as bs : Bytes} :
    a :: as < b :: bs ↔ a.toNat < b.toNat ∨ a.toNat = b.toNat ∧ as < bs := by
  rw [List.cons_lt_cons_iff, UInt8.lt_iff_toNat_lt, UInt8.toNat_inj]

theorem toNat_lt_toNat {c d : Char} : c.toNat < d.toNat ↔ c < d := by
  rw [Char.lt_def, UInt32.lt_iff_toNat_lt]
  rfl

theorem encodeChar_append_lt {c d : Char} (h : c < d) (as bs : Bytes) :
    encodeChar c ++ as < encodeChar d ++ bs := by
  have hlt := toNat_lt_toNat.2 h
  -- A longer form has a greater first byte; forms of one length are compared digit by digit.
  rcases encodeChar_forms c with ⟨_, hc, _⟩ | ⟨_, _, hc, _⟩ | ⟨_, _, _, hc, _⟩ | ⟨_, _, _, _, hc, _⟩
    <;> rcases encodeChar_forms d with
      ⟨_, hd, _⟩ | ⟨_, _, hd, _⟩ | ⟨_, _, _, hd, _⟩ | ⟨_, _, _, _, hd, _⟩
    <;> simp only [hc, hd, List.cons_append, List.nil_append, cons_lt_cons]
    <;> omega

theorem flatMap_lt_flatMap {cs ds : List Char} (h : cs < ds) :
    cs.flatMap encodeChar < ds.flatMap encodeChar := by
  induction cs generalizing ds with
  | nil =>
    cases ds with
    | nil => exact absurd h (lt_irrefl _)
    | cons d ds =>
      rw [List.flatMap_cons, List.flatMap_nil]
      cases hbytes : encodeChar d ++ ds.flatMap encodeChar with
      | nil => exact absurd (List.append_eq_nil_iff.1 hbytes).1 (encodeChar_ne_nil d)
      | cons b bs => exact List.nil_lt_cons b bs
  | cons c cs ih =>
    cases ds with
    | nil => exact absurd h (List.not_lt_nil _)
    | cons d ds =>
      rw [List.flatMap_cons, List.flatMap_cons]
      rcases List.cons_lt_cons_iff.1 h with hlt | ⟨heq, htail⟩
      · exact encodeChar_append_lt hlt _ _
      · rw [heq]
        exact List.append_left_lt (ih htail)

theorem encode_lt_encode {s t : String} : encode s < encode t ↔ s < t := by
  have hmono : ∀ {s t : String}, s < t → encode s < encode t :=
    fun h => flatMap_lt_flatMap (String.lt_iff_toList_lt.1 h)
  constructor
  · intro h
    rcases lt_trichotomy s t with hlt | heq | hgt
    · exact hlt
    · rw [heq] at h
      exact absurd h (List.lt_irrefl _)
    · exact absurd (hmono hgt) (List.lt_asymm h)
  · exact hmono

end AttemptLedger.Text.Utf8
