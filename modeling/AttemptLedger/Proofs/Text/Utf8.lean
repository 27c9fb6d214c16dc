import AttemptLedger.Proofs.Outcome
import AttemptLedger.Text.Utf8

/-!
# UTF-8 there and back

Reading the bytes of a text gives the text again, and every byte string that can be read is the bytes
of what it is read as. So the readable byte strings are exactly the bytes of texts, one for each.
-/

namespace AttemptLedger.Text.Utf8

theorem char_range (c : Char) : c.toNat < 0xd800 ∨ 0xdfff < c.toNat ∧ c.toNat < 0x110000 := c.valid

theorem toNat_charOfNat {n : Nat} (h : n < 0xd800 ∨ 0xdfff < n ∧ n < 0x110000) :
    (Char.ofNat n).toNat = n := by
  have hv : n.isValidChar := h
  rw [Char.ofNat, dif_pos hv]
  rfl

theorem isTail_iff {b : UInt8} : isTail b = true ↔ 0x80 ≤ b.toNat ∧ b.toNat ≤ 0xbf := by
  simp only [isTail, Bool.and_eq_true, decide_eq_true_eq]

theorem isSecondOfThree_iff {a b : UInt8} :
    isSecondOfThree a b = true ↔ 0x80 ≤ b.toNat ∧ b.toNat ≤ 0xbf
      ∧ (a.toNat = 0xe0 → 0xa0 ≤ b.toNat) ∧ (a.toNat = 0xed → b.toNat ≤ 0x9f) := by
  unfold isSecondOfThree
  split
  · simp only [Bool.and_eq_true, decide_eq_true_eq]; omega
  · split
    · simp only [Bool.and_eq_true, decide_eq_true_eq]; omega
    · rw [isTail_iff]; omega

theorem isSecondOfFour_iff {a b : UInt8} :
    isSecondOfFour a b = true ↔ 0x80 ≤ b.toNat ∧ b.toNat ≤ 0xbf
      ∧ (a.toNat = 0xf0 → 0x90 ≤ b.toNat) ∧ (a.toNat = 0xf4 → b.toNat ≤ 0x8f) := by
  unfold isSecondOfFour
  split
  · simp only [Bool.and_eq_true, decide_eq_true_eq]; omega
  · split
    · simp only [Bool.and_eq_true, decide_eq_true_eq]; omega
    · rw [isTail_iff]; omega

theorem toNat_byte {n : Nat} (h : n < 256) : (UInt8.ofNat n).toNat = n := UInt8.toNat_ofNat_of_lt h

theorem decodeFrom_one {a : UInt8} (index : Nat) (rest : Bytes) (ha : a.toNat < 0x80) :
    decodeFrom index (a :: rest)
      = (decodeFrom (index + 1) rest).map (Char.ofNat a.toNat :: ·) := by
  conv => lhs; unfold decodeFrom
  exact if_pos ha

theorem decodeFrom_two {a b : UInt8} (index : Nat) (rest : Bytes)
    (ha : 0xc2 ≤ a.toNat ∧ a.toNat < 0xe0) (hb : isTail b = true) :
    decodeFrom index (a :: b :: rest) = (decodeFrom (index + 2) rest).map
      (Char.ofNat ((a.toNat - 0xc0) * 64 + (b.toNat - 0x80)) :: ·) := by
  conv => lhs; unfold decodeFrom
  rw [if_neg (by omega), if_neg (by omega), if_pos ha.2]
  dsimp only
  rw [if_pos hb]

theorem decodeFrom_three {a b c : UInt8} (index : Nat) (rest : Bytes)
    (ha : 0xe0 ≤ a.toNat ∧ a.toNat < 0xf0) (hb : isSecondOfThree a b = true)
    (hc : isTail c = true) :
    decodeFrom index (a :: b :: c :: rest) = (decodeFrom (index + 3) rest).map
      (Char.ofNat ((a.toNat - 0xe0) * 4096 + (b.toNat - 0x80) * 64 + (c.toNat - 0x80)) :: ·) := by
  conv => lhs; unfold decodeFrom
  rw [if_neg (by omega), if_neg (by omega), if_neg (by omega), if_pos ha.2]
  dsimp only
  rw [if_pos hb, if_pos hc]

theorem decodeFrom_four {a b c d : UInt8} (index : Nat) (rest : Bytes)
    (ha : 0xf0 ≤ a.toNat ∧ a.toNat < 0xf5) (hb : isSecondOfFour a b = true)
    (hc : isTail c = true) (hd : isTail d = true) :
    decodeFrom index (a :: b :: c :: d :: rest) = (decodeFrom (index + 4) rest).map
      (Char.ofNat ((a.toNat - 0xf0) * 262144 + (b.toNat - 0x80) * 4096 + (c.toNat - 0x80) * 64
        + (d.toNat - 0x80)) :: ·) := by
  conv => lhs; unfold decodeFrom
  rw [if_neg (by omega), if_neg (by omega), if_neg (by omega), if_neg (by omega), if_pos ha.2]
  dsimp only
  rw [if_pos hb, if_pos hc, if_pos hd]

theorem decodeFrom_encodeChar (c : Char) (index : Nat) (rest : Bytes) :
    ∃ next, decodeFrom index (encodeChar c ++ rest) = (decodeFrom next rest).map (c :: ·) := by
  have hrange := char_range c
  have hback := Char.ofNat_toNat c
  unfold encodeChar
  generalize c.toNat = n at hrange hback ⊢
  dsimp only
  split
  · next h1 =>
    have ha : (UInt8.ofNat n).toNat = n := toNat_byte (by omega)
    refine ⟨index + 1, ?_⟩
    rw [List.singleton_append, decodeFrom_one index rest (by omega), ha, hback]
  · split
    · next h1 h2 =>
      have ha : (UInt8.ofNat (0xc0 + n / 64)).toNat = 0xc0 + n / 64 := toNat_byte (by omega)
      have hb : (UInt8.ofNat (0x80 + n % 64)).toNat = 0x80 + n % 64 := toNat_byte (by omega)
      have hn : (0xc0 + n / 64 - 0xc0) * 64 + (0x80 + n % 64 - 0x80) = n := by omega
      refine ⟨index + 2, ?_⟩
      simp only [List.cons_append, List.nil_append]
      rw [decodeFrom_two index rest (by omega) (isTail_iff.2 (by omega)), ha, hb, hn, hback]
    · split
      · next h1 h2 h3 =>
        have ha : (UInt8.ofNat (0xe0 + n / 4096)).toNat = 0xe0 + n / 4096 := toNat_byte (by omega)
        have hb : (UInt8.ofNat (0x80 + n / 64 % 64)).toNat = 0x80 + n / 64 % 64 :=
          toNat_byte (by omega)
        have hc : (UInt8.ofNat (0x80 + n % 64)).toNat = 0x80 + n % 64 := toNat_byte (by omega)
        have hn : (0xe0 + n / 4096 - 0xe0) * 4096 + (0x80 + n / 64 % 64 - 0x80) * 64
            + (0x80 + n % 64 - 0x80) = n := by omega
        refine ⟨index + 3, ?_⟩
        simp only [List.cons_append, List.nil_append]
        rw [decodeFrom_three index rest (by omega) (isSecondOfThree_iff.2 (by omega))
          (isTail_iff.2 (by omega)), ha, hb, hc, hn, hback]
      · next h1 h2 h3 =>
        have ha : (UInt8.ofNat (0xf0 + n / 262144)).toNat = 0xf0 + n / 262144 :=
          toNat_byte (by omega)
        have hb : (UInt8.ofNat (0x80 + n / 4096 % 64)).toNat = 0x80 + n / 4096 % 64 :=
          toNat_byte (by omega)
        have hc : (UInt8.ofNat (0x80 + n / 64 % 64)).toNat = 0x80 + n / 64 % 64 :=
          toNat_byte (by omega)
        have hd : (UInt8.ofNat (0x80 + n % 64)).toNat = 0x80 + n % 64 := toNat_byte (by omega)
        have hn : (0xf0 + n / 262144 - 0xf0) * 262144 + (0x80 + n / 4096 % 64 - 0x80) * 4096
            + (0x80 + n / 64 % 64 - 0x80) * 64 + (0x80 + n % 64 - 0x80) = n := by omega
        refine ⟨index + 4, ?_⟩
        simp only [List.cons_append, List.nil_append]
        rw [decodeFrom_four index rest (by omega) (isSecondOfFour_iff.2 (by omega))
          (isTail_iff.2 (by omega)) (isTail_iff.2 (by omega)), ha, hb, hc, hd, hn, hback]

theorem decodeFrom_flatMap (cs : List Char) (index : Nat) :
    decodeFrom index (cs.flatMap encodeChar) = .ok cs := by
  induction cs generalizing index with
  | nil => rw [List.flatMap_nil, decodeFrom]
  | cons c cs ih =>
    obtain ⟨next, hnext⟩ := decodeFrom_encodeChar c index (cs.flatMap encodeChar)
    rw [List.flatMap_cons, hnext, ih next]
    rfl

theorem decode_encode (s : String) : decode (encode s) = .ok s := by
  rw [decode, encode, decodeFrom_flatMap]
  show Except.ok (String.ofList s.toList) = .ok s
  rw [String.ofList_toList]

theorem encodeChar_one {a : UInt8} (ha : a.toNat < 0x80) : encodeChar (Char.ofNat a.toNat) = [a] := by
  have hn := toNat_charOfNat (n := a.toNat) (by omega)
  unfold encodeChar
  simp only [hn]
  rw [if_pos ha, UInt8.ofNat_toNat]

theorem encodeChar_two {a b : UInt8} (ha : 0xc2 ≤ a.toNat ∧ a.toNat < 0xe0)
    (hb : isTail b = true) :
    encodeChar (Char.ofNat ((a.toNat - 0xc0) * 64 + (b.toNat - 0x80))) = [a, b] := by
  have hb := isTail_iff.1 hb
  have hn := toNat_charOfNat (n := (a.toNat - 0xc0) * 64 + (b.toNat - 0x80)) (by omega)
  have hlead : 0xc0 + ((a.toNat - 0xc0) * 64 + (b.toNat - 0x80)) / 64 = a.toNat := by omega
  have htail : 0x80 + ((a.toNat - 0xc0) * 64 + (b.toNat - 0x80)) % 64 = b.toNat := by omega
  unfold encodeChar
  simp only [hn]
  rw [if_neg (by omega), if_pos (by omega), hlead, htail, UInt8.ofNat_toNat, UInt8.ofNat_toNat]

theorem encodeChar_three {a b c : UInt8} (ha : 0xe0 ≤ a.toNat ∧ a.toNat < 0xf0)
    (hb : isSecondOfThree a b = true) (hc : isTail c = true) :
    encodeChar (Char.ofNat ((a.toNat - 0xe0) * 4096 + (b.toNat - 0x80) * 64 + (c.toNat - 0x80)))
      = [a, b, c] := by
  have hb := isSecondOfThree_iff.1 hb
  have hc := isTail_iff.1 hc
  obtain ⟨n, hdef⟩ : ∃ n, n = (a.toNat - 0xe0) * 4096 + (b.toNat - 0x80) * 64 + (c.toNat - 0x80) :=
    ⟨_, rfl⟩
  have hn := toNat_charOfNat (n := n) (by omega)
  have hlead : 0xe0 + n / 4096 = a.toNat := by omega
  have hmiddle : 0x80 + n / 64 % 64 = b.toNat := by omega
  have htail : 0x80 + n % 64 = c.toNat := by omega
  rw [← hdef]
  unfold encodeChar
  simp only [hn]
  rw [if_neg (by omega), if_neg (by omega), if_pos (by omega), hlead, hmiddle, htail]
  simp only [UInt8.ofNat_toNat]

theorem encodeChar_four {a b c d : UInt8} (ha : 0xf0 ≤ a.toNat ∧ a.toNat < 0xf5)
    (hb : isSecondOfFour a b = true) (hc : isTail c = true) (hd : isTail d = true) :
    encodeChar (Char.ofNat ((a.toNat - 0xf0) * 262144 + (b.toNat - 0x80) * 4096
      + (c.toNat - 0x80) * 64 + (d.toNat - 0x80))) = [a, b, c, d] := by
  have hb := isSecondOfFour_iff.1 hb
  have hc := isTail_iff.1 hc
  have hd := isTail_iff.1 hd
  obtain ⟨n, hdef⟩ : ∃ n, n = (a.toNat - 0xf0) * 262144 + (b.toNat - 0x80) * 4096
      + (c.toNat - 0x80) * 64 + (d.toNat - 0x80) := ⟨_, rfl⟩
  have hn := toNat_charOfNat (n := n) (by omega)
  have hlead : 0xf0 + n / 262144 = a.toNat := by omega
  have hsecond : 0x80 + n / 4096 % 64 = b.toNat := by omega
  have hthird : 0x80 + n / 64 % 64 = c.toNat := by omega
  have htail : 0x80 + n % 64 = d.toNat := by omega
  rw [← hdef]
  unfold encodeChar
  simp only [hn]
  rw [if_neg (by omega), if_neg (by omega), if_neg (by omega), hlead, hsecond, hthird, htail]
  simp only [UInt8.ofNat_toNat]

/-- What was read in front of some characters was read from the bytes of one more. -/
theorem eq_flatMap_of_map_ok {outcome : Except Fault (List Char)} {c : Char} {cs : List Char}
    {bytes rest : Bytes} (hc : encodeChar c = bytes) (h : outcome.map (c :: ·) = .ok cs)
    (ih : ∀ {tail : List Char}, outcome = .ok tail → rest = tail.flatMap encodeChar) :
    bytes ++ rest = cs.flatMap encodeChar := by
  obtain ⟨tail, htail, rfl⟩ := map_eq_ok_iff.1 h
  rw [List.flatMap_cons, hc, ← ih htail]

theorem eq_flatMap_of_decodeFrom {index : Nat} {bytes : Bytes} {cs : List Char}
    (h : decodeFrom index bytes = .ok cs) : bytes = cs.flatMap encodeChar := by
  fun_induction decodeFrom index bytes generalizing cs with
  | case1 index =>
    cases h
    rfl
  | case2 index a rest ha ih => exact eq_flatMap_of_map_ok (encodeChar_one ha) h ih
  | case5 index a h1 h2 h3 b rest hb ih =>
    exact eq_flatMap_of_map_ok (encodeChar_two (by omega) hb) h ih
  | case9 index a h1 h2 h3 h4 b hb c rest hc ih =>
    exact eq_flatMap_of_map_ok (encodeChar_three (by omega) hb hc) h ih
  | case15 index a h1 h2 h3 h4 h5 b hb c hc d rest hd ih =>
    exact eq_flatMap_of_map_ok (encodeChar_four (by omega) hb hc hd) h ih
  | _ => cases h

/-- A byte string is read as a text exactly when it is the bytes of that text. -/
theorem decode_eq_ok_iff {bytes : Bytes} {s : String} : decode bytes = .ok s ↔ bytes = encode s := by
  constructor
  · intro h
    obtain ⟨cs, hcs, rfl⟩ := map_eq_ok_iff.1 h
    rw [encode, String.toList_ofList]
    exact eq_flatMap_of_decodeFrom hcs
  · intro h
    rw [h, decode_encode]

end AttemptLedger.Text.Utf8
