import AttemptLedger.Text.Integer
import Mathlib.Data.List.Induction
import Mathlib.Data.List.TakeWhile
import Mathlib.Data.Nat.Digits.Defs

/-!
# Numerals

A numeral is an optional sign and one or more decimal digits, the first of which may be zeros. A text spells
its value if there are only blanks around it. What is read of a text is the value of the numeral that it
spells, if a machine word holds it, and nothing if there is none.
-/

namespace AttemptLedger.Text

/-- One or more ASCII digits, the last of which counts ones. -/
structure IsDecimal (digits : List Char) (n : Nat) : Prop where
  nonempty : digits ≠ []
  digit : ∀ c ∈ digits, '0' ≤ c ∧ c ≤ '9'
  value : n = Nat.ofDigits 10 (digits.reverse.map fun c => c.toNat - '0'.toNat)

/-- A decimal number with or without a plus sign. -/
inductive IsNatural : List Char → Nat → Prop
  | plain {digits : List Char} {n : Nat} : IsDecimal digits n → IsNatural digits n
  | plus {digits : List Char} {n : Nat} : IsDecimal digits n → IsNatural ('+' :: digits) n

/-- A decimal number with or without a sign. -/
inductive IsInteger : List Char → Int → Prop
  | natural {numeral : List Char} {n : Nat} : IsNatural numeral n → IsInteger numeral n
  | minus {digits : List Char} {n : Nat} : IsDecimal digits n → IsInteger ('-' :: digits) (-n)

/-- Whether a text is a numeral and blanks around it. -/
def Spells {α : Type} (isNumeral : List Char → α → Prop) (text : String) (value : α) : Prop :=
  ∃ front numeral back, text.toList = front ++ (numeral ++ back)
    ∧ (∀ c ∈ front ++ back, isBlank c = true) ∧ isNumeral numeral value

/-! ### Blanks -/

theorem trimChars_of_blanks {front middle back : List Char}
    (hblank : ∀ c ∈ front ++ back, isBlank c = true)
    (hmiddle : ∀ c ∈ middle, isBlank c = false) (hne : middle ≠ []) :
    trimChars (front ++ (middle ++ back)) = middle := by
  obtain ⟨hfront, hback⟩ := List.forall_mem_append.1 hblank
  have hdrop : ∀ middle rest : List Char, middle ≠ [] → (∀ c ∈ middle, isBlank c = false) →
      (middle ++ rest).dropWhile isBlank = middle ++ rest := by
    intro middle rest hne hmiddle
    cases middle with
    | nil => exact absurd rfl hne
    | cons c middle =>
      rw [List.cons_append, List.dropWhile_cons_of_neg]
      rw [hmiddle c (List.mem_cons_self ..)]
      exact Bool.false_ne_true
  have hreverse : ∀ c ∈ middle.reverse, isBlank c = false := fun c hc =>
    hmiddle c (List.mem_reverse.1 hc)
  rw [trimChars, List.dropWhile_append_of_pos hfront, hdrop middle back hne hmiddle,
    List.reverse_append, List.dropWhile_append_of_pos fun c hc => hback c (List.mem_reverse.1 hc)]
  have hback := hdrop middle.reverse [] (mt List.reverse_eq_nil_iff.1 hne) hreverse
  rw [List.append_nil] at hback
  rw [hback, List.reverse_reverse]

/-- What trimming takes away are blanks at both ends. -/
theorem exists_blanks (cs : List Char) :
    ∃ front back, cs = front ++ (trimChars cs ++ back) ∧ ∀ c ∈ front ++ back, isBlank c = true := by
  refine ⟨cs.takeWhile isBlank, ((cs.dropWhile isBlank).reverse.takeWhile isBlank).reverse, ?_, ?_⟩
  · have hback : trimChars cs ++ ((cs.dropWhile isBlank).reverse.takeWhile isBlank).reverse
        = cs.dropWhile isBlank := by
      rw [trimChars, ← List.reverse_append, List.takeWhile_append_dropWhile, List.reverse_reverse]
    rw [hback, List.takeWhile_append_dropWhile]
  · intro c hc
    rcases List.mem_append.1 hc with hc | hc
    · exact List.mem_takeWhile_imp hc
    · exact List.mem_takeWhile_imp (List.mem_reverse.1 hc)

/-! ### Digits -/

theorem isDigit_iff {c : Char} : c.isDigit = true ↔ '0' ≤ c ∧ c ≤ '9' := by
  rw [Char.isDigit, Bool.and_eq_true, decide_eq_true_iff, decide_eq_true_iff]
  rfl

theorem isBlank_eq_false_of_isDigit {c : Char} (h : c.isDigit = true) : isBlank c = false := by
  have hrange : 48 ≤ c.toNat ∧ c.toNat ≤ 57 := by
    simpa [Char.isDigit, UInt32.le_iff_toNat_le] using h
  simp only [isBlank, Bool.or_eq_false_iff, Bool.and_eq_false_iff, beq_eq_false_iff_ne,
    decide_eq_false_iff_not]
  omega

theorem digitsValue_eq_ofDigits (cs : List Char) :
    digitsValue cs = Nat.ofDigits 10 (cs.reverse.map fun c => c.toNat - '0'.toNat) := by
  induction cs using List.reverseRecOn with
  | nil => rfl
  | append_singleton cs c ih =>
    rw [List.reverse_append, List.reverse_singleton, List.singleton_append, List.map_cons, Nat.ofDigits_cons,
      ← ih, digitsValue, List.foldl_append]
    exact Nat.add_comm _ _

theorem natural?_eq_some_iff {cs : List Char} {n : Nat} : natural? cs = some n ↔ IsDecimal cs n := by
  rw [natural?]
  constructor
  · intro h
    split at h
    · next hdigits =>
      cases h
      exact ⟨hdigits.1, fun c hc => isDigit_iff.1 (List.all_eq_true.1 hdigits.2 c hc),
        digitsValue_eq_ofDigits cs⟩
    · cases h
  · rintro ⟨hne, hdigits, rfl⟩
    rw [if_pos ⟨hne, List.all_eq_true.2 fun c hc => isDigit_iff.2 (hdigits c hc)⟩,
      digitsValue_eq_ofDigits]

namespace IsDecimal

variable {digits : List Char} {n : Nat}

theorem isBlank_eq_false (h : IsDecimal digits n) : ∀ c ∈ digits, isBlank c = false :=
  fun c hc => isBlank_eq_false_of_isDigit (isDigit_iff.2 (h.digit c hc))

/-- A sign is no digit. -/
theorem ne_cons (h : IsDecimal digits n) {c : Char} (hc : c.isDigit = false) (cs : List Char) :
    digits ≠ c :: cs := by
  rintro rfl
  have hdigit := isDigit_iff.2 (h.digit c (List.mem_cons_self ..))
  rw [hc] at hdigit
  cases hdigit

end IsDecimal

/-! ### Signs -/

theorem unsigned?_eq_some_iff {cs : List Char} {n : Nat} : unsigned? cs = some n ↔ IsNatural cs n := by
  constructor
  · intro h
    unfold unsigned? at h
    split at h
    · exact .plus (natural?_eq_some_iff.1 h)
    · exact .plain (natural?_eq_some_iff.1 h)
  · intro h
    cases h with
    | plain h =>
      rw [unsigned?, natural?_eq_some_iff]
      · exact h
      · exact h.ne_cons (by decide)
    | plus h =>
      rw [unsigned?, natural?_eq_some_iff]
      exact h

theorem integer?_eq_some_iff {cs : List Char} {n : Int} : integer? cs = some n ↔ IsInteger cs n := by
  constructor
  · intro h
    unfold integer? at h
    split at h <;> obtain ⟨m, hm, rfl⟩ := Option.map_eq_some_iff.1 h
    · exact .natural (.plus (natural?_eq_some_iff.1 hm))
    · exact .minus (natural?_eq_some_iff.1 hm)
    · exact .natural (.plain (natural?_eq_some_iff.1 hm))
  · intro h
    cases h with
    | natural h =>
      cases h with
      | plain h =>
        rw [integer?, natural?_eq_some_iff.2 h]
        · rfl
        · exact h.ne_cons (by decide)
        · exact h.ne_cons (by decide)
      | plus h =>
        rw [integer?, natural?_eq_some_iff.2 h]
        rfl
    | minus h =>
      rw [integer?, natural?_eq_some_iff.2 h]
      rfl

/-- No character of a numeral is a blank, and there is at least one. -/
theorem IsNatural.solid {numeral : List Char} {n : Nat} (h : IsNatural numeral n) :
    (∀ c ∈ numeral, isBlank c = false) ∧ numeral ≠ [] := by
  cases h with
  | plain h => exact ⟨h.isBlank_eq_false, h.nonempty⟩
  | plus h => exact ⟨List.forall_mem_cons.2 ⟨by decide, h.isBlank_eq_false⟩, List.cons_ne_nil _ _⟩

theorem IsInteger.solid {numeral : List Char} {n : Int} (h : IsInteger numeral n) :
    (∀ c ∈ numeral, isBlank c = false) ∧ numeral ≠ [] := by
  cases h with
  | natural h => exact h.solid
  | minus h => exact ⟨List.forall_mem_cons.2 ⟨by decide, h.isBlank_eq_false⟩, List.cons_ne_nil _ _⟩

/-- A text spells a value exactly if it is a numeral of it when it is trimmed. -/
theorem spells_iff {α : Type} {isNumeral : List Char → α → Prop} {text : String} {value : α}
    (hsolid : ∀ {numeral value}, isNumeral numeral value →
      (∀ c ∈ numeral, isBlank c = false) ∧ numeral ≠ []) :
    Spells isNumeral text value ↔ isNumeral (trimChars text.toList) value := by
  constructor
  · rintro ⟨front, numeral, back, htext, hblank, hnumeral⟩
    rw [htext, trimChars_of_blanks hblank (hsolid hnumeral).1 (hsolid hnumeral).2]
    exact hnumeral
  · intro hnumeral
    obtain ⟨front, back, htext, hblank⟩ := exists_blanks text.toList
    exact ⟨front, _, back, htext, hblank, hnumeral⟩

/-! ### Machine words -/

theorem int64OfInt?_eq_some_iff {n : Int} {m : Int64} : int64OfInt? n = some m ↔ m.toInt = n := by
  rw [int64OfInt?]
  constructor
  · intro h
    split at h
    · next hrange =>
      cases h
      exact Int64.toInt_ofInt_of_le hrange.1 (Int.lt_of_le_sub_one hrange.2)
    · cases h
  · rintro rfl
    rw [if_pos ⟨m.minValue_le_toInt, m.toInt_le⟩, Int64.ofInt_toInt]

theorem int64?_eq_some_iff {text : String} {n : Int64} :
    int64? text = some n ↔ Spells IsInteger text n.toInt := by
  rw [spells_iff IsInteger.solid, int64?, Option.bind_eq_some_iff]
  constructor
  · rintro ⟨m, hm, hn⟩
    rw [int64OfInt?_eq_some_iff.1 hn]
    exact integer?_eq_some_iff.1 hm
  · exact fun h => ⟨_, integer?_eq_some_iff.2 h, int64OfInt?_eq_some_iff.2 rfl⟩

/-- The least integer is read, with leading zeros and blanks around it, and the one before it is not. -/
example : int64? "\u2003-009223372036854775808\n" = some Int64.minValue
    ∧ int64? "-9223372036854775809" = none := by
  decide +kernel

theorem word?_eq_some_iff {text : String} {n : Nat} :
    word? text = some n ↔ Spells IsNatural text n ∧ n < 2 ^ 64 := by
  rw [spells_iff IsNatural.solid, word?]
  constructor
  · intro h
    split at h
    · next m hm =>
      split at h
      · next hsize =>
        cases h
        exact ⟨unsigned?_eq_some_iff.1 hm, hsize⟩
      · cases h
    · cases h
  · rintro ⟨h, hsize⟩
    rw [unsigned?_eq_some_iff.2 h]
    exact if_pos hsize

end AttemptLedger.Text
