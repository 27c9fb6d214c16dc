import AttemptLedger.Error
import AttemptLedger.Proofs.Positions
import Mathlib.Data.List.DropRight

/-!
# Positions of a chain and their flags

The memoized positions of a chain and its flags say the same. The flags reach as far as the last attempt
and the last position, and they are read back as the set they were made of. Flags that came from elsewhere
stand for the set of their set positions, unless one of them is too far out; made anew, they have lost
the unset flags behind the last set one that no attempt needs.
-/

namespace AttemptLedger

namespace PositionSet

variable {set : PositionSet} {flags : List Bool} {index : Nat}

/-- Either there are no positions, or the span is one past the greatest of them. -/
theorem span_cases (set : PositionSet) :
    (set = .empty ∧ set.span = 0)
      ∨ ∃ last ∈ set.toList, (∀ p ∈ set.toList, p ≤ last) ∧ set.span = 1 + last.toNat := by
  cases hlast : set.toList.getLast? with
  | none =>
    have hnil := List.getLast?_eq_none_iff.1 hlast
    refine .inl ⟨ext_mem fun x => by rw [hnil, toList_empty], ?_⟩
    rw [span, hlast]
  | some last =>
    have hspan : set.span = 1 + last.toNat := by rw [span, hlast, Nat.add_comm]
    refine .inr ⟨last, List.mem_of_getLast? hlast, fun p hp => ?_, hspan⟩
    have hlt := toNat_lt_span hp
    rw [UInt32.le_iff_toNat_le]
    omega

/-- The span is what the positions stay below, and no further. -/
theorem span_eq_of {width : Nat} (hbelow : ∀ p ∈ set.toList, p.toNat < width)
    (hleast : width = 0 ∨ ∃ p ∈ set.toList, p.toNat + 1 = width) : set.span = width := by
  rcases span_cases set with ⟨rfl, hspan⟩ | ⟨last, hlast, _, hspan⟩
  · rcases hleast with rfl | ⟨p, hp, _⟩
    · exact hspan
    · cases hp
  · have hlt := hbelow last hlast
    rcases hleast with rfl | ⟨p, hp, rfl⟩
    · exact absurd hlt (Nat.not_lt_zero _)
    · have hle := toNat_lt_span hp
      omega

theorem contains_eq_false_of_span_le (h : set.span ≤ index) : set.contains index = false := by
  rw [Bool.eq_false_iff]
  intro hcontains
  obtain ⟨p, hp, rfl⟩ := contains_iff.1 hcontains
  exact absurd (toNat_lt_span hp) (Nat.not_lt.2 h)

theorem mem_setIndices_zero : index ∈ setIndices 0 flags ↔ flags[index]? = some true := by
  rw [mem_setIndices, Nat.sub_zero]
  exact and_iff_right (Nat.zero_le index)

theorem pairwise_setIndices (start : Nat) (flags : List Bool) :
    (setIndices start flags).Pairwise (· < ·) := by
  induction flags generalizing start with
  | nil => exact List.Pairwise.nil
  | cons flag flags ih =>
    cases flag with
    | false => exact ih (start + 1)
    | true => exact List.pairwise_cons.2 ⟨fun i hi => (mem_setIndices.1 hi).1, ih (start + 1)⟩

/-- Flags are read as the set that contains where they are set. -/
theorem ofFlags_eq_ok_iff_contains :
    ofFlags flags = .ok set ↔ ∀ index : Nat, set.contains index = true ↔ flags[index]? = some true := by
  constructor
  · intro h index
    have hsmall := ofFlags_eq_ok_iff.1 ⟨set, h⟩
    unfold ofFlags at h
    dsimp only at h
    split at h
    · cases h
    · cases h
      simp only [contains_iff, mem_toList_ofList, List.mem_map, mem_setIndices_zero]
      constructor
      · rintro ⟨_, ⟨other, hset, rfl⟩, rfl⟩
        rwa [UInt32.toNat_ofNat_of_lt' (hsmall other hset)]
      · intro hset
        exact ⟨_, ⟨index, hset, rfl⟩, UInt32.toNat_ofNat_of_lt' (hsmall index hset)⟩
  · intro h
    exact ofFlags_of_setIndices fun index => mem_setIndices_zero.trans (h index).symm

/-- Flags are refused for the first of the set ones that are too far out. -/
theorem ofFlags_eq_error_iff :
    ofFlags flags = .error index
      ↔ 2 ^ 32 ≤ index ∧ flags[index]? = some true
        ∧ ∀ other : Nat, 2 ^ 32 ≤ other → flags[other]? = some true → index ≤ other := by
  have hleast : ∀ found : Nat, ofFlags flags = .error found → 2 ^ 32 ≤ found
      ∧ flags[found]? = some true
      ∧ ∀ other : Nat, 2 ^ 32 ≤ other → flags[other]? = some true → found ≤ other := by
    intro found h
    unfold ofFlags at h
    dsimp only at h
    split at h
    · next hfind =>
      cases h
      obtain ⟨hlarge, front, back, hindices, hfront⟩ := List.find?_eq_some_iff_append.1 hfind
      have hmem : found ∈ setIndices 0 flags := List.mem_of_find?_eq_some hfind
      refine ⟨of_decide_eq_true hlarge, mem_setIndices_zero.1 hmem, fun other hother hset => ?_⟩
      have hascending := pairwise_setIndices 0 flags
      rw [← mem_setIndices_zero, hindices, List.mem_append, List.mem_cons] at hset
      rw [hindices, List.pairwise_append, List.pairwise_cons] at hascending
      rcases hset with hset | rfl | hset
      · have hsmall := hfront other hset
        rw [Bool.not_eq_true', decide_eq_false_iff_not] at hsmall
        exact absurd hother hsmall
      · exact Nat.le_refl other
      · exact Nat.le_of_lt (hascending.2.1.1 other hset)
    · cases h
  refine ⟨hleast index, ?_⟩
  rintro ⟨hlarge, hset, hfirst⟩
  cases hread : ofFlags flags with
  | ok set => exact absurd (ofFlags_eq_ok_iff.1 ⟨set, hread⟩ index hset) (Nat.not_lt.2 hlarge)
  | error found =>
    obtain ⟨hfound, hfoundSet, hle⟩ := hleast found hread
    rw [Nat.le_antisymm (hfirst found hfound hfoundSet) (hle index hlarge hset)]

/-- Behind the last set flag there are unset ones only. -/
theorem exists_eq_rdropWhile_not (flags : List Bool) :
    ∃ unset, flags = flags.rdropWhile not ++ List.replicate unset false
      ∧ (flags.rdropWhile not = [] ∨ ∃ front, flags.rdropWhile not = front ++ [true]) := by
  induction flags using List.reverseRecOn with
  | nil => exact ⟨0, rfl, .inl rfl⟩
  | append_singleton flags flag ih =>
    cases flag with
    | true =>
      rw [List.rdropWhile_concat_neg not flags true nofun]
      exact ⟨0, (List.append_nil _).symm, .inr ⟨flags, rfl⟩⟩
    | false =>
      rw [List.rdropWhile_concat_pos not flags false rfl]
      obtain ⟨unset, hflags, hends⟩ := ih
      refine ⟨unset + 1, ?_, hends⟩
      rw [List.replicate_succ', ← List.append_assoc, ← hflags]

theorem getElem?_rdropWhile_not : (flags.rdropWhile not)[index]? = some true ↔ flags[index]? = some true := by
  obtain ⟨unset, hflags, _⟩ := exists_eq_rdropWhile_not flags
  generalize flags.rdropWhile not = kept at hflags
  rw [hflags, List.getElem?_append]
  split
  · rfl
  · next hge =>
    rw [List.getElem?_eq_none (Nat.not_lt.1 hge), List.getElem?_replicate]
    split <;> simp

theorem exists_ofFlags_eq_error_iff :
    (∃ found, ofFlags flags = .error found)
      ↔ ∃ index : Nat, 2 ^ 32 ≤ index ∧ flags[index]? = some true := by
  constructor
  · rintro ⟨found, hread⟩
    obtain ⟨hlarge, hset, _⟩ := ofFlags_eq_error_iff.1 hread
    exact ⟨found, hlarge, hset⟩
  · rintro ⟨index, hlarge, hset⟩
    cases hread : ofFlags flags with
    | ok set => exact absurd (ofFlags_eq_ok_iff.1 ⟨set, hread⟩ index hset) (Nat.not_lt.2 hlarge)
    | error found => exact ⟨found, rfl⟩

/-- The flags up to the last set one are as many as the set of their positions spans. -/
theorem length_rdropWhile_not (h : ∀ index : Nat, set.contains index = true ↔ flags[index]? = some true) :
    (flags.rdropWhile not).length = set.span := by
  have hkept : ∀ index : Nat, set.contains index = true ↔ (flags.rdropWhile not)[index]? = some true :=
    fun index => (h index).trans getElem?_rdropWhile_not.symm
  symm
  apply span_eq_of
  · intro p hp
    have hset := (hkept p.toNat).1 (contains_iff.2 ⟨p, hp, rfl⟩)
    exact (List.getElem?_eq_some_iff.1 hset).1
  · obtain ⟨_, _, hnil | ⟨front, hfront⟩⟩ := exists_eq_rdropWhile_not flags
    · exact .inl (by rw [hnil, List.length_nil])
    · have hlast : set.contains front.length = true := by
        rw [hkept, hfront, List.getElem?_concat_length]
      obtain ⟨p, hp, hindex⟩ := contains_iff.1 hlast
      refine .inr ⟨p, hp, ?_⟩
      rw [hindex, hfront, List.length_append, List.length_singleton]

/-- Flags made of the set that flags stand for are these flags, cut behind the last set one and filled up
again to the width that is asked for. -/
theorem flags_eq_of_contains (h : ∀ index : Nat, set.contains index = true ↔ flags[index]? = some true)
    (width : Nat) :
    set.flags width
      = flags.rdropWhile not ++ List.replicate (width - (flags.rdropWhile not).length) false := by
  have hspan := length_rdropWhile_not h
  apply List.ext_getElem?
  intro i
  rw [getElem?_flags, List.getElem?_append, List.getElem?_replicate, hspan]
  rcases Nat.lt_or_ge i set.span with hlt | hge
  · rw [if_pos (Nat.lt_of_lt_of_le hlt (Nat.le_max_left _ _)), if_pos hlt]
    have hlength : i < (flags.rdropWhile not).length := hspan ▸ hlt
    obtain ⟨flag, hflag⟩ : ∃ flag, (flags.rdropWhile not)[i]? = some flag :=
      ⟨_, List.getElem?_eq_getElem hlength⟩
    have hcontains : set.contains i = true ↔ flag = true := by
      rw [h i, ← getElem?_rdropWhile_not, hflag, Option.some.injEq]
    rw [hflag, Bool.eq_iff_iff.2 hcontains]
  · rw [if_neg (Nat.not_lt.2 hge), contains_eq_false_of_span_le hge]
    have hwidth : i < max set.span width ↔ i - set.span < width - set.span := by omega
    simp only [hwidth]

/-! ### Flags of a chain -/

theorem ofFlagsChecked_eq_ok_iff : ofFlagsChecked flags = .ok set ↔ ofFlags flags = .ok set := by
  unfold ofFlagsChecked
  cases ofFlags flags <;> simp

theorem ofFlagsChecked_eq_error_iff {error : Error} :
    ofFlagsChecked flags = .error error
      ↔ ∃ index, error = .malformed (.flagOutOfRange index) ∧ ofFlags flags = .error index := by
  unfold ofFlagsChecked
  cases ofFlags flags <;> simp [eq_comm]

end PositionSet

namespace Chain

/-- The flags of a chain say what its positions say: there is one for each attempt and each index up to the
last position, set at the positions, and the set is read back from them. Any flags are read as the set of
the indices at which they are set, or refused for the first of these that is no position; made anew they
are the flags without their trailing unset ones, filled up to one for each attempt. -/
theorem memoFlags_faithful :
    (∀ chain : Chain,
      ((chain.memoized = .empty ∧ chain.memoFlags.length = chain.attempts.length)
        ∨ ∃ last ∈ chain.memoized.toList, (∀ p ∈ chain.memoized.toList, p ≤ last)
          ∧ chain.memoFlags.length = max chain.attempts.length (1 + last.toNat))
      ∧ (∀ index < chain.memoFlags.length, chain.memoFlags[index]? = some (chain.isMemoized index))
      ∧ (∀ index, chain.isMemoized index = true ↔ ∃ p ∈ chain.memoized.toList, p.toNat = index)
      ∧ PositionSet.ofFlagsChecked chain.memoFlags = .ok chain.memoized)
    ∧ ∀ flags : List Bool,
      ((∃ cause, PositionSet.ofFlagsChecked flags = .error (.malformed cause))
        ↔ ∃ index : Nat, 2 ^ 32 ≤ index ∧ flags[index]? = some true)
      ∧ (∀ error, PositionSet.ofFlagsChecked flags = .error error
        ↔ ∃ index : Nat, error = .malformed (.flagOutOfRange index) ∧ 2 ^ 32 ≤ index
          ∧ flags[index]? = some true
          ∧ ∀ other : Nat, 2 ^ 32 ≤ other → flags[other]? = some true → index ≤ other)
      ∧ (∀ memoized, PositionSet.ofFlagsChecked flags = .ok memoized
        ↔ ∀ index : Nat, (∃ p ∈ memoized.toList, p.toNat = index) ↔ flags[index]? = some true)
      ∧ ∀ chain : Chain, PositionSet.ofFlagsChecked flags = .ok chain.memoized →
        chain.memoFlags = flags.rdropWhile not
          ++ List.replicate (chain.attempts.length - (flags.rdropWhile not).length) false := by
  refine ⟨fun chain => ⟨?_, ?_, fun index => PositionSet.contains_iff, ?_⟩, fun flags => ⟨?_, ?_, ?_, ?_⟩⟩
  · rw [memoFlags, PositionSet.length_flags, Nat.max_comm]
    rcases PositionSet.span_cases chain.memoized with ⟨hempty, hspan⟩ | ⟨last, hlast, hgreatest, hspan⟩
    · exact .inl ⟨hempty, by rw [hspan, Nat.max_zero]⟩
    · exact .inr ⟨last, hlast, hgreatest, by rw [hspan]⟩
  · intro index hindex
    rw [memoFlags, PositionSet.length_flags] at hindex
    rw [memoFlags, PositionSet.getElem?_flags, if_pos hindex]
    rfl
  · exact PositionSet.ofFlagsChecked_eq_ok_iff.2 (PositionSet.ofFlags_flags _ _)
  · rw [← PositionSet.exists_ofFlags_eq_error_iff]
    constructor
    · rintro ⟨cause, hrefused⟩
      obtain ⟨found, _, hread⟩ := PositionSet.ofFlagsChecked_eq_error_iff.1 hrefused
      exact ⟨found, hread⟩
    · rintro ⟨found, hread⟩
      exact ⟨_, PositionSet.ofFlagsChecked_eq_error_iff.2 ⟨found, rfl, hread⟩⟩
  · intro error
    simp only [PositionSet.ofFlagsChecked_eq_error_iff, PositionSet.ofFlags_eq_error_iff]
  · intro memoized
    simp only [PositionSet.ofFlagsChecked_eq_ok_iff, PositionSet.ofFlags_eq_ok_iff_contains,
      PositionSet.contains_iff]
  · intro chain hread
    rw [PositionSet.ofFlagsChecked_eq_ok_iff, PositionSet.ofFlags_eq_ok_iff_contains] at hread
    exact PositionSet.flags_eq_of_contains hread chain.attempts.length

/-- Of two trailing unset flags one attempt keeps none and five attempts keep one. -/
theorem memoFlags_faithful_trailing :
    let flags := [false, true, false, true, false, false]
    let short : Chain := ⟨[{}], .ofList [1, 3]⟩
    let long : Chain := ⟨[{}, {}, {}, {}, {}], .ofList [1, 3]⟩
    PositionSet.ofFlagsChecked flags = .ok short.memoized
      ∧ short.memoFlags = [false, true, false, true] ∧ long.memoFlags = [false, true, false, true, false] := by
  intro flags short long
  have hread : PositionSet.ofFlagsChecked flags = .ok short.memoized := rfl
  obtain ⟨_, _, _, hflags⟩ := memoFlags_faithful.2 flags
  exact ⟨hread, hflags short hread, hflags long hread⟩

end Chain

end AttemptLedger
