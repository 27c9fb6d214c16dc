import AttemptLedger.Positions
import Mathlib.Algebra.Group.Nat.Defs

/-!
# Sets of positions and their flags

A set of positions is determined by its members, and reading the flags of a set gives the set again,
however many flags are written beyond its last position.
-/

namespace AttemptLedger.PositionSet

theorem ext_mem {a b : PositionSet} (h : ∀ x, x ∈ a.toList ↔ x ∈ b.toList) : a = b := by
  have hnodup : ∀ s : PositionSet, s.toList.Nodup :=
    fun s => s.ascending.imp fun hxy => UInt32.ne_of_lt hxy
  have hperm : a.toList.Perm b.toList :=
    (List.perm_ext_iff_of_nodup (hnodup a) (hnodup b)).2 h
  have hlist : a.toList = b.toList :=
    hperm.eq_of_pairwise (fun x y _ _ hxy hyx => absurd hyx (UInt32.lt_asymm hxy))
      a.ascending b.ascending
  cases a
  cases b
  cases hlist
  rfl

theorem contains_iff {set : PositionSet} {index : Nat} :
    set.contains index = true ↔ ∃ x ∈ set.toList, x.toNat = index := by
  simp only [contains, Bool.and_eq_true, decide_eq_true_eq, List.contains_iff_mem]
  constructor
  · intro h
    exact ⟨UInt32.ofNat index, h.2, UInt32.toNat_ofNat_of_lt' h.1⟩
  · intro h
    obtain ⟨x, hx, rfl⟩ := h
    exact ⟨x.toNat_lt, by rwa [UInt32.ofNat_toNat]⟩

theorem toNat_lt_span {set : PositionSet} {x : UInt32} (hx : x ∈ set.toList) :
    x.toNat < set.span := by
  unfold span
  cases hlast : set.toList.getLast? with
  | none =>
    rw [List.getLast?_eq_none_iff] at hlast
    rw [hlast] at hx
    cases hx
  | some last =>
    obtain ⟨front, hfront⟩ := List.getLast?_eq_some_iff.1 hlast
    have hascending := set.ascending
    rw [hfront, List.pairwise_append] at hascending
    rw [hfront, List.mem_append, List.mem_singleton] at hx
    show x.toNat < last.toNat + 1
    rcases hx with hx | rfl
    · have hlt := UInt32.lt_iff_toNat_lt.1 (hascending.2.2 x hx last (List.mem_singleton_self last))
      omega
    · omega

theorem mem_setIndices {start index : Nat} {flags : List Bool} :
    index ∈ setIndices start flags ↔ start ≤ index ∧ flags[index - start]? = some true := by
  induction flags generalizing start with
  | nil => simp [setIndices]
  | cons flag flags ih =>
    have hstep : ∀ i, start < i → (flag :: flags)[i - start]? = flags[i - (start + 1)]? := by
      intro i hi
      have hsub : i - start = i - (start + 1) + 1 := by omega
      rw [hsub, List.getElem?_cons_succ]
    rcases Nat.lt_trichotomy index start with hlt | rfl | hgt
    · cases flag <;> simp only [setIndices, List.mem_cons, ih] <;> omega
    · cases flag <;> simp only [setIndices, List.mem_cons, ih, Nat.sub_self, List.getElem?_cons_zero]
      · constructor
        · exact fun h => by omega
        · exact fun h => by cases h.2
      · exact ⟨fun _ => ⟨Nat.le_refl _, trivial⟩, fun _ => Or.inl trivial⟩
    · rw [hstep index hgt]
      cases flag <;> simp only [setIndices, List.mem_cons, ih]
      · constructor <;> exact fun h => ⟨by omega, h.2⟩
      · constructor
        · rintro (h | h)
          · omega
          · exact ⟨by omega, h.2⟩
        · exact fun h => Or.inr ⟨by omega, h.2⟩

theorem mem_setIndices_flags {set : PositionSet} {width index : Nat} :
    index ∈ setIndices 0 (set.flags width) ↔ set.contains index = true := by
  rw [mem_setIndices, Nat.sub_zero, getElem?_flags]
  constructor
  · intro h
    split at h
    · exact Option.some.inj h.2
    · cases h.2
  · intro h
    obtain ⟨x, hx, rfl⟩ := contains_iff.1 h
    have hspan := toNat_lt_span hx
    refine ⟨Nat.zero_le _, ?_⟩
    rw [if_pos (by omega), h]

/-- Flags stand for the set of the positions at which they are set. -/
theorem ofFlags_of_setIndices {set : PositionSet} {flags : List Bool}
    (h : ∀ index, index ∈ setIndices 0 flags ↔ set.contains index = true) :
    ofFlags flags = .ok set := by
  have hsmall : (setIndices 0 flags).find? (fun index => UInt32.size ≤ index) = none := by
    rw [List.find?_eq_none]
    intro index hindex
    obtain ⟨x, _, rfl⟩ := contains_iff.1 ((h index).1 hindex)
    simpa using x.toNat_lt_size
  unfold ofFlags
  dsimp only
  rw [hsmall]
  apply congrArg Except.ok
  apply ext_mem
  intro x
  rw [mem_toList_ofList, List.mem_map]
  constructor
  · rintro ⟨index, hindex, rfl⟩
    obtain ⟨y, hy, rfl⟩ := contains_iff.1 ((h index).1 hindex)
    rwa [UInt32.ofNat_toNat]
  · intro hx
    exact ⟨x.toNat, (h x.toNat).2 (contains_iff.2 ⟨x, hx, rfl⟩), UInt32.ofNat_toNat⟩

theorem ofFlags_flags (set : PositionSet) (width : Nat) : ofFlags (set.flags width) = .ok set :=
  ofFlags_of_setIndices fun _ => mem_setIndices_flags

theorem ofFlags_nil : ofFlags [] = .ok empty := rfl

/-- Flags are no set of positions exactly when one is set too far out. -/
theorem ofFlags_eq_ok_iff {flags : List Bool} :
    (∃ set, ofFlags flags = .ok set) ↔ ∀ index : Nat, flags[index]? = some true → index < 2 ^ 32 := by
  have hmem : ∀ index : Nat, flags[index]? = some true ↔ index ∈ setIndices 0 flags := by
    intro index
    rw [mem_setIndices, Nat.sub_zero]
    exact ⟨fun h => ⟨Nat.zero_le _, h⟩, fun h => h.2⟩
  unfold ofFlags
  dsimp only
  cases hfind : (setIndices 0 flags).find? (fun index => UInt32.size ≤ index) with
  | none =>
    rw [List.find?_eq_none] at hfind
    constructor
    · intro _ index hindex
      have hsmall := hfind index ((hmem index).1 hindex)
      rw [decide_eq_true_eq] at hsmall
      exact Nat.lt_of_not_le hsmall
    · intro _
      exact ⟨_, rfl⟩
  | some index =>
    have hlarge := List.find?_some hfind
    rw [decide_eq_true_eq] at hlarge
    constructor
    · rintro ⟨set, hset⟩
      cases hset
    · intro h
      have hsmall := h index ((hmem index).2 (List.mem_of_find?_eq_some hfind))
      exact absurd hlarge (Nat.not_le.2 hsmall)

end AttemptLedger.PositionSet
