import AttemptLedger.Text.Integer

/-!
# Sets of positions

A set of 32-bit positions, kept as a strictly ascending list, so that two sets with the same members
are equal. A set can be written as one flag per position and read back from such flags. Main
statements: membership after `insert`, and the flags of a set at each index.
-/

namespace AttemptLedger

/-- A set of positions in strictly ascending order. -/
structure PositionSet where
  toList : List UInt32
  ascending : toList.Pairwise (· < ·) := by simp
  deriving DecidableEq

namespace PositionSet

def empty : PositionSet := ⟨[], List.Pairwise.nil⟩

instance : Inhabited PositionSet := ⟨empty⟩

def insertSorted (p : UInt32) : List UInt32 → List UInt32
  | [] => [p]
  | q :: qs => if p < q then p :: q :: qs else if p = q then q :: qs else q :: insertSorted p qs

theorem mem_insertSorted {p x : UInt32} {qs : List UInt32} :
    x ∈ insertSorted p qs ↔ x = p ∨ x ∈ qs := by
  induction qs with
  | nil => simp [insertSorted]
  | cons q qs ih =>
    simp only [insertSorted]
    split
    · simp
    · split
      · next h => subst h; simp
      · simp only [List.mem_cons, ih]
        constructor
        · rintro (h | h | h) <;> simp [h]
        · rintro (h | h | h) <;> simp [h]

theorem ascending_insertSorted {p : UInt32} {qs : List UInt32} (h : qs.Pairwise (· < ·)) :
    (insertSorted p qs).Pairwise (· < ·) := by
  induction qs with
  | nil => simp [insertSorted]
  | cons q qs ih =>
    rw [List.pairwise_cons] at h
    simp only [insertSorted]
    split
    · next hp =>
      refine List.pairwise_cons.2 ⟨fun x hx => ?_, List.pairwise_cons.2 h⟩
      rcases List.mem_cons.1 hx with rfl | hx
      · exact hp
      · exact UInt32.lt_trans hp (h.1 x hx)
    · next hp =>
      split
      · exact List.pairwise_cons.2 h
      · next hne =>
        refine List.pairwise_cons.2 ⟨fun x hx => ?_, ih h.2⟩
        rcases mem_insertSorted.1 hx with rfl | hx
        · rcases UInt32.lt_or_lt_of_ne hne with hlt | hlt
          · exact absurd hlt hp
          · exact hlt
        · exact h.1 x hx

def insert (set : PositionSet) (p : UInt32) : PositionSet :=
  ⟨insertSorted p set.toList, ascending_insertSorted set.ascending⟩

def ofList (positions : List UInt32) : PositionSet :=
  positions.foldr (fun p set => set.insert p) empty

def outOfRange (index : Nat) : String :=
  "memoization flag position " ++ Text.ofNat index ++ " out of range"

/-- Whether an index is one of the positions; an index of 2^32 or more never is. -/
def contains (set : PositionSet) (index : Nat) : Bool :=
  index < UInt32.size && set.toList.contains (UInt32.ofNat index)

/-- One past the last position, zero for the empty set. -/
def span (set : PositionSet) : Nat :=
  match set.toList.getLast? with
  | some last => last.toNat + 1
  | none => 0

/-- One flag per index, for at least `width` indices and as far as the last position. -/
def flags (set : PositionSet) (width : Nat) : List Bool :=
  (List.range (max set.span width)).map set.contains

def setIndices (start : Nat) : List Bool → List Nat
  | [] => []
  | true :: rest => start :: setIndices (start + 1) rest
  | false :: rest => setIndices (start + 1) rest

/-- The positions of the set flags, or the first set flag whose index is no position
(`memo_positions`). -/
def ofFlags (flags : List Bool) : Except Nat PositionSet :=
  let indices := setIndices 0 flags
  match indices.find? fun index => UInt32.size ≤ index with
  | some index => .error index
  | none => .ok (ofList (indices.map UInt32.ofNat))

@[simp] theorem toList_empty : empty.toList = [] := rfl

@[simp] theorem mem_toList_insert {set : PositionSet} {p x : UInt32} :
    x ∈ (set.insert p).toList ↔ x = p ∨ x ∈ set.toList := mem_insertSorted

theorem mem_toList_ofList {positions : List UInt32} {x : UInt32} :
    x ∈ (ofList positions).toList ↔ x ∈ positions := by
  induction positions with
  | nil => simp [ofList]
  | cons p positions ih =>
    have step : ofList (p :: positions) = (ofList positions).insert p := rfl
    rw [step, mem_toList_insert, ih, List.mem_cons]

theorem length_flags (set : PositionSet) (width : Nat) :
    (set.flags width).length = max set.span width := by
  simp [flags]

theorem getElem?_flags (set : PositionSet) (width index : Nat) :
    (set.flags width)[index]? = if index < max set.span width then some (set.contains index) else none := by
  by_cases h : index < max set.span width
  · rw [if_pos h, flags, List.getElem?_map, List.getElem?_range h, Option.map_some]
  · rw [if_neg h, List.getElem?_eq_none]
    rw [length_flags]
    exact Nat.le_of_not_lt h

end PositionSet

end AttemptLedger
