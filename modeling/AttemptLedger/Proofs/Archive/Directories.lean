import AttemptLedger.Proofs.Archive.Places

/-!
# Making directories

Making a directory follows the steps of its path and makes what is missing on the way. Whatever was there
stays as it was, and all that is added are directories on that way; if it succeeds the steps lead to a
directory.
-/

namespace AttemptLedger.FileTree

variable {tree made : FileTree} {location place : Location} {part : String} {parts : List String}

/-- Whether a location and every place above it are directories. -/
def IsOpen (tree : FileTree) (location : Location) : Prop :=
  ∀ front, front <+: location → tree.get? front = some .directory

namespace IsOpen

theorem nil (tree : FileTree) : tree.IsOpen [] := by
  intro front hfront
  rw [List.prefix_nil.1 hfront]
  rfl

theorem entry (h : tree.IsOpen location) : tree.get? location = some .directory :=
  h location (List.prefix_refl _)

theorem dropLast (h : tree.IsOpen location) : tree.IsOpen location.dropLast := fun front hfront =>
  h front (hfront.trans (List.dropLast_prefix _))

theorem concat (h : tree.IsOpen location) (hentry : tree.get? (location ++ [part]) = some .directory) :
    tree.IsOpen (location ++ [part]) := by
  intro front hfront
  rcases List.prefix_concat_iff.1 hfront with rfl | hfront
  · exact hentry
  · exact h front hfront

/-- A directory may be put in an open place. -/
theorem put_concat (h : tree.IsOpen location) (part : String) :
    (tree.put (location ++ [part]) .directory).IsOpen (location ++ [part]) := by
  have hne : location ++ [part] ≠ [] := by simp
  refine concat (fun front hfront => ?_) ?_
  · rw [get?_put hne, h front hfront, ite_self]
  · rw [get?_put hne, if_pos rfl]

end IsOpen

theorem follow_up (hentry : tree.get? location = some .directory) (hne : location ≠ []) :
    tree.follow location (".." :: parts) = tree.follow location.dropLast parts := by
  rw [follow, if_neg (not_not.2 hentry), if_pos rfl, if_neg hne]

theorem follow_name (hentry : tree.get? location = some .directory) (hup : part ≠ "..")
    (hname : isName part = true) :
    tree.follow location (part :: parts) = tree.follow (location ++ [part]) parts := by
  rw [follow, if_neg (not_not.2 hentry), if_neg hup, if_pos hname]

/-! ### What is added -/

/-- Whether a place holds what it did in another tree, or nothing was there and it is a directory now,
on the way that some steps lead from a location. -/
def IsKeptOrAdded (tree made : FileTree) (location : Location) (parts : List String) (place : Location) :
    Prop :=
  made.get? place = tree.get? place
    ∨ tree.get? place = none ∧ made.get? place = some .directory
      ∧ ∃ front, front <+: parts ∧ made.follow location front = some place

/-- Whether a tree is another one with directories added where nothing was, on the way that some steps
lead from a location. -/
def AddsAlong (tree made : FileTree) (location : Location) (parts : List String) : Prop :=
  ∀ place, IsKeptOrAdded tree made location parts place

namespace AddsAlong

theorem refl (tree : FileTree) (location : Location) (parts : List String) :
    AddsAlong tree tree location parts := fun _ => .inl rfl

/-- Directories stay. -/
theorem directory (h : AddsAlong tree made location parts)
    (hentry : tree.get? place = some .directory) : made.get? place = some .directory := by
  rcases h place with hsame | ⟨hnone, -⟩
  · exact hsame.trans hentry
  · rw [hnone] at hentry
    cases hentry

theorem mono {fronts : List String} (h : AddsAlong tree made location fronts)
    (hfronts : fronts <+: parts) : AddsAlong tree made location parts := by
  intro place
  refine (h place).imp_right fun hadded => ?_
  obtain ⟨hnone, hentry, front, hfront, hfollow⟩ := hadded
  exact ⟨hnone, hentry, front, hfront.trans hfronts, hfollow⟩

/-- What is added on the way from the next place is added on the way there, one step earlier. -/
theorem step {next : Location} (h : AddsAlong tree made next parts)
    (hstep : ∀ front, made.follow location (part :: front) = made.follow next front) :
    AddsAlong tree made location (part :: parts) := by
  intro place
  refine (h place).imp_right fun hadded => ?_
  obtain ⟨hnone, hentry, front, hfront, hfollow⟩ := hadded
  exact ⟨hnone, hentry, part :: front, List.cons_prefix_cons.2 ⟨rfl, hfront⟩,
    (hstep front).trans hfollow⟩

/-- The next place itself may be added. -/
theorem put {next : Location} (hnone : tree.get? next = none) (hnext : next ≠ [])
    (h : AddsAlong (tree.put next .directory) made location parts)
    (hreached : ∃ front, front <+: parts ∧ made.follow location front = some next) :
    AddsAlong tree made location parts := by
  intro place
  have hput : (tree.put next .directory).get? place
      = if place = next then some .directory else tree.get? place := get?_put hnext
  by_cases hplace : place = next
  · subst hplace
    rw [if_pos rfl] at hput
    exact .inr ⟨hnone, h.directory hput, hreached⟩
  · rw [if_neg hplace] at hput
    rw [IsKeptOrAdded, ← hput]
    exact h place

end AddsAlong

/-! ### Making along a way -/

/-- Whether an outcome is one of making directories on a way: what was added is on it, and if the outcome
is success it leads to a directory. -/
structure Makes (tree : FileTree) (outcome : Bool × FileTree) (location : Location)
    (parts : List String) : Prop where
  adds : AddsAlong tree outcome.2 location parts
  leads : outcome.1 = true → ∃ target, outcome.2.follow location parts = some target
    ∧ outcome.2.get? target = some .directory

namespace Makes

variable {outcome : Bool × FileTree}

theorem failure (tree : FileTree) (location : Location) (parts : List String) :
    Makes tree (false, tree) location parts := ⟨.refl tree location parts, fun h => by cases h⟩

theorem up (hentry : tree.get? location = some .directory) (hne : location ≠ [])
    (h : Makes tree outcome location.dropLast parts) : Makes tree outcome location (".." :: parts) := by
  have hstep : ∀ front, outcome.2.follow location (".." :: front)
      = outcome.2.follow location.dropLast front := fun _ => follow_up (h.adds.directory hentry) hne
  exact ⟨h.adds.step hstep, by rw [hstep]; exact h.leads⟩

theorem name (hentry : tree.get? location = some .directory) (hup : part ≠ "..")
    (hname : isName part = true) (h : Makes tree outcome (location ++ [part]) parts) :
    Makes tree outcome location (part :: parts) := by
  have hstep : ∀ front, outcome.2.follow location (part :: front)
      = outcome.2.follow (location ++ [part]) front :=
    fun _ => follow_name (h.adds.directory hentry) hup hname
  exact ⟨h.adds.step hstep, by rw [hstep]; exact h.leads⟩

/-- A missing place may be made before the way goes on from it. -/
theorem missing (hentry : tree.get? location = some .directory) (hup : part ≠ "..")
    (hname : isName part = true) (hnone : tree.get? (location ++ [part]) = none)
    (h : Makes (tree.put (location ++ [part]) .directory) outcome (location ++ [part]) parts) :
    Makes tree outcome location (part :: parts) := by
  have hnext : location ++ [part] ≠ [] := by simp
  have hbefore : (tree.put (location ++ [part]) .directory).get? location = some .directory := by
    rw [get?_put hnext, hentry, ite_self]
  have hall := name hbefore hup hname h
  have hreached : outcome.2.follow location [part] = some (location ++ [part]) :=
    follow_name (hall.adds.directory hbefore) hup hname
  exact ⟨.put hnone hnext hall.adds ⟨[part], List.cons_prefix_cons.2 ⟨rfl, List.nil_prefix⟩, hreached⟩,
    hall.leads⟩

end Makes

/-- Making directories along some steps, from a place that is open. -/
theorem makes_makeAlong (hopen : tree.IsOpen location) :
    Makes tree (tree.makeAlong location parts) location parts := by
  induction parts generalizing tree location with
  | nil => exact ⟨.refl tree location [], fun _ => ⟨location, rfl, hopen.entry⟩⟩
  | cons part parts ih =>
    rw [makeAlong]
    split
    · next hup =>
      subst hup
      split
      · exact .failure tree location _
      · next hne => exact .up hopen.entry hne (ih hopen.dropLast)
    · next hup =>
      split
      · exact .failure tree location _
      · next hname =>
        have hname : isName part = true := by simpa using hname
        split
        · next hentry => exact .name hopen.entry hup hname (ih (hopen.concat hentry))
        · exact .failure tree location _
        · next hnone => exact .missing hopen.entry hup hname hnone (ih (hopen.put_concat part))

/-- If making a directory succeeds, the steps of its path lead to a directory, and nothing but directories
on that way was added. -/
theorem opens_of_makeDirectories {directory : String}
    (h : tree.makeDirectories directory = (true, made)) :
    (∃ location, made.Opens directory location) ∧ AddsAlong tree made [] (steps directory) := by
  unfold makeDirectories at h
  split at h
  · cases h
  · split at h
    · obtain ⟨hdirectory, rfl⟩ := Prod.mk.inj h
      obtain ⟨location, hlocated, hentry⟩ := Option.bind_eq_some_iff.1 (beq_iff_eq.1 hdirectory)
      have hat : IsAt _ directory location := ⟨hlocated, hentry⟩
      exact ⟨⟨location, hat.opens⟩, (makes_makeAlong (.nil tree)).adds.mono (List.dropLast_prefix _)⟩
    · have hmakes : Makes tree (tree.makeAlong [] (steps directory)) [] (steps directory) :=
        makes_makeAlong (.nil tree)
      rw [h] at hmakes
      obtain ⟨location, hfollow, hentry⟩ := hmakes.leads rfl
      exact ⟨⟨location, hfollow, hentry⟩, hmakes.adds⟩

/-- The way to a directory leads through directories only. -/
theorem Opens.exists_above {directory : String} (h : tree.Opens directory location)
    {front : List String} (hfront : front <+: steps directory) :
    ∃ place, tree.follow [] front = some place ∧ tree.get? place = some .directory := by
  obtain ⟨back, hback⟩ := hfront
  have hfollow := h.follow_eq
  rw [← hback, follow_append] at hfollow
  obtain ⟨place, hplace, hrest⟩ := Option.bind_eq_some_iff.1 hfollow
  exact ⟨place, hplace, get?_of_follow hrest h.entry⟩

end AttemptLedger.FileTree
