import AttemptLedger.Path
import Mathlib.Data.List.Lex
import Mathlib.Data.Prod.Lex
import Mathlib.Data.String.Basic

/-!
# The order of paths

Components are ordered in a line, so paths are, name after name. The order of two files without their
extensions is mostly that of the files themselves. It is not if the other path goes on, below the
directory of the first file, with less than the name of that file but not less than its stem; the name
it goes on with then starts with that stem.
-/

namespace AttemptLedger

namespace Component

/-- The place of a kind of components, and the text of a name. -/
def key : Component → ℕ ×ₗ String
  | .root => toLex (0, "")
  | .here => toLex (1, "")
  | .up => toLex (2, "")
  | .name text => toLex (3, text)

theorem key_injective : Function.Injective key := by
  intro a b h
  cases a <;> cases b <;> simp_all [key]

instance : LinearOrder Component := LinearOrder.lift' key key_injective

theorem lt_iff_key_lt {a b : Component} : a < b ↔ key a < key b := Iff.rfl

theorem precedes_iff_lt {a b : Component} : a.precedes b = true ↔ a < b := by
  rw [lt_iff_key_lt]
  cases a <;> cases b <;> simp [precedes, key, Prod.Lex.toLex_lt_toLex]

@[simp] theorem name_lt_name {s t : String} : name s < name t ↔ s < t := by
  rw [← precedes_iff_lt]
  simp [precedes]

@[simp] theorem name_le_name {s t : String} : name s ≤ name t ↔ s ≤ t := by
  rw [← not_lt, name_lt_name, not_lt]

theorem up_lt_name (text : String) : up < name text := precedes_iff_lt.1 rfl

/-- Nothing comes after names but names. -/
theorem exists_eq_name_of_le {s : String} {a : Component} (h : name s ≤ a) : ∃ t, a = name t := by
  cases a with
  | name t => exact ⟨t, rfl⟩
  | root | here | up => exact absurd h (not_le.2 (precedes_iff_lt.1 rfl))

end Component

namespace Path

theorem precedes_iff_lt {as bs : List Component} : precedes as bs = true ↔ as < bs := by
  induction as generalizing bs with
  | nil => cases bs <;> simp [precedes]
  | cons a as ih =>
    cases bs with
    | nil => simp [precedes]
    | cons b bs => simp [precedes, List.cons_lt_cons_iff, Component.precedes_iff_lt, ih]

/-! ### Lists in order -/

section Lists

variable {α : Type} [LinearOrder α]

theorem append_lt_append_iff {as bs cs : List α} : as ++ bs < as ++ cs ↔ bs < cs := by
  induction as with
  | nil => rfl
  | cons a as ih => simp [ih]

/-- What stands between two lists that start with one front starts with it too. -/
theorem exists_eq_append {front as bs list : List α} (hle : front ++ as ≤ list)
    (hlt : list < front ++ bs) : ∃ back, list = front ++ back ∧ as ≤ back ∧ back < bs := by
  induction front generalizing list with
  | nil => exact ⟨list, rfl, hle, hlt⟩
  | cons a front ih =>
    cases list with
    | nil => exact absurd (List.nil_lt_cons a _) (not_lt.2 hle)
    | cons b list =>
      have hnot : ¬(b < a ∨ b = a ∧ list < front ++ as) := fun h =>
        not_lt.2 hle (List.cons_lt_cons_iff.2 h)
      rcases List.cons_lt_cons_iff.1 hlt with h | ⟨rfl, htail⟩
      · exact absurd (.inl h) hnot
      · obtain ⟨back, rfl, hback⟩ := ih (not_lt.1 fun h => hnot (.inr ⟨rfl, h⟩)) htail
        exact ⟨back, rfl, hback⟩

theorem exists_eq_cons_of_lt_singleton {a b : α} {list : List α} (hle : [a] ≤ list)
    (hlt : list < [b]) : ∃ next rest, list = next :: rest ∧ a ≤ next ∧ next < b := by
  cases list with
  | nil => exact absurd (List.nil_lt_cons a []) (not_lt.2 hle)
  | cons next rest =>
    have hnext : ¬next < a := fun h => not_lt.2 hle (List.cons_lt_cons_iff.2 (.inl h))
    have hless : next < b := by simpa [List.cons_lt_cons_iff] using hlt
    exact ⟨next, rest, rfl, not_lt.1 hnext, hless⟩

end Lists

/-! ### Names with an extension -/

theorem splitExtension_of_append {front back : List Char} (hfront : front ≠ []) (hback : '.' ∉ back) :
    splitExtension (String.ofList (front ++ '.' :: back))
      = (String.ofList front, some (String.ofList back)) := by
  have hkept : ∀ c ∈ back.reverse, (c != '.') = true := by
    intro c hc
    have hne : c ≠ '.' := fun h => hback (h ▸ List.mem_reverse.1 hc)
    simpa using hne
  have htake : (back.reverse ++ '.' :: front.reverse).takeWhile (· != '.') = back.reverse := by
    rw [List.takeWhile_append_of_pos hkept]
    simp
  have hdrop : (back.reverse ++ '.' :: front.reverse).dropWhile (· != '.') = '.' :: front.reverse := by
    rw [List.dropWhile_append_of_pos hkept]
    simp
  simp [splitExtension, htake, hdrop, hfront]

theorem toList_of_splitExtension {name text extension : String}
    (h : splitExtension name = (text, some extension)) :
    name.toList = text.toList ++ '.' :: extension.toList := by
  have hjoined := List.takeWhile_append_dropWhile (p := (· != '.')) (l := name.toList.reverse)
  have hdot := List.head?_dropWhile_not (· != '.') name.toList.reverse
  unfold splitExtension at h
  dsimp only at h
  split at h
  · cases h
  · next hbefore =>
    obtain ⟨htext, hextension⟩ := Prod.mk.inj h
    have hextension := Option.some.inj hextension
    cases hdrop : name.toList.reverse.dropWhile (· != '.') with
    | nil => simp [hdrop] at hbefore
    | cons c rest =>
      rw [hdrop] at hjoined htext hdot
      have hc : c = '.' := by simpa using hdot
      subst hc
      calc name.toList
          = name.toList.reverse.reverse := (List.reverse_reverse _).symm
        _ = (name.toList.reverse.takeWhile (· != '.') ++ '.' :: rest).reverse := by rw [hjoined]
        _ = text.toList ++ '.' :: extension.toList := by simp [← htext, ← hextension]

/-! ### Files -/

/-- The path of a file with an extension, and without it. -/
structure IsFile (path : String) (front : List Component) (name text extension : String) : Prop where
  components_eq : components path = front ++ [.name name]
  split_eq : splitExtension name = (text, some extension)
  stem_eq : stem path = front ++ [stemOfName name]

theorem exists_isFile {path extension : String} (h : extension? path = some extension) :
    ∃ front name text, IsFile path front name text extension := by
  obtain ⟨name, hname, hsplit⟩ := Option.bind_eq_some_iff.1 h
  have hlast : (components path).getLast? = some (.name name) := by
    unfold fileName? at hname
    split at hname
    · next text hlast =>
      rw [hlast, Option.some.inj hname]
    · cases hname
  refine ⟨(components path).dropLast, name, (splitExtension name).1, ?_, ?_, ?_⟩
  · exact (List.dropLast_append_getLast? _ hlast).symm
  · rw [← hsplit]
  · simp [stem, hlast]

namespace IsFile

variable {path : String} {front : List Component} {name text extension : String}

theorem stemOfName_eq (h : IsFile path front name text extension) :
    stemOfName name = .up ∨ stemOfName name = .name text := by
  unfold stemOfName
  rw [h.split_eq]
  dsimp only
  split
  · exact .inl rfl
  · exact .inr rfl

theorem text_le (h : IsFile path front name text extension) : text ≤ name := by
  have hstart : text.toList <+: name.toList := by
    rw [toList_of_splitExtension h.split_eq]
    exact List.prefix_append _ _
  exact String.le_iff_toList_le.2 (not_lt.1 (List.not_lt.2 hstart.le))

theorem stemOfName_le (h : IsFile path front name text extension) : stemOfName name ≤ .name name := by
  rcases h.stemOfName_eq with hup | htext
  · rw [hup]
    exact (Component.up_lt_name name).le
  · rw [htext]
    exact Component.name_le_name.2 h.text_le

/-- A component between the stem of a name and the name is a name that starts with the stem. -/
theorem exists_name_between (h : IsFile path front name text extension) {next : Component}
    (hle : .name text ≤ next) (hlt : next < .name name) :
    ∃ other, next = .name other ∧ text.toList <+: other.toList := by
  obtain ⟨other, rfl⟩ := Component.exists_eq_name_of_le hle
  rw [Component.name_le_name, String.le_iff_toList_le] at hle
  rw [Component.name_lt_name, String.lt_iff_toList_lt, toList_of_splitExtension h.split_eq] at hlt
  obtain ⟨more, hmore, -⟩ := exists_eq_append (by rwa [List.append_nil]) hlt
  exact ⟨other, rfl, more, hmore.symm⟩

end IsFile

/-- Whether a path goes on, in the directory of a file, with less than the name of the file, though what
it goes on with starts with that name without its extension, or nothing but dots is left of it. So
`run-1.bin` undercuts `run.bin`, and `x/y.bin` undercuts `x.bin`. -/
def Undercuts (path file : String) : Prop :=
  ∃ front name next rest, components file = front ++ [.name name]
    ∧ components path = front ++ next :: rest ∧ next < .name name
    ∧ (stemOfName name = .up
      ∨ ∃ text, next = .name text ∧ (splitExtension name).1.toList <+: text.toList)

/-- Files stand in the order of their stems, but for those that undercut others. -/
theorem precedes_iff_not_undercuts {first second a b : String} (hfirst : extension? first = some a)
    (hsecond : extension? second = some b) (h : precedes (stem first) (stem second) = true) :
    precedes (components first) (components second) = true ↔ ¬Undercuts second first := by
  obtain ⟨front, name, text, hfile⟩ := exists_isFile hfirst
  obtain ⟨other, otherName, otherText, hother⟩ := exists_isFile hsecond
  rw [precedes_iff_lt] at h ⊢
  constructor
  · intro hlt hunder
    obtain ⟨front', name', next, rest, hfirst', hsecond', hnext, -⟩ := hunder
    rw [hfirst', hsecond', append_lt_append_iff] at hlt
    rcases List.cons_lt_cons_iff.1 hlt with hless | hrest
    · exact lt_asymm hnext hless
    · exact (ne_of_gt hnext) hrest.1
  · intro hnot
    by_contra hge
    have hne : components second ≠ components first := by
      intro heq
      rw [stem, stem, heq] at h
      exact lt_irrefl _ h
    have hafter := lt_of_le_of_ne (not_lt.1 hge) hne
    rw [hfile.components_eq, hother.components_eq] at hafter
    rw [hfile.stem_eq, hother.stem_eq] at h
    have hstem : other ++ [stemOfName otherName] ≤ other ++ [.name otherName] := by
      rw [← not_lt, append_lt_append_iff, List.cons_lt_cons_iff]
      simp [not_lt.2 hother.stemOfName_le]
    -- The second path lies between the stem and the path of the first.
    obtain ⟨back, hsplit, hback, hbackLt⟩ := exists_eq_append (h.le.trans hstem) hafter
    obtain ⟨next, rest, rfl, hle, hlt⟩ := exists_eq_cons_of_lt_singleton hback hbackLt
    refine hnot ⟨front, name, next, rest, hfile.components_eq, ?_, hlt, ?_⟩
    · rw [hother.components_eq, hsplit]
    · refine hfile.stemOfName_eq.imp_right fun htext => ?_
      rw [htext] at hle
      rw [hfile.split_eq]
      exact hfile.exists_name_between hle hlt

end Path

end AttemptLedger
