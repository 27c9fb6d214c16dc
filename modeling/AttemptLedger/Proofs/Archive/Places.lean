import AttemptLedger.FileTree
import AttemptLedger.Proofs.Archive.Order

/-!
# Files in a directory

The path of a file in a directory is that of the directory and one name more, whether it is read as
components, as steps or as a location. Writing a file leaves all directories in place, and with them the
location of every path.
-/

namespace AttemptLedger

/-! ### Paths -/

namespace Path

/-- Whether a text names a file: not empty, no dots alone, and in one part. -/
structure IsPlain (file : String) : Prop where
  slash : '/' ∉ file.toList
  ne_empty : file ≠ ""
  ne_here : file ≠ "."
  ne_up : file ≠ ".."

theorem splitFrom_append (part front back : List Char) :
    splitFrom part (front ++ '/' :: back) = splitFrom part front ++ splitFrom [] back := by
  induction front generalizing part with
  | nil => simp [splitFrom]
  | cons c front ih =>
    simp only [List.cons_append, splitFrom]
    split
    · rw [ih, List.cons_append]
    · rw [ih]

theorem splitFrom_of_not_mem {part text : List Char} (h : '/' ∉ text) :
    splitFrom part text = [String.ofList (part.reverse ++ text)] := by
  induction text generalizing part with
  | nil => simp [splitFrom]
  | cons c text ih =>
    simp only [List.mem_cons, not_or] at h
    rw [splitFrom, if_neg (Ne.symm h.1), ih h.2]
    simp

theorem splitFrom_ne_nil (part text : List Char) : splitFrom part text ≠ [] := by
  induction text generalizing part with
  | nil => simp [splitFrom]
  | cons c text ih =>
    rw [splitFrom]
    split
    · simp
    · exact ih _

theorem eq_of_splitFrom_singleton {part text : List Char} {whole : String}
    (h : splitFrom part text = [whole]) : whole = String.ofList (part.reverse ++ text) := by
  induction text generalizing part with
  | nil => simpa [splitFrom] using h.symm
  | cons c text ih =>
    rw [splitFrom] at h
    split at h
    · exact absurd (List.cons.inj h).2 (splitFrom_ne_nil [] text)
    · simpa using ih h

/-- The parts of a directory and of a file in it differ in the last one, or by one: what follows the
last slash of a directory is empty. -/
theorem exists_parts_join {directory file : String} (hdirectory : directory ≠ "")
    (hfile : '/' ∉ file.toList) :
    ∃ first rest last, parts directory = first :: (rest ++ last)
      ∧ parts (join directory file) = first :: (rest ++ [file])
      ∧ (last = [] ∨ last = [""]) ∧ (first = "" → rest ++ last ≠ []) := by
  have hone : splitFrom [] file.toList = [file] := by simp [splitFrom_of_not_mem hfile]
  unfold join
  rw [if_neg hdirectory]
  by_cases hslash : directory.toList.getLast? = some '/'
  · rw [if_pos hslash]
    obtain ⟨front, hfront⟩ : ∃ front, directory.toList = front ++ ['/'] :=
      ⟨_, (List.dropLast_append_getLast? _ hslash).symm⟩
    obtain ⟨first, rest, hparts⟩ := List.exists_cons_of_ne_nil (splitFrom_ne_nil [] front)
    refine ⟨first, rest, [""], ?_, ?_, .inr rfl, by simp⟩
    · rw [parts, hfront, splitFrom_append, hparts]
      simp [splitFrom]
    · rw [parts, String.toList_append, hfront, List.append_assoc, List.singleton_append,
        splitFrom_append, hparts, hone]
      simp
  · rw [if_neg hslash]
    obtain ⟨first, rest, hparts⟩ := List.exists_cons_of_ne_nil (splitFrom_ne_nil [] directory.toList)
    refine ⟨first, rest, [], by rw [parts, hparts, List.append_nil], ?_, .inl rfl, ?_⟩
    · have hlist : (directory ++ "/" ++ file).toList = directory.toList ++ '/' :: file.toList := by simp
      rw [parts, hlist, splitFrom_append, hparts, hone, List.cons_append]
    · intro hempty hnone
      rw [List.append_nil] at hnone
      rw [hempty, hnone] at hparts
      exact hdirectory (by simpa using (eq_of_splitFrom_singleton hparts).symm)

theorem parts_of_not_mem {file : String} (h : '/' ∉ file.toList) : parts file = [file] := by
  simp [parts, splitFrom_of_not_mem h]

/-- The name of a file is its path in the directory that paths start from. -/
theorem join_empty (file : String) : join "" file = file := if_pos rfl

theorem components_join {directory file : String} (hfile : IsPlain file) :
    components (join directory file) = components directory ++ [.name file] := by
  have hcomponent : component? file = some (.name file) := by
    simp [component?, hfile.ne_empty, hfile.ne_here, hfile.ne_up]
  by_cases hdirectory : directory = ""
  · subst hdirectory
    rw [join_empty, show components "" = [] by decide, List.nil_append]
    simp [components, parts_of_not_mem hfile.slash, hfile.ne_here, hcomponent]
  · obtain ⟨first, rest, last, hparts, hjoined, hlast, hfirst⟩ :=
      exists_parts_join hdirectory hfile.slash
    have hnone : last.filterMap component? = [] := by
      rcases hlast with hlast | hlast <;> simp [hlast, component?]
    unfold components
    rw [hparts, hjoined]
    by_cases hempty : first = ""
    · simp [hempty, hfirst hempty, hcomponent, hnone]
    · simp [hempty, hcomponent, hnone]

theorem stem_join {directory file : String} (hfile : IsPlain file) :
    stem (join directory file) = components directory ++ [stemOfName file] := by
  simp [stem, components_join hfile]

theorem extension?_join {directory file : String} (hfile : IsPlain file) :
    extension? (join directory file) = (splitExtension file).2 := by
  simp [extension?, fileName?, components_join hfile]

theorem join_injective {directory a b : String} (h : join directory a = join directory b) : a = b := by
  unfold join at h
  split at h
  · exact h
  · split at h <;> simpa using h

end Path

/-! ### Locations -/

namespace FileTree

variable {tree other : FileTree} {directory file path : String} {location : Location}

theorem steps_join (hfile : Path.IsPlain file) :
    steps (Path.join directory file) = steps directory ++ [file] := by
  by_cases hdirectory : directory = ""
  · subst hdirectory
    rw [Path.join_empty, show steps "" = [] by decide, List.nil_append]
    simp [steps, Path.parts_of_not_mem hfile.slash, hfile.ne_empty, hfile.ne_here]
  · obtain ⟨first, rest, last, hparts, hjoined, hlast, -⟩ :=
      Path.exists_parts_join hdirectory hfile.slash
    unfold steps
    rw [hparts, hjoined, ← List.cons_append, ← List.cons_append, List.filter_append, List.filter_append]
    rcases hlast with hlast | hlast <;> simp [hlast, hfile.ne_empty, hfile.ne_here]

theorem endsInDirectory_join (hfile : Path.IsPlain file) :
    endsInDirectory (Path.join directory file) = false := by
  have hlast : (Path.parts (Path.join directory file)).getLast? = some file := by
    by_cases hdirectory : directory = ""
    · rw [hdirectory, Path.join_empty, Path.parts_of_not_mem hfile.slash]
      rfl
    · obtain ⟨first, rest, last, -, hjoined, -⟩ := Path.exists_parts_join hdirectory hfile.slash
      rw [hjoined, ← List.cons_append, List.getLast?_concat]
  simp [endsInDirectory, hlast, hfile.ne_empty, hfile.ne_here, hfile.ne_up]

theorem follow_append (location : Location) (front back : List String) :
    tree.follow location (front ++ back)
      = (tree.follow location front).bind fun middle => tree.follow middle back := by
  induction front generalizing location with
  | nil => rfl
  | cons part front ih =>
    simp only [List.cons_append, follow]
    split
    · rfl
    · split
      · split
        · rfl
        · exact ih _
      · split
        · exact ih _
        · rfl

/-- Where something is followed to a directory, it starts at one. -/
theorem get?_of_follow {parts : List String} {target : Location}
    (h : tree.follow location parts = some target) (htarget : tree.get? target = some .directory) :
    tree.get? location = some .directory := by
  cases parts with
  | nil =>
    cases h
    exact htarget
  | cons part parts =>
    by_contra hnot
    rw [follow, if_pos hnot] at h
    cases h

/-- Whether a path leads to a directory of a tree. -/
structure IsAt (tree : FileTree) (directory : String) (location : Location) : Prop where
  located : tree.locate directory = some location
  entry : tree.get? location = some .directory

theorem IsAt.ne_empty (h : tree.IsAt directory location) : directory ≠ "" := by
  intro hempty
  have := h.located
  simp [locate, hempty] at this

theorem IsAt.follow_eq (h : tree.IsAt directory location) :
    tree.follow [] (steps directory) = some location := by
  have := h.located
  unfold locate at this
  split at this
  · cases this
  · exact this

theorem IsAt.isResolvable (h : tree.IsAt directory location) : isResolvable directory = true := by
  have := h.located
  unfold locate at this
  split at this
  · cases this
  · next hnot => simpa [h.ne_empty] using hnot

/-- Whether the steps of a path lead to a directory of a tree; those of the empty path, which no path
leads to, lead to where all paths start. -/
structure Opens (tree : FileTree) (directory : String) (location : Location) : Prop where
  follow_eq : tree.follow [] (steps directory) = some location
  entry : tree.get? location = some .directory

theorem IsAt.opens (h : tree.IsAt directory location) : tree.Opens directory location :=
  ⟨h.follow_eq, h.entry⟩

theorem Opens.eq_of_locate_join (h : tree.Opens directory location) (hfile : Path.IsPlain file)
    {target : Location} (htarget : tree.locate (Path.join directory file) = some target) :
    target = location ++ [file] := by
  unfold locate at htarget
  split at htarget
  · cases htarget
  · rw [steps_join hfile, follow_append, h.follow_eq, Option.bind_some, follow,
      if_neg (not_not.2 h.entry), if_neg hfile.ne_up] at htarget
    split at htarget
    · exact (Option.some.inj htarget).symm
    · cases htarget

/-! ### Directories that are there -/

theorem makeAlong_of_follow {parts : List String} {target : Location}
    (h : tree.follow location parts = some target) (htarget : tree.get? target = some .directory) :
    tree.makeAlong location parts = (true, tree) := by
  induction parts generalizing location with
  | nil => rfl
  | cons part parts ih =>
    have hstart := get?_of_follow h htarget
    rw [follow, if_neg (not_not.2 hstart)] at h
    rw [makeAlong]
    split at h
    · next hup =>
      rw [if_pos hup]
      split at h
      · cases h
      · next hne =>
        rw [if_neg hne]
        exact ih h
    · next hup =>
      rw [if_neg hup]
      split at h
      · next hname =>
        have hentry := get?_of_follow h htarget
        simp only [hname, hentry]
        exact ih h
      · cases h

/-- Making a directory that is there changes nothing. -/
theorem IsAt.makeDirectories_eq (h : tree.IsAt directory location) :
    tree.makeDirectories directory = (true, tree) := by
  have hmake := makeAlong_of_follow h.follow_eq h.entry
  unfold makeDirectories
  rw [if_neg (by simp [h.isResolvable])]
  split
  · have habove : tree.makeAlong [] (steps directory).dropLast = (true, tree) := by
      rcases List.eq_nil_or_concat (steps directory) with hnil | ⟨front, last, hsteps⟩
      · rw [hnil]
        rfl
      · have hfollow := h.follow_eq
        rw [hsteps, List.concat_eq_append, follow_append] at hfollow
        obtain ⟨middle, hmiddle, hlast⟩ := Option.bind_eq_some_iff.1 hfollow
        rw [hsteps, List.concat_eq_append, List.dropLast_concat]
        exact makeAlong_of_follow hmiddle (get?_of_follow hlast h.entry)
    simp [habove, isDirectory, find?, h.located, h.entry]
  · exact hmake

/-! ### Files that are put -/

/-- Whether two trees have the same directories. -/
def SameDirectories (tree other : FileTree) : Prop :=
  ∀ location, tree.get? location = some .directory ↔ other.get? location = some .directory

namespace SameDirectories

theorem symm (h : SameDirectories tree other) : SameDirectories other tree := fun location =>
  (h location).symm

theorem trans {last : FileTree} (h : SameDirectories tree other) (hlast : SameDirectories other last) :
    SameDirectories tree last := fun location => (h location).trans (hlast location)

theorem follow_eq (h : SameDirectories tree other) (location : Location) (parts : List String) :
    tree.follow location parts = other.follow location parts := by
  induction parts generalizing location with
  | nil => rfl
  | cons part parts ih => simp only [follow, h location, ne_eq, ih]

theorem locate_eq (h : SameDirectories tree other) (path : String) :
    tree.locate path = other.locate path := by
  simp only [locate, h.follow_eq]

theorem isAt (h : SameDirectories tree other) (hat : tree.IsAt directory location) :
    other.IsAt directory location :=
  ⟨h.locate_eq directory ▸ hat.located, (h location).1 hat.entry⟩

theorem opens (h : SameDirectories tree other) (hopens : tree.Opens directory location) :
    other.Opens directory location :=
  ⟨h.follow_eq [] (steps directory) ▸ hopens.follow_eq, (h location).1 hopens.entry⟩

end SameDirectories

theorem ne_nil_of_not_directory {location : Location} (h : tree.get? location ≠ some .directory) :
    location ≠ [] := by
  intro hnil
  simp [get?, hnil] at h

theorem sameDirectories_put {place : Location} (h : tree.get? place ≠ some .directory)
    (content : Bytes) : SameDirectories tree (tree.put place (.file content)) := by
  intro other
  rw [get?_put (ne_nil_of_not_directory h)]
  by_cases hother : other = place
  · simp [hother, h]
  · simp [hother]

theorem mem_entries_iff {place : Location} {entry : Entry} :
    (place, entry) ∈ tree.entries ↔ tree.entries.lookup place = some entry := by
  obtain ⟨entries, hdistinct⟩ := tree
  dsimp only
  induction entries with
  | nil => simp
  | cons head rest ih =>
    obtain ⟨other, first⟩ := head
    rw [List.map_cons, List.nodup_cons] at hdistinct
    rw [List.mem_cons, List.lookup_cons, ih hdistinct.2]
    by_cases hplace : place = other
    · subst hplace
      have hnone : rest.lookup place ≠ some entry := fun h =>
        hdistinct.1 (List.mem_map.2 ⟨_, (ih hdistinct.2).2 h, rfl⟩)
      simp [hnone, eq_comm]
    · simp [hplace, beq_eq_false_iff_ne.2 hplace]

/-- The files below a location among some entries, in the order of these. -/
def filesAlong (entries : List (Location × Entry)) (location : Location) : List Location :=
  entries.filterMap fun (l, entry) =>
    match entry with
    | .file _ => if location.isPrefixOf l then some (l.drop location.length) else none
    | .directory => none

theorem mem_filesAlong {entries : List (Location × Entry)} {below : Location} :
    below ∈ filesAlong entries location
      ↔ ∃ content, (location ++ below, .file content) ∈ entries := by
  rw [filesAlong, List.mem_filterMap]
  constructor
  · intro hmem
    obtain ⟨⟨place, entry⟩, hentry, hbelow⟩ := hmem
    cases entry with
    | directory => cases hbelow
    | file content =>
      dsimp only at hbelow
      split at hbelow
      · next hprefix =>
        obtain ⟨rest, rfl⟩ := List.isPrefixOf_iff_prefix.1 hprefix
        have heq := Option.some.inj hbelow
        rw [List.drop_left] at heq
        exact ⟨content, heq ▸ hentry⟩
      · cases hbelow
  · intro hfile
    obtain ⟨content, hentry⟩ := hfile
    exact ⟨_, hentry, by simp⟩

theorem filesBelow_eq_filesAlong : tree.filesBelow location = filesAlong tree.walk location := rfl

theorem mem_filesBelow {below : Location} :
    below ∈ tree.filesBelow location
      ↔ ∃ content, tree.entries.lookup (location ++ below) = some (.file content) := by
  simp only [filesBelow_eq_filesAlong, mem_filesAlong, walk, List.mem_mergeSort, mem_entries_iff]

theorem mem_filesBelow_put {place below : Location} {content : Bytes} :
    below ∈ (tree.put place (.file content)).filesBelow location
      ↔ location ++ below = place ∨ below ∈ tree.filesBelow location := by
  simp only [mem_filesBelow, put, lookup_putEntry]
  by_cases hplace : location ++ below = place
  · simp [hplace]
  · simp [hplace]

end FileTree

end AttemptLedger
