import AttemptLedger.Proofs.Archive.Discovery
import AttemptLedger.Proofs.Archive.Places

/-!
# One file for each stem, in whatever order they are met

Of the files of one stem discovery keeps a binary one, and a document only if there is none. As long as
no stem has two files of one encoding, that names one file for each stem, so what is found depends on
which files there are and not on the order in which a walk meets them.
-/

namespace AttemptLedger

namespace Encoding

def extensions : Encoding → List String
  | .binary => ["bin", "pb"]
  | .json => ["json"]

/-- Whether a path has an extension of an encoding, in capitals or not. -/
def Marks (encoding : Encoding) (path : String) : Prop :=
  ∃ extension, Path.extension? path = some extension
    ∧ String.ofList (extension.toList.map Char.toLower) ∈ encoding.extensions

theorem ofExtension?_eq_some_iff {extension : String} {encoding : Encoding} :
    ofExtension? extension = some encoding
      ↔ String.ofList (extension.toList.map Char.toLower) ∈ encoding.extensions := by
  unfold ofExtension?
  split
  · next h => cases encoding <;> simp [extensions, h]
  · next h => cases encoding <;> simp [extensions, h]
  · next h => cases encoding <;> simp [extensions, h]
  · next hbin hpb hjson =>
    cases encoding with
    | binary => simpa [extensions] using And.intro hbin hpb
    | json => simpa [extensions] using hjson

theorem ofPath?_eq_some_iff {path : String} {encoding : Encoding} :
    ofPath? path = some encoding ↔ encoding.Marks path := by
  unfold ofPath? Marks
  simp only [Option.bind_eq_some_iff, ofExtension?_eq_some_iff]

end Encoding

/-! ### What is kept -/

namespace Find

/-- Whether no stem has two files of one encoding. -/
def Unambiguous (finds : List Find) : Prop :=
  ∀ first ∈ finds, ∀ second ∈ finds, first.stem = second.stem → first.encoding = second.encoding →
    first = second

/-- Of unambiguous files the binary ones are kept, and the documents beside which there is none. -/
theorem Selects.mem_iff {finds kept : List Find} (h : Selects finds kept) (hunique : Unambiguous finds)
    (found : Find) :
    found ∈ kept ↔ found ∈ finds ∧ (found.encoding = .binary
      ∨ ∀ other ∈ finds, other.encoding = .binary → other.stem ≠ found.stem) := by
  constructor
  · intro hkept
    refine ⟨h.subset found hkept, or_iff_not_imp_left.2 fun hnot other hother hbinary hstem => ?_⟩
    obtain ⟨best, hbest, hstands⟩ := h.covers other hother
    have hsame := h.eq_of_stem_eq hbest hkept (hstands.1.trans hstem)
    exact hnot (hsame ▸ hstands.2 hbinary)
  · intro hfound
    obtain ⟨hfound, hkind⟩ := hfound
    obtain ⟨best, hbest, hstem, hbinary⟩ := h.covers found hfound
    -- What stands for the file is of its encoding, and so it is the file itself.
    have hencoding : best.encoding = found.encoding := by
      cases hcase : found.encoding with
      | binary => exact hbinary hcase
      | json =>
        rcases hkind with hkind | hnone
        · rw [hcase] at hkind
          cases hkind
        · cases hbestCase : best.encoding with
          | binary => exact absurd hstem (hnone best (h.subset best hbest) hbestCase)
          | json => rfl
    exact hunique best (h.subset best hbest) found hfound hstem hencoding ▸ hbest

theorem Selects.nodup {finds kept : List Find} (h : Selects finds kept) : kept.Nodup := by
  refine h.ascending.imp fun {a b} hlt heq => ?_
  rw [heq] at hlt
  exact lt_irrefl _ hlt

/-- What is kept of unambiguous files is the same for all lists of these files. -/
theorem Selects.eq_of_mem_iff {finds others kept last : List Find} (h : Selects finds kept)
    (hother : Selects others last) (hunique : Unambiguous finds)
    (hmem : ∀ found, found ∈ finds ↔ found ∈ others) : kept = last := by
  have hunique' : Unambiguous others := fun first hfirst second hsecond =>
    hunique first ((hmem first).2 hfirst) second ((hmem second).2 hsecond)
  have hperm : kept.Perm last := by
    refine (List.perm_ext_iff_of_nodup h.nodup hother.nodup).2 fun found => ?_
    rw [h.mem_iff hunique found, hother.mem_iff hunique' found, hmem found]
    simp only [hmem]
  exact hperm.eq_of_pairwise (fun a b _ _ hab hba => absurd hba (lt_asymm hab)) h.ascending
    hother.ascending

end Find

/-! ### Listings -/

/-- Whether no stem has two files of one encoding, among the files that satisfy a condition. -/
def SingleInEncoding (files : String → Prop) : Prop :=
  ∀ (encoding : Encoding) (first second : String), files first → files second →
    encoding.Marks first → encoding.Marks second → Path.stem first = Path.stem second → first = second

/-- Whether paths are one for each stem of some files: the binary file if there is one, and otherwise the
document. -/
structure ListsOneOfEachStem (files : String → Prop) (paths : List String) : Prop where
  nodup_stems : (paths.map Path.stem).Nodup
  mem_iff : ∀ path, path ∈ paths ↔ files path ∧ (Encoding.binary.Marks path
    ∨ Encoding.json.Marks path
      ∧ ∀ other, files other → Encoding.binary.Marks other → Path.stem other ≠ Path.stem path)
  existsUnique : ∀ (encoding : Encoding) (file : String), files file → encoding.Marks file →
    ∃! path, path ∈ paths ∧ Path.stem path = Path.stem file

namespace Find

variable {files : String → Prop} {paths : List String}

theorem mem_filterMap_ofPath?_iff {found : Find} :
    found ∈ paths.filterMap ofPath? ↔ found.path ∈ paths ∧ found.encoding.Marks found.path := by
  simp only [List.mem_filterMap, ofPath?_eq_some_iff, Encoding.ofPath?_eq_some_iff]
  constructor
  · intro h
    obtain ⟨path, hpath, rfl, hmarks⟩ := h
    exact ⟨hpath, hmarks⟩
  · intro h
    exact ⟨found.path, h.1, rfl, h.2⟩

theorem unambiguous_filterMap_ofPath? (hfiles : ∀ path, path ∈ paths ↔ files path)
    (h : SingleInEncoding files) : Unambiguous (paths.filterMap ofPath?) := by
  intro first hfirst second hsecond hstem hencoding
  obtain ⟨hfirst, hmarks⟩ := mem_filterMap_ofPath?_iff.1 hfirst
  obtain ⟨hsecond, hother⟩ := mem_filterMap_ofPath?_iff.1 hsecond
  obtain ⟨path, encoding⟩ := first
  obtain ⟨other, otherEncoding⟩ := second
  obtain rfl : encoding = otherEncoding := hencoding
  obtain rfl : path = other :=
    h encoding path other ((hfiles path).1 hfirst) ((hfiles other).1 hsecond) hmarks hother hstem
  rfl

theorem mem_map_select_iff (hfiles : ∀ path, path ∈ paths ↔ files path) (h : SingleInEncoding files)
    (path : String) :
    path ∈ (select paths).map (·.path) ↔ files path ∧ (Encoding.binary.Marks path
      ∨ Encoding.json.Marks path
        ∧ ∀ other, files other → Encoding.binary.Marks other → Path.stem other ≠ Path.stem path) := by
  have hkept := (selects_select paths).mem_iff (unambiguous_filterMap_ofPath? hfiles h)
  have hmem : ∀ other encoding, (⟨other, encoding⟩ : Find) ∈ paths.filterMap ofPath?
      ↔ files other ∧ encoding.Marks other := by
    intro other encoding
    rw [mem_filterMap_ofPath?_iff, hfiles]
  rw [List.mem_map]
  constructor
  · intro hlisted
    obtain ⟨⟨path, encoding⟩, hfound, rfl⟩ := hlisted
    obtain ⟨hfound, hkind⟩ := (hkept _).1 hfound
    obtain ⟨hfile, hmarks⟩ := (hmem path encoding).1 hfound
    refine ⟨hfile, ?_⟩
    cases encoding with
    | binary => exact .inl hmarks
    | json =>
      refine .inr ⟨hmarks, fun other hother hbinary => ?_⟩
      rcases hkind with hkind | hnone
      · cases hkind
      · exact hnone ⟨other, .binary⟩ ((hmem other .binary).2 ⟨hother, hbinary⟩) rfl
  · intro hpath
    obtain ⟨hfile, hbinary | ⟨hjson, hnone⟩⟩ := hpath
    · exact ⟨⟨path, .binary⟩, (hkept _).2 ⟨(hmem path .binary).2 ⟨hfile, hbinary⟩, .inl rfl⟩, rfl⟩
    · refine ⟨⟨path, .json⟩, (hkept _).2 ⟨(hmem path .json).2 ⟨hfile, hjson⟩, .inr ?_⟩, rfl⟩
      intro other hother hencoding
      obtain ⟨hfile, hbinary⟩ := (hmem other.path other.encoding).1 hother
      rw [hencoding] at hbinary
      exact hnone other.path hfile hbinary

theorem listsOneOfEachStem_select (hfiles : ∀ path, path ∈ paths ↔ files path)
    (h : SingleInEncoding files) : ListsOneOfEachStem files ((select paths).map (·.path)) where
  nodup_stems := by
    rw [List.map_map]
    exact (List.pairwise_map.2 (selects_select paths).ascending).imp ne_of_lt
  mem_iff := mem_map_select_iff hfiles h
  existsUnique := by
    intro encoding file hfile hmarks
    have hselects := selects_select paths
    have hfound : ⟨file, encoding⟩ ∈ paths.filterMap ofPath? :=
      mem_filterMap_ofPath?_iff.2 ⟨(hfiles file).2 hfile, hmarks⟩
    obtain ⟨best, hbest, hstands⟩ := hselects.covers _ hfound
    refine ⟨best.path, ⟨List.mem_map_of_mem hbest, hstands.1⟩, fun path hpath => ?_⟩
    obtain ⟨other, hother, rfl⟩ := List.mem_map.1 hpath.1
    exact congrArg Find.path (hselects.eq_of_stem_eq hother hbest (hpath.2.trans hstands.1.symm))

/-- The same files in another order are selected alike. -/
theorem select_eq_of_mem_iff {others : List String} (hfiles : ∀ path, path ∈ paths ↔ files path)
    (hothers : ∀ path, path ∈ others ↔ files path) (h : SingleInEncoding files) :
    select paths = select others := by
  refine (selects_select paths).eq_of_mem_iff (selects_select others)
    (unambiguous_filterMap_ofPath? hfiles h) fun found => ?_
  rw [mem_filterMap_ofPath?_iff, mem_filterMap_ofPath?_iff, hfiles, hothers]

end Find

/-! ### Walks -/

namespace Archive

/-- The paths of the files that are met below a directory when entries are walked in some order. -/
def pathsAlong (walk : List (Location × Entry)) (directory : String) (location : Location) :
    List String :=
  ((FileTree.filesAlong walk location).filter (isMet directory)).map (pathBelow directory)

/-- Discovery with the order in which entries are walked left open. -/
def discoverAlong (walk : List (Location × Entry)) (tree : FileTree) (directory : String) :
    Except Error (List String) :=
  if !tree.isDirectory directory then .error (.invalidParameter (.notDirectory directory))
  else
    match tree.locate directory with
    | none => .error (.invalidParameter (.notDirectory directory))
    | some location => .ok ((Find.select (pathsAlong walk directory location)).map (·.path))

theorem discover_eq_discoverAlong (tree : FileTree) (directory : String) :
    discover tree directory = discoverAlong tree.walk tree directory := rfl

/-- Whether a path is that of a file which a walk below a directory can meet. -/
def IsFileBelow (tree : FileTree) (directory : String) (location : Location) (path : String) : Prop :=
  ∃ below content, (location ++ below, .file content) ∈ tree.entries ∧ isMet directory below = true
    ∧ path = pathBelow directory below

section Walks

variable {tree : FileTree} {directory : String} {location : Location}
  {walk : List (Location × Entry)}

theorem mem_pathsAlong_iff (h : walk.Perm tree.entries) (path : String) :
    path ∈ pathsAlong walk directory location ↔ IsFileBelow tree directory location path := by
  simp only [pathsAlong, List.mem_map, List.mem_filter, FileTree.mem_filesAlong, h.mem_iff, IsFileBelow]
  constructor
  · intro hpath
    obtain ⟨below, ⟨⟨content, hentry⟩, hmet⟩, rfl⟩ := hpath
    exact ⟨below, content, hentry, hmet, rfl⟩
  · intro hpath
    obtain ⟨below, content, hentry, hmet, rfl⟩ := hpath
    exact ⟨below, ⟨⟨content, hentry⟩, hmet⟩, rfl⟩

theorem discoverAlong_of_isAt (h : tree.IsAt directory location) :
    discoverAlong walk tree directory
      = .ok ((Find.select (pathsAlong walk directory location)).map (·.path)) := by
  have hdirectory : tree.isDirectory directory = true := by
    simp [FileTree.isDirectory, FileTree.find?, h.located, h.entry]
  simp [discoverAlong, hdirectory, h.located]

theorem exists_isAt_of_isDirectory (h : tree.isDirectory directory = true) :
    ∃ location, tree.IsAt directory location := by
  unfold FileTree.isDirectory at h
  obtain ⟨location, hlocated, hentry⟩ := Option.bind_eq_some_iff.1 (beq_iff_eq.1 h)
  exact ⟨location, hlocated, hentry⟩

end Walks

/-- Below what is no directory nothing is discovered. Below a directory in which no stem has two binary
files or two documents, one file of each stem is listed, and the list is the same for all orders in which
the entries of the tree are walked. -/
theorem discover_one_of_each_stem (tree : FileTree) (directory : String) :
    (tree.isDirectory directory = false →
        ∀ walk, discoverAlong walk tree directory = .error (.invalidParameter (.notDirectory directory)))
      ∧ (tree.isDirectory directory = true → ∃ location, tree.IsAt directory location
        ∧ (SingleInEncoding (IsFileBelow tree directory location) →
          ∃ paths, ListsOneOfEachStem (IsFileBelow tree directory location) paths
            ∧ discover tree directory = .ok paths
            ∧ ∀ walk, walk.Perm tree.entries → discoverAlong walk tree directory = .ok paths)) := by
  constructor
  · intro hnot walk
    simp [discoverAlong, hnot]
  · intro hdirectory
    obtain ⟨location, hat⟩ := exists_isAt_of_isDirectory hdirectory
    have hsorted : tree.walk.Perm tree.entries := List.mergeSort_perm _ _
    refine ⟨location, hat, fun hsingle => ⟨_,
      Find.listsOneOfEachStem_select (mem_pathsAlong_iff hsorted) hsingle,
      (discover_eq_discoverAlong tree directory).trans (discoverAlong_of_isAt hat),
      fun walk hwalk => ?_⟩⟩
    rw [discoverAlong_of_isAt hat, Find.select_eq_of_mem_iff (mem_pathsAlong_iff hwalk)
      (mem_pathsAlong_iff hsorted) hsingle]

/-- Files with extensions in capitals and with a dot in their stems, one below a directory that has the
name of a document. -/
theorem discover_one_of_each_stem_nested :
    let tree : FileTree := ⟨[(["d"], .directory), (["d", "a.JSON"], .file []), (["d", "b.json"], .file []),
      (["d", "b.v1.json"], .file []), (["d", "c.json"], .directory), (["d", "c.json", "b.Pb"], .file []),
      (["d", "b.bin"], .file []), (["d", "notes.txt"], .file [])], by decide⟩
    let paths := ["d/a.JSON", "d/b.bin", "d/b.v1.json", "d/c.json/b.Pb"]
    tree.isDirectory "d" = true ∧ tree.IsAt "d" ["d"]
      ∧ SingleInEncoding (IsFileBelow tree "d" ["d"])
      ∧ ListsOneOfEachStem (IsFileBelow tree "d" ["d"]) paths
      ∧ discover tree "d" = .ok paths
      ∧ (∀ walk, walk.Perm tree.entries → discoverAlong walk tree "d" = .ok paths)
      ∧ tree.isDirectory "d/b.bin" = false
      ∧ discover tree "d/b.bin" = .error (.invalidParameter (.notDirectory "d/b.bin")) := by
  intro tree paths
  have hdirectory : tree.isDirectory "d" = true := by decide +kernel
  have hfile : tree.isDirectory "d/b.bin" = false := by decide +kernel
  have hfiles : ∀ path, path ∈ pathsAlong tree.entries "d" ["d"] ↔ IsFileBelow tree "d" ["d"] path :=
    mem_pathsAlong_iff (.refl _)
  have hall : ∀ p ∈ pathsAlong tree.entries "d" ["d"], ∀ q ∈ pathsAlong tree.entries "d" ["d"],
      Encoding.ofPath? p ≠ none → Encoding.ofPath? p = Encoding.ofPath? q → Path.stem p = Path.stem q →
      p = q := by decide +kernel
  have hsingle : SingleInEncoding (IsFileBelow tree "d" ["d"]) := by
    intro encoding p q hp hq hmarks hother hstem
    have hfirst := Encoding.ofPath?_eq_some_iff.2 hmarks
    have hsecond := Encoding.ofPath?_eq_some_iff.2 hother
    refine hall p ((hfiles p).2 hp) q ((hfiles q).2 hq) ?_ (hfirst.trans hsecond.symm) hstem
    rw [hfirst]
    exact Option.some_ne_none encoding
  obtain ⟨location, hat, hlists⟩ := (discover_one_of_each_stem tree "d").2 hdirectory
  have hlocated : tree.locate "d" = some ["d"] := by decide +kernel
  obtain rfl : location = ["d"] := Option.some.inj (hat.located.symm.trans hlocated)
  obtain ⟨listed, hlisted, hdiscover, horders⟩ := hlists hsingle
  have hwalked : discoverAlong tree.entries tree "d" = .ok paths := by
    rw [discoverAlong_of_isAt hat]
    exact congrArg Except.ok (by decide +kernel)
  obtain rfl : listed = paths := Except.ok.inj ((horders _ (.refl _)).symm.trans hwalked)
  exact ⟨hdirectory, hat, hsingle, hlisted, hdiscover, horders, hfile,
    (discover_one_of_each_stem tree "d/b.bin").1 hfile tree.walk⟩

end Archive

end AttemptLedger
