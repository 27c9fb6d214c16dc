import AttemptLedger.Archive.Discovery
import AttemptLedger.Proofs.Archive.Order
import Mathlib.Data.List.Nodup

/-!
# What discovery finds

Of the files met, discovery keeps one for each stem, a binary one if there is one, in ascending order
of the stems. That is the order of the files themselves exactly as long as none of them undercuts one
listed before it.
-/

namespace AttemptLedger

/-! ### One file for each stem -/

namespace Find

/-- Whether a file is one to keep instead of another: of the same stem, and binary if that one is. -/
def StandsFor (kept found : Find) : Prop :=
  kept.stem = found.stem ∧ (found.encoding = .binary → kept.encoding = .binary)

theorem StandsFor.refl (found : Find) : found.StandsFor found := ⟨rfl, id⟩

theorem StandsFor.trans {a b c : Find} (hab : a.StandsFor b) (hbc : b.StandsFor c) : a.StandsFor c :=
  ⟨hab.1.trans hbc.1, fun h => hab.2 (hbc.2 h)⟩

theorem prefer_standsFor {first second : Find} (h : second.stem = first.stem) :
    (prefer first second).StandsFor first ∧ (prefer first second).StandsFor second := by
  unfold prefer StandsFor
  cases hfirst : first.encoding <;> cases hsecond : second.encoding <;> simp [h, hfirst, hsecond]

theorem eq_or_eq_of_prefer (first second : Find) :
    prefer first second = first ∨ prefer first second = second := by
  unfold prefer
  split
  · exact .inl rfl
  · exact .inr rfl

/-- Whether a list keeps one file for each stem of some files, in the order of the stems. -/
structure Selects (finds kept : List Find) : Prop where
  ascending : kept.Pairwise fun a b => a.stem < b.stem
  subset : ∀ found ∈ kept, found ∈ finds
  covers : ∀ found ∈ finds, ∃ other ∈ kept, other.StandsFor found

theorem mem_of_mem_insert {found other : Find} {kept : List Find} (h : other ∈ insert found kept) :
    other = found ∨ other ∈ kept := by
  induction kept with
  | nil => simpa [insert] using h
  | cons first rest ih =>
    unfold insert at h
    split at h
    · simpa using h
    · split at h
      · rcases List.mem_cons.1 h with heq | hrest
        · rcases eq_or_eq_of_prefer first found with hprefer | hprefer <;> simp [heq, hprefer]
        · simp [hrest]
      · rcases List.mem_cons.1 h with heq | hrest
        · simp [heq]
        · rcases ih hrest with h | h <;> simp [h]

theorem exists_mem_insert (found : Find) (kept : List Find) :
    (∃ other ∈ insert found kept, other.StandsFor found)
      ∧ ∀ first ∈ kept, ∃ other ∈ insert found kept, other.StandsFor first := by
  induction kept with
  | nil => simp [insert, StandsFor.refl]
  | cons first rest ih =>
    have hself : ∀ {l : List Find}, ∀ a ∈ l, ∃ other ∈ l, other.StandsFor a :=
      fun a ha => ⟨a, ha, .refl a⟩
    unfold insert
    split
    · exact ⟨hself found (by simp), fun a ha => hself a (by simp [List.mem_cons.1 ha])⟩
    · split
      · next hstem =>
        have hboth := prefer_standsFor hstem
        refine ⟨⟨_, by simp, hboth.2⟩, fun a ha => ?_⟩
        rcases List.mem_cons.1 ha with heq | hrest
        · rw [heq]
          exact ⟨_, List.mem_cons_self, hboth.1⟩
        · exact hself a (by simp [hrest])
      · obtain ⟨⟨other, hmem, hother⟩, hrest⟩ := ih
        refine ⟨⟨other, by simp [hmem], hother⟩, fun a ha => ?_⟩
        rcases List.mem_cons.1 ha with heq | ha
        · exact hself a (by simp [heq])
        · obtain ⟨other, hmem, hother⟩ := hrest a ha
          exact ⟨other, by simp [hmem], hother⟩

theorem pairwise_insert {found : Find} {kept : List Find}
    (h : kept.Pairwise fun a b => a.stem < b.stem) :
    (insert found kept).Pairwise fun a b => a.stem < b.stem := by
  induction kept with
  | nil => simp [insert]
  | cons first rest ih =>
    obtain ⟨hfirst, hrest⟩ := List.pairwise_cons.1 h
    unfold insert
    split
    · next hbefore =>
      have hlt := Path.precedes_iff_lt.1 hbefore
      refine List.pairwise_cons.2 ⟨fun a ha => ?_, h⟩
      rcases List.mem_cons.1 ha with heq | ha
      · rw [heq]
        exact hlt
      · exact hlt.trans (hfirst a ha)
    · next hnot =>
      split
      · next hstem =>
        refine List.pairwise_cons.2 ⟨fun a ha => ?_, hrest⟩
        rw [(prefer_standsFor hstem).1.1]
        exact hfirst a ha
      · next hne =>
        have hlt : first.stem < found.stem :=
          lt_of_le_of_ne (not_lt.1 fun h => hnot (Path.precedes_iff_lt.2 h)) (Ne.symm hne)
        refine List.pairwise_cons.2 ⟨fun a ha => ?_, ih hrest⟩
        rcases mem_of_mem_insert ha with heq | ha
        · rw [heq]
          exact hlt
        · exact hfirst a ha

theorem Selects.insert {finds kept : List Find} (h : Selects finds kept) (found : Find) :
    Selects (finds ++ [found]) (insert found kept) where
  ascending := pairwise_insert h.ascending
  subset other hother := by
    rcases mem_of_mem_insert hother with heq | hkept
    · simp [heq]
    · simp [h.subset other hkept]
  covers other hother := by
    obtain ⟨hfound, hkept⟩ := exists_mem_insert found kept
    rcases List.mem_append.1 hother with hother | heq
    · obtain ⟨middle, hmiddle, hstands⟩ := h.covers other hother
      obtain ⟨last, hlast, hlasts⟩ := hkept middle hmiddle
      exact ⟨last, hlast, hlasts.trans hstands⟩
    · rw [List.mem_singleton.1 heq]
      exact hfound

theorem selects_select (paths : List String) : Selects (paths.filterMap ofPath?) (select paths) := by
  -- By induction on the files still to come, for any that were met before.
  have hfold : ∀ (more finds kept : List Find), Selects finds kept →
      Selects (finds ++ more) (more.foldl (fun kept found => Find.insert found kept) kept) := by
    intro more
    induction more with
    | nil => exact fun finds kept h => by simpa using h
    | cons found more ih =>
      intro finds kept h
      have := ih _ _ (h.insert found)
      simpa using this
  exact hfold _ [] [] ⟨.nil, by simp, by simp⟩

theorem Selects.eq_of_stem_eq {finds kept : List Find} (h : Selects finds kept) {a b : Find}
    (ha : a ∈ kept) (hb : b ∈ kept) (hstem : a.stem = b.stem) : a = b := by
  have hstems : (kept.map Find.stem).Nodup := (List.pairwise_map.2 h.ascending).imp ne_of_lt
  exact List.inj_on_of_nodup_map hstems ha hb hstem

theorem ofPath?_eq_some_iff {path : String} {found : Find} :
    ofPath? path = some found ↔ found.path = path ∧ Encoding.ofPath? path = some found.encoding := by
  unfold ofPath?
  cases found with
  | mk other encoding => simp [and_comm, eq_comm]

end Find

/-! ### Discovery -/

/-- Entries that stand in order are walked as they stand. -/
theorem FileTree.walk_of_pairwise {tree : FileTree}
    (h : tree.entries.Pairwise fun a b => comesBefore a b = true) : tree.walk = tree.entries :=
  List.mergeSort_of_pairwise h

namespace Archive

theorem discover_eq_ok_iff {tree : FileTree} {directory : String} {paths : List String} :
    discover tree directory = .ok paths
      ↔ ∃ location, tree.locate directory = some location ∧ tree.get? location = some .directory
        ∧ (Find.select (filePaths tree directory location)).map (·.path) = paths := by
  unfold discover FileTree.isDirectory FileTree.find?
  cases hlocate : tree.locate directory with
  | none => simp
  | some location =>
    by_cases hentry : tree.get? location = some .directory
    · simp [hentry]
    · simp [hentry]

theorem loadTables_eq_mapM (tree : FileTree) (paths : List String) :
    loadTables tree paths = paths.mapM (loadTable tree) := by
  induction paths with
  | nil => rfl
  | cons path paths ih =>
    rw [List.mapM_cons, loadTables, ih]
    cases loadTable tree path with
    | error e => rfl
    | ok table => cases paths.mapM (loadTable tree) <;> rfl

/-- The files that are listed can be loaded as far as their extensions tell, and their stems ascend. -/
theorem ascending_of_discover {tree : FileTree} {directory : String} {paths : List String}
    (h : discover tree directory = .ok paths) :
    (∀ path ∈ paths, ∃ extension, Path.extension? path = some extension)
      ∧ paths.Pairwise fun p q => Path.precedes (Path.stem p) (Path.stem q) = true := by
  obtain ⟨location, -, -, rfl⟩ := discover_eq_ok_iff.1 h
  have hselects := Find.selects_select (filePaths tree directory location)
  constructor
  · intro path hpath
    obtain ⟨found, hfound, rfl⟩ := List.mem_map.1 hpath
    obtain ⟨path, -, hof⟩ := List.mem_filterMap.1 (hselects.subset found hfound)
    obtain ⟨rfl, hencoding⟩ := Find.ofPath?_eq_some_iff.1 hof
    obtain ⟨extension, hextension, -⟩ := Option.bind_eq_some_iff.1 hencoding
    exact ⟨extension, hextension⟩
  · rw [List.pairwise_map]
    exact hselects.ascending.imp Path.precedes_iff_lt.2

/-- The files that are listed have ascending stems, and tables are loaded in their order. They stand in
the order of their paths exactly if none of them undercuts one that is listed before it. -/
theorem discover_ascending {tree : FileTree} {directory : String} {paths : List String}
    (h : discover tree directory = .ok paths) :
    (paths.Pairwise fun p q => Path.precedes (Path.stem p) (Path.stem q) = true)
      ∧ ((paths.Pairwise fun p q =>
          Path.precedes (Path.components p) (Path.components q) = true)
        ↔ paths.Pairwise fun p q => ¬Path.Undercuts q p)
      ∧ loadDirectory tree directory
        = (paths.mapM (loadTable tree)).map fun tables => ⟨tables.flatMap (·.rows)⟩ := by
  obtain ⟨hfiles, hstems⟩ := ascending_of_discover h
  have hpairs : paths.Pairwise fun p q =>
      (Path.precedes (Path.components p) (Path.components q) = true ↔ ¬Path.Undercuts q p) := by
    refine hstems.imp_of_mem fun {p q} hp hq hlt => ?_
    obtain ⟨_, hfirst⟩ := hfiles p hp
    obtain ⟨_, hsecond⟩ := hfiles q hq
    exact Path.precedes_iff_not_undercuts hfirst hsecond hlt
  refine ⟨hstems, ⟨?_, ?_⟩, ?_⟩
  · intro hpaths
    exact (hpairs.and hpaths).imp fun hboth => hboth.1.1 hboth.2
  · intro hnone
    exact (hpairs.and hnone).imp fun hboth => hboth.1.2 hboth.2
  · rw [loadDirectory, h, ← loadTables_eq_mapM]
    rfl

/-- One file of each kind: `a` as a document, `b` in both encodings, `c` below a directory. -/
theorem discover_ascending_three :
    let tree : FileTree := ⟨[(["d"], .directory), (["d", "a.json"], .file []),
      (["d", "b.bin"], .file []), (["d", "b.json"], .file []), (["d", "sub"], .directory),
      (["d", "sub", "c.pb"], .file [])], by decide⟩
    let paths := ["d/a.json", "d/b.bin", "d/sub/c.pb"]
    discover tree "d" = .ok paths
      ∧ (paths.Pairwise fun p q => Path.precedes (Path.stem p) (Path.stem q) = true)
      ∧ (paths.Pairwise fun p q => ¬Path.Undercuts q p)
      ∧ loadDirectory tree "d"
        = (paths.mapM (loadTable tree)).map fun tables => ⟨tables.flatMap (·.rows)⟩ := by
  intro tree paths
  have hfound : discover tree "d" = .ok paths := by
    refine discover_eq_ok_iff.2 ⟨["d"], by decide +kernel, by decide +kernel, ?_⟩
    rw [filePaths, FileTree.filesBelow, FileTree.walk_of_pairwise (by decide +kernel)]
    decide +kernel
  obtain ⟨hstems, hpaths, hload⟩ := discover_ascending hfound
  exact ⟨hfound, hstems, hpaths.1 (by decide +kernel), hload⟩

/-- The files of `run` and `run-1`, and those of `x` and of `y` below a directory `x`, are not listed in
the order of their paths. -/
theorem discover_unordered_beside_stem :
    let tree : FileTree := ⟨[(["d"], .directory), (["d", "run-1.bin"], .file []),
      (["d", "run.bin"], .file []), (["d", "x"], .directory), (["d", "x", "y.bin"], .file []),
      (["d", "x.bin"], .file [])], by decide⟩
    let paths := ["d/run.bin", "d/run-1.bin", "d/x.bin", "d/x/y.bin"]
    discover tree "d" = .ok paths
      ∧ Path.precedes (Path.components "d/run-1.bin") (Path.components "d/run.bin") = true
      ∧ Path.precedes (Path.components "d/x/y.bin") (Path.components "d/x.bin") = true
      ∧ ¬paths.Pairwise fun p q =>
        Path.precedes (Path.components p) (Path.components q) = true := by
  refine ⟨discover_eq_ok_iff.2 ⟨["d"], by decide +kernel, by decide +kernel, ?_⟩, by decide +kernel,
    by decide +kernel, by decide +kernel⟩
  rw [filePaths, FileTree.filesBelow, FileTree.walk_of_pairwise (by decide +kernel)]
  decide +kernel

end Archive

end AttemptLedger
