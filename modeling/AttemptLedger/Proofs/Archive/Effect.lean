import AttemptLedger.Proofs.Archive.Directories
import AttemptLedger.Proofs.Archive.Runs
import AttemptLedger.Proofs.Export
import AttemptLedger.Proofs.Truncation

/-!
# What a save leaves behind

A save of bytes that are not those of a batch, or under a name that is not accepted, leaves the tree of
files as it was. Every other save, unless the file system fails it, adds the directories on the way to
its own that were missing, puts its three files in there, and leaves everything else as it was.
-/

namespace AttemptLedger

/-! ### Names -/

namespace Text

/-- Whether a text has a blank at an end. -/
def IsPadded (s : String) : Prop :=
  ∃ c, isBlank c = true ∧ (s.toList.head? = some c ∨ s.toList.getLast? = some c)

theorem trimChars_of_ends {cs : List Char} (hhead : ∀ c, cs.head? = some c → isBlank c = false)
    (hlast : ∀ c, cs.getLast? = some c → isBlank c = false) : trimChars cs = cs := by
  have hends : ∀ (chars : List Char), (∀ c, chars.head? = some c → isBlank c = false) →
      chars.dropWhile isBlank = chars := by
    intro chars h
    cases chars with
    | nil => rfl
    | cons c chars => rw [List.dropWhile_cons_of_neg (by simp [h c rfl])]
  rw [trimChars, hends cs hhead, hends cs.reverse (by simpa using hlast), List.reverse_reverse]

theorem trim_ne_self_iff {s : String} : trim s ≠ s ↔ IsPadded s := by
  constructor
  · intro h
    by_contra hnot
    have hblank : ∀ c, s.toList.head? = some c ∨ s.toList.getLast? = some c → isBlank c = false :=
      fun c hc => Bool.eq_false_of_not_eq_true fun hb => hnot ⟨c, hb, hc⟩
    apply h
    rw [trim, trimChars_of_ends (fun c hc => hblank c (.inl hc)) fun c hc => hblank c (.inr hc),
      String.ofList_toList]
  · intro h hself
    obtain ⟨c, hblank, hc⟩ := h
    have hchars : trimChars s.toList = s.toList := by rw [← toList_trim, hself]
    rw [← hchars] at hc
    rcases hc with hc | hc
    · exact absurd hblank (by simp [head?_trimChars hc])
    · exact absurd hblank (by simp [getLast?_trimChars hc])

end Text

namespace Archive

/-- Whether a name is refused as a blank one. -/
def IsBlankName (name : String) : Prop := name = "" ∨ Text.IsPadded name

/-- Whether a name is refused as part of a path. -/
def IsPathName (name : String) : Prop :=
  '/' ∈ name.toList ∨ '\\' ∈ name.toList ∨ name = "." ∨ name = ".."

variable {name directory : String} {tree made last : FileTree} {location : Location}
  {payload : Bytes} {batch : Batch} {includeCode : Bool} {saved : Saved}

theorem isBlankName_iff : IsBlankName name ↔ Text.trim name = "" ∨ Text.trim name ≠ name := by
  rw [IsBlankName, ← Text.trim_ne_self_iff]
  by_cases hname : name = ""
  · subst hname
    simp [show Text.trim "" = "" by decide]
  · constructor
    · intro h
      exact .inr (h.resolve_left hname)
    · intro h
      refine .inr fun hself => ?_
      rcases h with hempty | hne
      · exact hname (hself.symm.trans hempty)
      · exact hne hself

instance (name : String) : Decidable (IsBlankName name) := decidable_of_iff _ isBlankName_iff.symm

theorem isPathName_iff : IsPathName name ↔ name.toList.contains '/' ∨ name.toList.contains '\\'
    ∨ name = "." ∨ name = ".." := by
  simp only [IsPathName, List.contains_iff_mem]

instance (name : String) : Decidable (IsPathName name) := decidable_of_iff _ isPathName_iff.symm

theorem checkName_of_isBlankName (h : IsBlankName name) :
    checkName name = .error (.invalidParameter (.blankName name)) := if_pos (isBlankName_iff.1 h)

theorem checkName_of_isPathName (hblank : ¬IsBlankName name) (h : IsPathName name) :
    checkName name = .error (.invalidParameter (.pathName name)) := by
  rw [checkName, if_neg (mt isBlankName_iff.2 hblank), if_pos (isPathName_iff.1 h)]

theorem checkName_of_not (hblank : ¬IsBlankName name) (hpath : ¬IsPathName name) :
    checkName name = .ok () := by
  rw [checkName, if_neg (mt isBlankName_iff.2 hblank), if_neg (mt isPathName_iff.2 hpath)]

/-! ### Errors of the file system -/

/-- Whether the only errors of a step are those of the file system. -/
def FailsOnDisk {α : Type} (step : Disk α) : Prop :=
  ∀ tree e last, step tree = (.error e, last) → e = .fileSystem

theorem failsOnDisk_makeDirectory (path : String) : FailsOnDisk (makeDirectory path) := by
  intro tree e last h
  unfold makeDirectory at h
  split at h
  · cases h
  · cases h
    rfl

theorem failsOnDisk_writeFile (path : String) (content : Bytes) :
    FailsOnDisk (writeFile path content) := by
  intro tree e last h
  unfold writeFile at h
  split at h
  · cases h
  · cases h
    rfl

theorem FailsOnDisk.andThen {α β : Type} {first : Disk α} {second : α → Disk β}
    (hfirst : FailsOnDisk first) (hsecond : ∀ a, FailsOnDisk (second a)) :
    FailsOnDisk (andThen first second) := by
  intro tree e last h
  unfold Archive.andThen at h
  split at h
  · exact hsecond _ _ _ _ h
  · next e' middle hstep =>
    cases h
    exact hfirst _ _ _ hstep

theorem failsOnDisk_saveFiles : FailsOnDisk (saveFiles directory name payload batch includeCode) := by
  refine (failsOnDisk_makeDirectory _).andThen fun _ => ?_
  refine (failsOnDisk_writeFile _ _).andThen fun _ => ?_
  refine (failsOnDisk_writeFile _ _).andThen fun _ => ?_
  refine (failsOnDisk_writeFile _ _).andThen fun _ => ?_
  intro tree e last h
  cases h

/-- Whether no operation on files fails that a save does: its directory can be made, and each of its files
can be written in there. -/
structure CanSave (tree made : FileTree) (directory name : String) : Prop where
  makes : tree.makeDirectories directory = (true, made)
  writes : ∀ (artifact : Artifact) (content : Bytes),
    ∃ after, made.write? (Path.join directory (artifact.fileName name)) content = some after

theorem CanSave.isFree (h : CanSave tree made directory name) (hname : Path.IsPlain name)
    (hopens : made.Opens directory location) (artifact : Artifact) :
    made.IsFree directory location (artifact.fileName name) := by
  obtain ⟨after, hwrite⟩ := h.writes artifact []
  exact ((write?_join_eq_some_iff hopens (Artifact.isPlain_fileName hname artifact)).1 hwrite).1

theorem CanSave.of_isFree (hmakes : tree.makeDirectories directory = (true, made))
    (hopens : made.Opens directory location) (hname : Path.IsPlain name)
    (hfree : ∀ artifact : Artifact, made.IsFree directory location (artifact.fileName name)) :
    CanSave tree made directory name where
  makes := hmakes
  writes artifact _ := ⟨_, (write?_join_eq_some_iff hopens
    (Artifact.isPlain_fileName hname artifact)).2 ⟨hfree artifact, rfl⟩⟩

theorem exists_makeDirectories_of_saveFiles
    (h : saveFiles directory name payload batch includeCode tree = (.ok saved, last)) :
    ∃ made, tree.makeDirectories directory = (true, made) := by
  unfold saveFiles andThen makeDirectory at h
  cases hmakes : tree.makeDirectories directory with
  | mk success made =>
    cases success with
    | true => exact ⟨made, rfl⟩
    | false =>
      rw [hmakes] at h
      cases h

/-- A save that succeeds could do all its operations. -/
theorem exists_canSave_of_saveFiles (hname : checkName name = .ok ())
    (h : saveFiles directory name payload batch includeCode tree = (.ok saved, last)) :
    ∃ made, CanSave tree made directory name := by
  obtain ⟨made, hmakes⟩ := exists_makeDirectories_of_saveFiles h
  obtain ⟨⟨location, hopens⟩, -⟩ := FileTree.opens_of_makeDirectories hmakes
  have hsave : saveAs directory name payload batch includeCode tree = (.ok saved, last) := by
    rw [saveAs, hname]
    exact h
  obtain ⟨-, hfree, -, -⟩ := (saveAs_eq_ok_iff_of_makes hmakes hopens).1 hsave
  exact ⟨made, .of_isFree hmakes hopens (isPlain_of_checkName hname) hfree⟩

/-- A save that cannot do all its operations fails on one of them. -/
theorem saveAs_of_not_canSave (hname : checkName name = .ok ())
    (h : ∀ made, ¬CanSave tree made directory name) :
    ∃ last, saveAs directory name payload batch includeCode tree = (.error .fileSystem, last) := by
  have hsave : saveAs directory name payload batch includeCode tree
      = saveFiles directory name payload batch includeCode tree := by rw [saveAs, hname]
  rw [hsave]
  cases hfiles : saveFiles directory name payload batch includeCode tree with
  | mk outcome last =>
    cases outcome with
    | error e =>
      obtain rfl := failsOnDisk_saveFiles _ _ _ hfiles
      exact ⟨last, rfl⟩
    | ok saved =>
      obtain ⟨made, hcan⟩ := exists_canSave_of_saveFiles hname hfiles
      exact absurd hcan (h made)

/-! ### The effect of a save -/

section Effect

open FileTree (IsKeptOrAdded)

variable {call : Call}

/-- What a call that succeeds has done to a tree: its three files are in its directory and hold the given
bytes, the document of the batch and the export of its table; the directory is there with all above it; and
everything else is as it was, but for those of these directories that were missing. -/
structure Call.Leaves (call : Call) (batch : Batch) (directory : String) (location : Location)
    (tree last : FileTree) (saved : Saved) : Prop where
  path_eq : ∀ artifact, saved.path artifact = Path.join directory (artifact.fileName call.name)
  components_eq : ∀ artifact, Path.components (saved.path artifact)
    = Path.components directory ++ [.name (artifact.fileName call.name)]
  located : ∀ artifact, last.locate (saved.path artifact)
    = some (location ++ [artifact.fileName call.name])
  binary : last.read? saved.binary = some call.bytes
  json : last.read? saved.json = some (Text.Utf8.encode (Json.encode batch))
  csv : ∃ text, Export.write call.includeCode (Table.ofBatch batch).rows = .ok text
    ∧ last.read? saved.csv = some (Text.Utf8.encode text)
  digest : saved.sha256 = Digest.hex (Digest.sha256 call.bytes)
  opens : last.Opens directory location
  above : ∀ front, front <+: FileTree.steps directory →
    ∃ place, last.follow [] front = some place ∧ last.get? place = some .directory
  kept : ∀ place, (∀ artifact : Artifact, place ≠ location ++ [artifact.fileName call.name]) →
    IsKeptOrAdded tree last [] (FileTree.steps directory) place

theorem Call.leaves_putArtifacts (hname : checkName call.name = .ok ())
    (hopens : made.Opens directory location)
    (hadds : FileTree.AddsAlong tree made [] (FileTree.steps directory))
    (hfree : ∀ artifact : Artifact, made.IsFree directory location (artifact.fileName call.name)) :
    call.Leaves batch directory location tree
      (made.putArtifacts location call.name (Artifact.content call.bytes batch call.includeCode))
      (.ofPayload directory call.name call.bytes) := by
  have hplain := isPlain_of_checkName hname
  have hfile := Artifact.isPlain_fileName hplain
  have hsame : FileTree.SameDirectories made (made.putArtifacts location call.name
      (Artifact.content call.bytes batch call.includeCode)) :=
    FileTree.sameDirectories_putArtifacts hplain.ne_empty hfree
  have hlast := hsame.opens hopens
  have hlocated := fun artifact => (hsame.isFree (hfree artifact)).located
  have hread := fun artifact => read?_of_locate hlast (hfile artifact) (hlocated artifact)
    (FileTree.get?_putArtifacts hplain.ne_empty artifact)
  refine ⟨Saved.path_ofPayload _ _ _, ?_, ?_, hread .binary, hread .json,
    ⟨_, Export.write_eq _ _, hread .csv⟩, rfl, hlast, fun front => hlast.exists_above, ?_⟩
  · intro artifact
    rw [Saved.path_ofPayload, Path.components_join (hfile artifact)]
  · intro artifact
    rw [Saved.path_ofPayload, hlocated]
  · intro place hplace
    -- No directory is gone or new, so the way to it leads through the same places.
    rw [IsKeptOrAdded, FileTree.get?_putArtifacts_of_ne hplace]
    simpa only [IsKeptOrAdded, hsame.follow_eq] using hadds place

theorem Call.exists_leaves (hgiven : call.given = .ok batch) (hname : checkName call.name = .ok ())
    (hcan : CanSave tree made directory call.name) :
    ∃ saved last location, call.run directory tree = (.ok saved, last)
      ∧ call.Leaves batch directory location tree last saved := by
  obtain ⟨⟨location, hopens⟩, hadds⟩ := FileTree.opens_of_makeDirectories hcan.makes
  have hfree := hcan.isFree (isPlain_of_checkName hname) hopens
  refine ⟨_, _, location, ?_, Call.leaves_putArtifacts hname hopens hadds hfree⟩
  rw [Call.run_eq, hgiven]
  exact (saveAs_eq_ok_iff_of_makes hcan.makes hopens).2 ⟨hname, hfree, rfl, rfl⟩

theorem Call.malformed_of_given {e : Error} (h : call.given = .error e) :
    ∃ cause, e = .malformed cause := by
  cases call with
  | response name batch includeCode => cases h
  | payload name bytes includeCode =>
    have hread : Batch.ofBytes bytes = .error e := h
    have hnot : ∀ batch, Batch.ofBytes bytes ≠ .ok batch := by simp [hread]
    obtain ⟨cause, hcause⟩ := Batch.malformed_of_ofBytes_ne_ok hnot
    exact ⟨cause, Except.error.inj (hread.symm.trans hcause)⟩

/-- A save changes nothing if there is no batch to save or its name is not accepted, and says so in this
order; else it succeeds if all its operations on files can be done, and leaves its files and no other
change; if not, the error is one of the file system. -/
theorem Call.saves_or_refuses (call : Call) (directory : String) (tree : FileTree) :
    (∀ e, call.given = .error e →
        (∃ cause, e = .malformed cause) ∧ call.run directory tree = (.error e, tree))
      ∧ ∀ batch, call.given = .ok batch →
        (IsBlankName call.name → call.run directory tree
            = (.error (.invalidParameter (.blankName call.name)), tree))
          ∧ (¬IsBlankName call.name → IsPathName call.name → call.run directory tree
            = (.error (.invalidParameter (.pathName call.name)), tree))
          ∧ (¬IsBlankName call.name → ¬IsPathName call.name →
            (∀ made, CanSave tree made directory call.name →
              ∃ saved last location, call.run directory tree = (.ok saved, last)
                ∧ call.Leaves batch directory location tree last saved)
            ∧ ((∀ made, ¬CanSave tree made directory call.name) →
              ∃ last, call.run directory tree = (.error .fileSystem, last))) := by
  refine ⟨?_, fun batch hgiven => ⟨?_, ?_, fun hblank hpath => ⟨?_, ?_⟩⟩⟩
  · intro e hgiven
    refine ⟨Call.malformed_of_given hgiven, ?_⟩
    rw [Call.run_eq, hgiven]
  · intro hblank
    rw [Call.run_eq, hgiven]
    simp only [saveAs, checkName_of_isBlankName hblank]
  · intro hblank hpath
    rw [Call.run_eq, hgiven]
    simp only [saveAs, checkName_of_isPathName hblank hpath]
  · intro made hcan
    exact Call.exists_leaves hgiven (checkName_of_not hblank hpath) hcan
  · intro hcannot
    rw [Call.run_eq, hgiven]
    exact saveAs_of_not_canSave (checkName_of_not hblank hpath) hcannot

/-- The way to the directory leads through one that is missing and back; a file is beside it, and the bytes
have a field of their own. -/
theorem Call.saves_or_refuses_nested :
    let tree : FileTree := ⟨[(["d"], .directory), (["d", "old.csv"], .file [0x61])], by decide⟩
    let directory := "d/a/../b"
    let bytes : Bytes := [0x8a, 0x01, 0x03, 0x61, 0x62, 0x63]
    (∃ cause, savePayload directory "../x" [0x0a, 0x05, 0x01] false tree
        = (.error (.malformed cause), tree))
      ∧ savePayload directory "x " bytes false tree
        = (.error (.invalidParameter (.blankName "x ")), tree)
      ∧ save directory "../x" ⟨[]⟩ false tree
        = (.error (.invalidParameter (.pathName "../x")), tree)
      ∧ (∃ last, save "d/old.csv" "run" ⟨[]⟩ false tree = (.error .fileSystem, last))
      ∧ ∃ saved last, savePayload directory "run.v1" bytes true tree = (.ok saved, last)
        ∧ saved.binary = "d/a/../b/run.v1.bin"
        ∧ last.read? saved.binary = some bytes
        ∧ saved.sha256 = "47025f902e05f03c1b905a7697b94bab0c8bf657988aa2cbd1bc6e242c6f8442"
        ∧ last.get? ["d", "old.csv"] = some (.file [0x61]) := by
  intro tree directory bytes
  have hread : Batch.ofBytes bytes = .ok ⟨[]⟩ := Batch.ofBytes_eq_ok_iff.2 (by decide +kernel)
  have hshort : ∀ batch, Batch.ofBytes [0x0a, 0x05, 0x01] ≠ .ok batch := by
    intro batch h
    have hdecode := congrArg Except.toOption (Batch.ofBytes_eq_ok_iff.1 h)
    rw [show (Wire.decode [0x0a, 0x05, 0x01]).toOption = none by decide +kernel] at hdecode
    cases hdecode
  obtain ⟨cause, hcause⟩ := Batch.malformed_of_ofBytes_ne_ok hshort
  have hmalformed := (Call.saves_or_refuses (.payload "../x" [0x0a, 0x05, 0x01] false) directory tree).1
    _ hcause
  have hblank := ((Call.saves_or_refuses (.payload "x " bytes false) directory tree).2 _ hread).1
    (by decide)
  have hpath := ((Call.saves_or_refuses (.response "../x" ⟨[]⟩ false) directory tree).2 _ rfl).2.1
    (by decide) (by decide)
  have hfile : ∀ made, ¬CanSave tree made "d/old.csv" "run" := by
    intro made h
    have hmakes : (tree.makeDirectories "d/old.csv").1 = false := by decide +kernel
    rw [h.makes] at hmakes
    cases hmakes
  have hfails := (((Call.saves_or_refuses (.response "run" ⟨[]⟩ false) "d/old.csv" tree).2 _ rfl).2.2
    (by decide) (by decide)).2 hfile
  have hmakes : tree.makeDirectories directory = (true, (tree.makeDirectories directory).2) :=
    Prod.ext (by decide +kernel) rfl
  have hopens : (tree.makeDirectories directory).2.Opens directory ["d", "b"] :=
    ⟨by decide +kernel, by decide +kernel⟩
  have hfree : ∀ artifact : Artifact,
      (tree.makeDirectories directory).2.IsFree directory ["d", "b"] (artifact.fileName "run.v1") := by
    intro artifact
    cases artifact <;> exact ⟨by decide +kernel, by decide +kernel⟩
  have hname : checkName "run.v1" = .ok () := checkName_of_not (by decide) (by decide)
  obtain ⟨saved, last, location, hrun, hleaves⟩ :=
    (((Call.saves_or_refuses (.payload "run.v1" bytes true) directory tree).2 _ hread).2.2
      (by decide) (by decide)).1 _ (.of_isFree hmakes hopens (isPlain_of_checkName hname) hfree)
  refine ⟨⟨cause, hmalformed.2⟩, hblank, hpath, hfails, saved, last, hrun,
    (hleaves.path_eq .binary).trans (by decide), hleaves.binary,
    hleaves.digest.trans (by decide +kernel), ?_⟩
  have hother : ∀ artifact : Artifact, ["d", "old.csv"] ≠ location ++ [artifact.fileName "run.v1"] := by
    intro artifact h
    have hboth : ["d"] ++ ["old.csv"] = location ++ [artifact.fileName "run.v1"] := h
    have hlast := (List.append_inj' hboth rfl).2
    cases artifact <;> exact absurd hlast (by decide)
  rcases hleaves.kept _ hother with hkept | ⟨hnone, -⟩
  · rw [hkept]
    decide
  · exact absurd hnone (by decide)

end Effect

end Archive

end AttemptLedger
