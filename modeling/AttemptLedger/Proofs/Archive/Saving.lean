import AttemptLedger.Archive.Basic
import AttemptLedger.Proofs.Archive.Places
import AttemptLedger.Proofs.Text.Utf8

/-!
# What saving does

A batch is saved into a directory that is there exactly if its name is accepted and each of its three
files can be written; then these files are all that changes.
-/

namespace AttemptLedger

open FileTree (IsAt SameDirectories)

/-- The files of a saved batch. -/
inductive Artifact
  | binary
  | json
  | csv
  deriving DecidableEq

namespace Artifact

def extension : Artifact → String
  | binary => Encoding.binary.extension
  | json => Encoding.json.extension
  | csv => "csv"

def encoding? : Artifact → Option Encoding
  | binary => some .binary
  | json => some .json
  | csv => none

def fileName (name : String) (artifact : Artifact) : String := name ++ "." ++ artifact.extension

/-- What the files hold that are saved for some bytes and the batch they are read as. -/
def content (payload : Bytes) (batch : Batch) (includeCode : Bool) : Artifact → Bytes
  | binary => payload
  | json => Text.Utf8.encode (Json.encode batch)
  | csv => Text.Utf8.encode (Export.print includeCode (Table.ofBatch batch).rows)

variable {name : String}

theorem splitExtension_fileName (hname : name ≠ "") (artifact : Artifact) :
    Path.splitExtension (artifact.fileName name) = (name, some artifact.extension) := by
  have hdot : '.' ∉ artifact.extension.toList := by cases artifact <;> decide
  have hfile : artifact.fileName name
      = String.ofList (name.toList ++ '.' :: artifact.extension.toList) := by
    apply String.toList_injective
    simp [fileName]
  rw [hfile, Path.splitExtension_of_append (by simpa using hname) hdot]
  simp

theorem fileName_injective {other : String} {a b : Artifact} (hname : name ≠ "") (hother : other ≠ "")
    (h : a.fileName name = b.fileName other) : a = b ∧ name = other := by
  have hsplit := splitExtension_fileName hname a
  rw [h, splitExtension_fileName hother b] at hsplit
  obtain ⟨hnames, hextension⟩ := Prod.mk.inj hsplit
  refine ⟨?_, hnames.symm⟩
  cases a <;> cases b <;> first | rfl | exact absurd hextension (by decide)

theorem isPlain_fileName (hname : Path.IsPlain name) (artifact : Artifact) :
    Path.IsPlain (artifact.fileName name) := by
  have hslash : '/' ∉ (artifact.fileName name).toList := by
    have hextension : '/' ∉ artifact.extension.toList := by cases artifact <;> decide
    simp [fileName, hname.slash, hextension]
  have hlong : 4 ≤ (artifact.fileName name).toList.length := by
    cases artifact <;> simp [fileName, extension, Encoding.extension]
  refine ⟨hslash, ?_, ?_, ?_⟩
  all_goals
    intro h
    rw [h] at hlong
    exact absurd hlong (by decide)

theorem stemOfName_fileName (hname : Path.IsPlain name) (artifact : Artifact) :
    Path.stemOfName (artifact.fileName name) = .name name := by
  simp [Path.stemOfName, splitExtension_fileName hname.ne_empty, hname.ne_here, hname.ne_up]

end Artifact

namespace Saved

def path (saved : Saved) : Artifact → String
  | .binary => saved.binary
  | .json => saved.json
  | .csv => saved.csv

/-- What a save of some bytes tells. -/
def ofPayload (directory name : String) (payload : Bytes) : Saved where
  binary := Path.join directory (Artifact.binary.fileName name)
  json := Path.join directory (Artifact.json.fileName name)
  csv := Path.join directory (Artifact.csv.fileName name)
  sha256 := Digest.hex (Digest.sha256 payload)

theorem path_ofPayload (directory name : String) (payload : Bytes) (artifact : Artifact) :
    (ofPayload directory name payload).path artifact
      = Path.join directory (artifact.fileName name) := by
  cases artifact <;> rfl

end Saved

namespace FileTree

variable {tree other : FileTree} {directory file name : String} {location : Location}

/-- Whether a file can be written in a directory. -/
structure IsFree (tree : FileTree) (directory : String) (location : Location) (file : String) :
    Prop where
  located : tree.locate (Path.join directory file) = some (location ++ [file])
  entry : tree.get? (location ++ [file]) ≠ some .directory

theorem SameDirectories.isFree (h : SameDirectories tree other)
    (hfree : tree.IsFree directory location file) : other.IsFree directory location file :=
  ⟨h.locate_eq _ ▸ hfree.located, fun hentry => hfree.entry ((h _).2 hentry)⟩

/-- Puts the three files of a saved batch. -/
def putArtifacts (tree : FileTree) (location : Location) (name : String)
    (content : Artifact → Bytes) : FileTree :=
  ((tree.put (location ++ [Artifact.binary.fileName name]) (.file (content .binary))).put
    (location ++ [Artifact.json.fileName name]) (.file (content .json))).put
    (location ++ [Artifact.csv.fileName name]) (.file (content .csv))

theorem append_fileName_inj {a b : Artifact} {other : String} (hname : name ≠ "") (hother : other ≠ "")
    (h : location ++ [a.fileName name] = location ++ [b.fileName other]) : a = b ∧ name = other :=
  Artifact.fileName_injective hname hother (by simpa using h)

section PutArtifacts

variable {content : Artifact → Bytes}

/-- Each file holds its own content, as no two of them have one name. -/
theorem get?_putArtifacts (hname : name ≠ "") (artifact : Artifact) :
    (tree.putArtifacts location name content).get? (location ++ [artifact.fileName name])
      = some (.file (content artifact)) := by
  have hne : ∀ {a b : Artifact}, a ≠ b →
      location ++ [a.fileName name] ≠ location ++ [b.fileName name] :=
    fun hab h => hab (append_fileName_inj hname hname h).1
  unfold putArtifacts
  cases artifact with
  | binary => rw [get?_put (by simp), if_neg (hne (by decide)), get?_put (by simp),
      if_neg (hne (by decide)), get?_put (by simp), if_pos rfl]
  | json => rw [get?_put (by simp), if_neg (hne (by decide)), get?_put (by simp), if_pos rfl]
  | csv => rw [get?_put (by simp), if_pos rfl]

theorem get?_putArtifacts_of_ne {place : Location}
    (h : ∀ artifact : Artifact, place ≠ location ++ [artifact.fileName name]) :
    (tree.putArtifacts location name content).get? place = tree.get? place := by
  unfold putArtifacts
  rw [get?_put (by simp), if_neg (h .csv), get?_put (by simp), if_neg (h .json), get?_put (by simp),
    if_neg (h .binary)]

theorem sameDirectories_putArtifacts (hname : name ≠ "")
    (h : ∀ artifact : Artifact, tree.IsFree directory location (artifact.fileName name)) :
    SameDirectories tree (tree.putArtifacts location name content) := by
  intro place
  by_cases hplace : ∃ artifact : Artifact, place = location ++ [artifact.fileName name]
  · obtain ⟨artifact, rfl⟩ := hplace
    simp [get?_putArtifacts hname, (h artifact).entry]
  · rw [get?_putArtifacts_of_ne fun artifact heq => hplace ⟨artifact, heq⟩]

theorem mem_filesBelow_putArtifacts {below : Location} :
    below ∈ (tree.putArtifacts location name content).filesBelow location
      ↔ (∃ artifact : Artifact, below = [artifact.fileName name])
        ∨ below ∈ tree.filesBelow location := by
  have hexists : (∃ artifact : Artifact, below = [artifact.fileName name])
      ↔ below = [Artifact.csv.fileName name] ∨ below = [Artifact.json.fileName name]
        ∨ below = [Artifact.binary.fileName name] := by
    constructor
    · intro h
      obtain ⟨artifact, rfl⟩ := h
      cases artifact <;> simp
    · intro h
      rcases h with h | h | h <;> exact ⟨_, h⟩
  simp only [putArtifacts, mem_filesBelow_put, List.append_cancel_left_eq, hexists, or_assoc]

end PutArtifacts

end FileTree

namespace Archive

variable {tree last : FileTree} {directory file name : String} {location : Location}
  {payload content : Bytes} {batch : Batch} {includeCode : Bool} {saved : Saved}

/-- The names that are accepted: not empty, not blank at an end, and neither dots nor part of a path. -/
theorem checkName_eq_ok_iff :
    checkName name = .ok () ↔ name ≠ "" ∧ Text.trim name = name ∧ '/' ∉ name.toList
      ∧ '\\' ∉ name.toList ∧ name ≠ "." ∧ name ≠ ".." := by
  unfold checkName
  split
  · next hblank =>
    simp only [reduceCtorEq, false_iff]
    intro h
    rcases hblank with hempty | hends
    · exact h.1 (h.2.1.symm.trans hempty)
    · exact hends h.2.1
  · next hblank =>
    simp only [not_or, not_not] at hblank
    have hname : name ≠ "" := fun h => hblank.1 (hblank.2.trans h)
    split
    · next hpath =>
      simp only [reduceCtorEq, false_iff]
      intro h
      obtain ⟨-, -, hslash, hbackslash, hhere, hup⟩ := h
      simp [hslash, hbackslash, hhere, hup] at hpath
    · next hpath =>
      simp only [not_or, List.contains_iff_mem] at hpath
      simp [hname, hblank.2, hpath]

theorem isPlain_of_checkName (h : checkName name = .ok ()) : Path.IsPlain name := by
  obtain ⟨hempty, -, hslash, -, hhere, hup⟩ := checkName_eq_ok_iff.1 h
  exact ⟨hslash, hempty, hhere, hup⟩

/-- What writing a file in a directory can do. -/
theorem write?_join_eq_some_iff (hopens : tree.Opens directory location) (hfile : Path.IsPlain file) :
    tree.write? (Path.join directory file) content = some last
      ↔ tree.IsFree directory location file ∧ last = tree.put (location ++ [file]) (.file content) := by
  have hends : FileTree.endsInDirectory (Path.join directory file) = false :=
    FileTree.endsInDirectory_join hfile
  unfold FileTree.write?
  constructor
  · intro h
    cases hlocate : tree.locate (Path.join directory file) with
    | none => simp [hlocate] at h
    | some place =>
      obtain rfl := hopens.eq_of_locate_join hfile hlocate
      by_cases hentry : tree.get? (location ++ [file]) = some .directory
      · simp [hlocate, hentry] at h
      · simp only [hlocate, hends, hentry, Bool.false_eq_true, or_self, if_false, Option.some.injEq] at h
        exact ⟨⟨hlocate, hentry⟩, h.symm⟩
  · intro h
    obtain ⟨hfree, rfl⟩ := h
    simp [hfree.located, hfree.entry, hends]

/-- What a step that writes a file and goes on can do. -/
theorem andThen_writeFile_eq_ok_iff {α : Type} {second : Disk α} {a : α}
    (hopens : tree.Opens directory location) (hfile : Path.IsPlain file) :
    andThen (writeFile (Path.join directory file) content) (fun _ => second) tree = (.ok a, last)
      ↔ tree.IsFree directory location file
        ∧ second (tree.put (location ++ [file]) (.file content)) = (.ok a, last) := by
  unfold andThen writeFile
  cases hwrite : tree.write? (Path.join directory file) content with
  | none =>
    have hnot : ¬tree.IsFree directory location file := by
      intro hfree
      rw [(write?_join_eq_some_iff hopens hfile).2 ⟨hfree, rfl⟩] at hwrite
      cases hwrite
    simp [hnot]
  | some after =>
    obtain ⟨hfree, rfl⟩ := (write?_join_eq_some_iff hopens hfile).1 hwrite
    simp [hfree]

/-- What saving to a directory that can be made can do. -/
theorem saveAs_eq_ok_iff_of_makes {made : FileTree}
    (hmakes : tree.makeDirectories directory = (true, made)) (hopens : made.Opens directory location) :
    saveAs directory name payload batch includeCode tree = (.ok saved, last)
      ↔ checkName name = .ok ()
        ∧ (∀ artifact : Artifact, made.IsFree directory location (artifact.fileName name))
        ∧ saved = .ofPayload directory name payload
        ∧ last = made.putArtifacts location name (Artifact.content payload batch includeCode) := by
  unfold saveAs
  cases hname : checkName name with
  | error e => simp
  | ok u =>
    have hplain := Artifact.isPlain_fileName (isPlain_of_checkName hname)
    have hmake : makeDirectory directory tree = (.ok (), made) := by simp [makeDirectory, hmakes]
    have hcsv : name ++ ".csv" = Artifact.csv.fileName name := by
      simp [Artifact.fileName, Artifact.extension, String.append_assoc]
    simp only [saveFiles, hcsv, true_and]
    rw [andThen, hmake]
    -- Each file is written to a tree with the same directories, where the others are as free as before.
    constructor
    · intro h
      obtain ⟨hbinary, h⟩ := (andThen_writeFile_eq_ok_iff hopens (hplain .binary)).1 h
      have hfirst := FileTree.sameDirectories_put hbinary.entry payload
      obtain ⟨hjson, h⟩ := (andThen_writeFile_eq_ok_iff (hfirst.opens hopens) (hplain .json)).1 h
      have hsecond := hfirst.trans
        (FileTree.sameDirectories_put hjson.entry (Text.Utf8.encode (Json.encode batch)))
      obtain ⟨hcsv, h⟩ := (andThen_writeFile_eq_ok_iff (hsecond.opens hopens) (hplain .csv)).1 h
      obtain ⟨hsaved, rfl⟩ := Prod.mk.inj h
      refine ⟨fun artifact => ?_, (Except.ok.inj hsaved).symm, rfl⟩
      cases artifact with
      | binary => exact hbinary
      | json => exact hfirst.symm.isFree hjson
      | csv => exact hsecond.symm.isFree hcsv
    · intro h
      obtain ⟨hfree, rfl, rfl⟩ := h
      have hfirst := FileTree.sameDirectories_put (hfree .binary).entry payload
      have hjson := hfirst.isFree (hfree .json)
      have hsecond := hfirst.trans
        (FileTree.sameDirectories_put hjson.entry (Text.Utf8.encode (Json.encode batch)))
      refine (andThen_writeFile_eq_ok_iff hopens (hplain .binary)).2 ⟨hfree .binary, ?_⟩
      refine (andThen_writeFile_eq_ok_iff (hfirst.opens hopens) (hplain .json)).2 ⟨hjson, ?_⟩
      exact (andThen_writeFile_eq_ok_iff (hsecond.opens hopens) (hplain .csv)).2
        ⟨hsecond.isFree (hfree .csv), rfl⟩

/-- What saving to a directory that is there can do. -/
theorem saveAs_eq_ok_iff (hat : tree.IsAt directory location) :
    saveAs directory name payload batch includeCode tree = (.ok saved, last)
      ↔ checkName name = .ok ()
        ∧ (∀ artifact : Artifact, tree.IsFree directory location (artifact.fileName name))
        ∧ saved = .ofPayload directory name payload
        ∧ last = tree.putArtifacts location name (Artifact.content payload batch includeCode) :=
  saveAs_eq_ok_iff_of_makes hat.makeDirectories_eq hat.opens

/-! ### Loading what was saved -/

theorem read?_of_locate {place : Location} (hopens : tree.Opens directory location)
    (hfile : Path.IsPlain file) (hlocate : tree.locate (Path.join directory file) = some place)
    (hheld : tree.get? (location ++ [file]) = some (.file content)) :
    tree.read? (Path.join directory file) = some content := by
  obtain rfl := hopens.eq_of_locate_join hfile hlocate
  simp [FileTree.read?, FileTree.find?, hlocate, hheld, FileTree.endsInDirectory_join hfile]

theorem ofPath?_join (hname : Path.IsPlain name) (artifact : Artifact) :
    Encoding.ofPath? (Path.join directory (artifact.fileName name)) = artifact.encoding? := by
  unfold Encoding.ofPath?
  rw [Path.extension?_join (Artifact.isPlain_fileName hname artifact),
    Artifact.splitExtension_fileName hname.ne_empty]
  show Encoding.ofExtension? artifact.extension = artifact.encoding?
  cases artifact <;> decide

theorem ofEncoded_json (text : String) :
    Batch.ofEncoded .json (Text.Utf8.encode text) = Batch.ofText text := by
  simp [Batch.ofEncoded, Text.Utf8.decode_encode]

end Archive

end AttemptLedger
