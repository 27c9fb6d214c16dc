import AttemptLedger.Proofs.Archive.Discovery
import AttemptLedger.Proofs.Archive.Saving
import AttemptLedger.Proofs.Interchange
import AttemptLedger.Proofs.Text.Order
import Mathlib.Data.List.Sort
import Mathlib.Data.Set.List

/-!
# A directory as a map from names to batches

Whatever is saved into an empty directory, in any order and again under the same names, the directory
then holds the last batch of each name: both encodings are read back as it, discovery lists one binary
file for each name in the order of their bytes, and the table of the directory has the rows of these
batches in that order.
-/

namespace AttemptLedger.Archive

open FileTree (IsAt SameDirectories)

/-- A call that saves a batch or bytes that were received. -/
inductive Call
  | response (name : String) (batch : Batch) (includeCode : Bool)
  | payload (name : String) (bytes : Bytes) (includeCode : Bool)

namespace Call

def name : Call → String
  | response name _ _ => name
  | payload name _ _ => name

def includeCode : Call → Bool
  | response _ _ includeCode => includeCode
  | payload _ _ includeCode => includeCode

def run (directory : String) : Call → Disk Saved
  | response name batch includeCode => save directory name batch includeCode
  | payload name bytes includeCode => savePayload directory name bytes includeCode

/-- The batch that a call stands for, as it is read back. -/
def batch? : Call → Option Batch
  | response _ batch _ => some batch.canonical
  | payload _ bytes _ => (Batch.ofBytes bytes).toOption

/-- Whether a machine word can tell the length of the bytes of the batch that is saved. -/
def Fits : Call → Prop
  | response _ batch _ => (Wire.encode batch).length < 2 ^ 64
  | payload _ _ _ => True

def bytes : Call → Bytes
  | response _ batch _ => Wire.encode batch
  | payload _ bytes _ => bytes

/-- The batch that is saved along with the bytes. -/
def given : Call → Except Error Batch
  | response _ batch _ => .ok batch
  | payload _ bytes _ => Batch.ofBytes bytes

end Call

/-- Runs of calls that all succeed; the log of a run has the latest call first. -/
inductive Run (directory : String) (start : FileTree) : List (Call × Saved) → FileTree → Prop
  | nil : Run directory start [] start
  | cons {log : List (Call × Saved)} {tree last : FileTree} {call : Call} {saved : Saved} :
    Run directory start log tree → call.run directory tree = (.ok saved, last) →
    Run directory start ((call, saved) :: log) last

def latest? (log : List (Call × Saved)) (name : String) : Option (Call × Saved) :=
  log.find? fun entry => entry.1.name == name

def lastBatch? (log : List (Call × Saved)) (name : String) : Option Batch :=
  (latest? log name).bind fun entry => entry.1.batch?

/-! ### One call -/

/-- Whether the files of a call are in a directory as it left them. -/
structure Call.Stored (call : Call) (saved : Saved) (tree : FileTree) (directory : String)
    (location : Location) (batch : Batch) : Prop where
  accepted : checkName call.name = .ok ()
  given : call.given = .ok batch
  digest : saved.sha256 = Digest.hex (Digest.sha256 call.bytes)
  free : ∀ artifact : Artifact, tree.IsFree directory location (artifact.fileName call.name)
  held : ∀ artifact : Artifact, tree.get? (location ++ [artifact.fileName call.name])
    = some (.file (artifact.content call.bytes batch call.includeCode))

section Calls

variable {directory : String} {tree last start : FileTree} {location : Location} {call : Call}
  {saved : Saved} {batch : Batch}

theorem Call.run_eq (call : Call) (directory : String) (tree : FileTree) :
    call.run directory tree = match call.given with
      | .error e => (.error e, tree)
      | .ok batch => saveAs directory call.name call.bytes batch call.includeCode tree := by
  cases call with
  | response name batch includeCode => rfl
  | payload name bytes includeCode => rfl

/-- What a call that succeeds does: its files are put, and are all that is. -/
theorem Call.stored_of_run (hat : tree.IsAt directory location)
    (h : call.run directory tree = (.ok saved, last)) :
    ∃ batch, call.Stored saved last directory location batch ∧ SameDirectories tree last
      ∧ last = tree.putArtifacts location call.name
        (Artifact.content call.bytes batch call.includeCode) := by
  rw [Call.run_eq] at h
  cases hgiven : call.given with
  | error e => simp [hgiven] at h
  | ok batch =>
    rw [hgiven] at h
    obtain ⟨haccepted, hfree, rfl, rfl⟩ := (saveAs_eq_ok_iff hat).1 h
    have hname := (isPlain_of_checkName haccepted).ne_empty
    have hsame : SameDirectories tree (tree.putArtifacts location call.name
        (Artifact.content call.bytes batch call.includeCode)) :=
      FileTree.sameDirectories_putArtifacts hname hfree
    exact ⟨batch, ⟨haccepted, hgiven, rfl, fun artifact => hsame.isFree (hfree artifact),
      FileTree.get?_putArtifacts hname⟩, hsame, rfl⟩

/-- A call succeeds if its name is accepted, there is a batch to save, and its files can be written. -/
theorem Call.exists_run (hat : tree.IsAt directory location) (call : Call)
    (haccepted : checkName call.name = .ok ()) (hgiven : call.given = .ok batch)
    (hfree : ∀ artifact : Artifact, tree.IsFree directory location (artifact.fileName call.name)) :
    ∃ saved last, call.run directory tree = (.ok saved, last) := by
  rw [Call.run_eq, hgiven]
  exact ⟨_, _, (saveAs_eq_ok_iff hat).2 ⟨haccepted, hfree, rfl, rfl⟩⟩

/-- Files of another name are not touched. -/
theorem Call.Stored.putArtifacts (h : call.Stored saved tree directory location batch) {name : String}
    (hname : name ≠ "") (hne : call.name ≠ name) {content : Artifact → Bytes}
    (hsame : SameDirectories tree (tree.putArtifacts location name content)) :
    call.Stored saved (tree.putArtifacts location name content) directory location batch where
  accepted := h.accepted
  given := h.given
  digest := h.digest
  free artifact := hsame.isFree (h.free artifact)
  held artifact := by
    rw [FileTree.get?_putArtifacts_of_ne, h.held]
    intro other heq
    have hcall := (isPlain_of_checkName h.accepted).ne_empty
    exact hne (FileTree.append_fileName_inj hcall hname heq).2

end Calls

/-! ### Runs -/

theorem name_of_latest? {log : List (Call × Saved)} {name : String} {entry : Call × Saved}
    (h : latest? log name = some entry) : entry.1.name = name := by
  simpa using List.find?_some h

theorem exists_latest? {log : List (Call × Saved)} {entry : Call × Saved} (h : entry ∈ log) :
    ∃ other, latest? log entry.1.name = some other :=
  Option.isSome_iff_exists.1 (List.find?_isSome.2 ⟨entry, h, by simp⟩)

/-- What a run has left: the files of the latest call for each name, and no others. -/
structure Reached (directory : String) (location : Location) (start : FileTree)
    (log : List (Call × Saved)) (tree : FileTree) : Prop where
  directories : SameDirectories start tree
  stored : ∀ name call saved, latest? log name = some (call, saved) →
    ∃ batch, call.Stored saved tree directory location batch
  files : ∀ below, below ∈ tree.filesBelow location
    ↔ ∃ entry ∈ log, ∃ artifact : Artifact, below = [artifact.fileName entry.1.name]

section Runs

variable {directory : String} {tree last start : FileTree} {location : Location} {call : Call}
  {saved : Saved} {batch : Batch} {log : List (Call × Saved)}

theorem Reached.step (hat : start.IsAt directory location)
    (h : Reached directory location start log tree) (hrun : call.run directory tree = (.ok saved, last)) :
    Reached directory location start ((call, saved) :: log) last := by
  obtain ⟨batch, hstored, hsame, hlast⟩ := Call.stored_of_run (h.directories.isAt hat) hrun
  have hname := (isPlain_of_checkName hstored.accepted).ne_empty
  refine ⟨h.directories.trans hsame, ?_, ?_⟩
  · intro name other otherSaved hlatest
    -- The call replaces the latest one of its own name and leaves those of other names.
    by_cases heq : call.name = name
    · have hentry : (other, otherSaved) = (call, saved) := by
        simpa [latest?, heq, eq_comm] using hlatest
      obtain ⟨rfl, rfl⟩ := Prod.mk.inj hentry
      exact ⟨batch, hstored⟩
    · have hlatest : latest? log name = some (other, otherSaved) := by
        simpa [latest?, heq] using hlatest
      obtain ⟨otherBatch, hother⟩ := h.stored name other otherSaved hlatest
      have hne : other.name ≠ call.name := by
        rw [name_of_latest? hlatest]
        exact Ne.symm heq
      rw [hlast] at hsame ⊢
      exact ⟨otherBatch, hother.putArtifacts hname hne hsame⟩
  · intro below
    rw [hlast, FileTree.mem_filesBelow_putArtifacts, h.files]
    simp

/-- From a directory without files, every run leaves the files of its log. -/
theorem Run.reached (hat : start.IsAt directory location) (hempty : start.filesBelow location = [])
    (h : Run directory start log tree) : Reached directory location start log tree := by
  induction h with
  | nil => exact ⟨fun _ => Iff.rfl, by simp [latest?], by simp [hempty]⟩
  | cons hrun hcall ih => exact ih.step hat hcall

/-! ### What is read back -/

theorem Call.canonical_of_given (h : call.given = .ok batch) : call.batch? = some batch.canonical := by
  cases call with
  | response name other includeCode =>
    cases h
    rfl
  | payload name bytes includeCode =>
    have hread : Batch.ofBytes bytes = .ok batch := h
    simp [batch?, hread, Batch.canonical_eq_of_ofBytes hread, Except.toOption]

theorem Call.ofBytes_bytes (h : call.given = .ok batch) (hfits : call.Fits) :
    Batch.ofBytes call.bytes = .ok batch.canonical := by
  cases call with
  | response name other includeCode =>
    cases h
    exact Batch.ofBytes_encode hfits
  | payload name bytes includeCode =>
    have hread : Batch.ofBytes bytes = .ok batch := h
    rw [Batch.canonical_eq_of_ofBytes hread]
    exact hread

theorem Call.Stored.read? (h : call.Stored saved tree directory location batch)
    (hat : tree.IsAt directory location) (artifact : Artifact) :
    tree.read? (Path.join directory (artifact.fileName call.name))
      = some (artifact.content call.bytes batch call.includeCode) :=
  read?_of_locate hat.opens
    (Artifact.isPlain_fileName (isPlain_of_checkName h.accepted) artifact) (h.free artifact).located
    (h.held artifact)

theorem Call.Stored.load (h : call.Stored saved tree directory location batch)
    (hat : tree.IsAt directory location) (hfits : call.Fits) :
    load tree (Path.join directory (Artifact.binary.fileName call.name)) = .ok batch.canonical
      ∧ load tree (Path.join directory (Artifact.json.fileName call.name)) = .ok batch.canonical := by
  have hname := isPlain_of_checkName h.accepted
  unfold Archive.load
  rw [ofPath?_join hname, ofPath?_join hname, h.read? hat, h.read? hat]
  constructor
  · exact Call.ofBytes_bytes h.given hfits
  · exact (ofEncoded_json _).trans (Batch.ofText_encode batch)

/-- Saving what was read back of a saved batch writes both encodings as they were. -/
theorem Call.Stored.save_again {name : String} {code : Bool} {given : Batch}
    (h : (Call.response name batch code).Stored saved tree directory location given)
    (hat : tree.IsAt directory location) (includeCode : Bool) :
    ∃ again last, save directory name batch.canonical includeCode tree = (.ok again, last)
      ∧ last.read? (Path.join directory (Artifact.binary.fileName name))
        = tree.read? (Path.join directory (Artifact.binary.fileName name))
      ∧ last.read? (Path.join directory (Artifact.json.fileName name))
        = tree.read? (Path.join directory (Artifact.json.fileName name)) := by
  obtain rfl : batch = given := Except.ok.inj h.given
  obtain ⟨again, last, hrun⟩ := Call.exists_run hat (.response name batch.canonical includeCode)
    h.accepted rfl h.free
  obtain ⟨other, hstored, hsame, -⟩ := Call.stored_of_run hat hrun
  obtain rfl : batch.canonical = other := Except.ok.inj hstored.given
  have hread := hstored.read? (hsame.isAt hat)
  have hbinary : Wire.encode batch.canonical = Wire.encode batch := Wire.encode_canonical batch
  have hjson : Text.Utf8.encode (Json.encode batch.canonical) = Text.Utf8.encode (Json.encode batch) :=
    congrArg Text.Utf8.encode (Json.encode_canonical batch)
  refine ⟨again, last, hrun, ?_, ?_⟩
  · exact (hread .binary).trans ((congrArg some hbinary).trans (h.read? hat .binary).symm)
  · exact (hread .json).trans ((congrArg some hjson).trans (h.read? hat .json).symm)

/-! ### What is discovered -/

theorem mem_filePaths_iff (hat : tree.IsAt directory location)
    (h : Reached directory location start log tree) {path : String} :
    path ∈ filePaths tree directory location ↔ ∃ entry ∈ log, ∃ artifact : Artifact,
      path = Path.join directory (artifact.fileName entry.1.name) := by
  have hmet : ∀ file, isMet directory [file] = true := fun file => hat.isResolvable
  simp only [filePaths, List.mem_map, List.mem_filter, h.files]
  constructor
  · intro hpath
    obtain ⟨below, ⟨⟨entry, hentry, artifact, rfl⟩, -⟩, rfl⟩ := hpath
    exact ⟨entry, hentry, artifact, rfl⟩
  · intro hpath
    obtain ⟨entry, hentry, artifact, rfl⟩ := hpath
    exact ⟨_, ⟨⟨entry, hentry, artifact, rfl⟩, hmet _⟩, rfl⟩

def binaryFind (directory name : String) : Find :=
  ⟨Path.join directory (Artifact.binary.fileName name), .binary⟩

theorem binaryFind_injective (directory : String) : Function.Injective (binaryFind directory) := by
  intro a b h
  have hfile := Path.join_injective (congrArg Find.path h)
  simpa [Artifact.fileName] using hfile

/-- Whether some paths are those of the files of some names. -/
structure AreArtifacts (directory : String) (paths : List String) (saved : String → Prop) : Prop where
  plain : ∀ name, saved name → Path.IsPlain name
  mem_iff : ∀ path, path ∈ paths ↔ ∃ name, saved name ∧ ∃ artifact : Artifact,
    path = Path.join directory (artifact.fileName name)

section Artifacts

variable {paths : List String} {saved : String → Prop} {name : String}

theorem AreArtifacts.stem_eq (h : AreArtifacts directory paths saved) (hname : saved name)
    (artifact : Artifact) :
    Path.stem (Path.join directory (artifact.fileName name))
      = Path.components directory ++ [.name name] := by
  have hplain := h.plain name hname
  rw [Path.stem_join (Artifact.isPlain_fileName hplain artifact),
    Artifact.stemOfName_fileName hplain]

theorem AreArtifacts.exists_standsFor (h : AreArtifacts directory paths saved) (hname : saved name) :
    ∃ other ∈ Find.select paths, other.StandsFor (binaryFind directory name) := by
  have hpath := (h.mem_iff _).2 ⟨name, hname, .binary, rfl⟩
  have hof : Encoding.ofPath? (Path.join directory (Artifact.binary.fileName name)) = some .binary :=
    ofPath?_join (h.plain name hname) .binary
  exact (Find.selects_select paths).covers _
    (List.mem_filterMap.2 ⟨_, hpath, Find.ofPath?_eq_some_iff.2 ⟨rfl, hof⟩⟩)

theorem AreArtifacts.exists_eq_binaryFind (h : AreArtifacts directory paths saved) {found : Find}
    (hfound : found ∈ Find.select paths) :
    ∃ name, saved name ∧ binaryFind directory name = found := by
  have hselects := Find.selects_select paths
  obtain ⟨path, hpath, hof⟩ := List.mem_filterMap.1 (hselects.subset found hfound)
  obtain ⟨rfl, hencoding⟩ := Find.ofPath?_eq_some_iff.1 hof
  obtain ⟨name, hname, artifact, hfile⟩ := (h.mem_iff _).1 hpath
  obtain ⟨other, hother, hstands⟩ := h.exists_standsFor hname
  -- The binary file of that name has the same stem, so it is what is kept here.
  have hsame : found = other := by
    refine hselects.eq_of_stem_eq hfound hother ?_
    rw [hstands.1, Find.stem, Find.stem, hfile, h.stem_eq hname, binaryFind,
      h.stem_eq hname]
  have hbinary : found.encoding = .binary := by
    rw [hsame]
    exact hstands.2 rfl
  rw [hfile, ofPath?_join (h.plain name hname), hbinary] at hencoding
  refine ⟨name, hname, ?_⟩
  cases artifact with
  | binary => exact congr (congrArg Find.mk hfile.symm) hbinary.symm
  | json => cases hencoding
  | csv => cases hencoding

/-- Of the files of some names, the binary ones are selected, in the order of the names. -/
theorem AreArtifacts.select_eq (h : AreArtifacts directory paths saved) :
    ∃ names : List String, names.Pairwise (· < ·) ∧ (∀ name, name ∈ names ↔ saved name)
      ∧ Find.select paths = names.map (binaryFind directory) := by
  have hinjective := binaryFind_injective directory
  obtain ⟨names, heq⟩ : Find.select paths ∈ Set.range (List.map (binaryFind directory)) := by
    rw [Set.range_list_map]
    intro found hfound
    obtain ⟨name, -, hname⟩ := h.exists_eq_binaryFind hfound
    exact ⟨name, hname⟩
  have hnames : ∀ name, name ∈ names ↔ saved name := by
    intro name
    constructor
    · intro hmem
      obtain ⟨other, hother, hfind⟩ :=
        h.exists_eq_binaryFind (heq ▸ List.mem_map_of_mem hmem)
      exact hinjective hfind ▸ hother
    · intro hname
      obtain ⟨found, hfound, hstands⟩ := h.exists_standsFor hname
      obtain ⟨other, hother, rfl⟩ := h.exists_eq_binaryFind hfound
      have hstems := hstands.1
      rw [Find.stem, Find.stem, binaryFind, binaryFind, h.stem_eq hother,
        h.stem_eq hname] at hstems
      have hsame : other = name := by simpa using hstems
      rw [← heq, hsame] at hfound
      exact (List.mem_map_of_injective hinjective).1 hfound
  refine ⟨names, ?_, hnames, heq.symm⟩
  have hascending := (Find.selects_select paths).ascending
  rw [← heq, List.pairwise_map] at hascending
  refine hascending.imp_of_mem fun {a b} ha hb hlt => ?_
  rw [Find.stem, Find.stem, binaryFind, binaryFind, h.stem_eq ((hnames a).1 ha),
    h.stem_eq ((hnames b).1 hb), Path.append_lt_append_iff] at hlt
  simpa [List.cons_lt_cons_iff] using hlt

end Artifacts

theorem loadTables_eq_ok {names : List String} {path : String → String}
    (h : ∀ name ∈ names, ∃ batch, lastBatch? log name = some batch ∧ load tree (path name) = .ok batch) :
    loadTables tree (names.map path)
      = .ok ((names.filterMap (lastBatch? log)).map Table.ofBatch) := by
  induction names with
  | nil => rfl
  | cons name names ih =>
    obtain ⟨hname, hnames⟩ := List.forall_mem_cons.1 h
    obtain ⟨batch, hlast, hload⟩ := hname
    simp [loadTables, loadTable, hload, hlast, ih hnames, Except.map]

theorem Reached.stored_of_mem (h : Reached directory location start log tree)
    {entry : Call × Saved} (hentry : entry ∈ log) :
    ∃ call saved batch, latest? log entry.1.name = some (call, saved) ∧ (call, saved) ∈ log
      ∧ call.name = entry.1.name ∧ call.Stored saved tree directory location batch := by
  obtain ⟨⟨call, saved⟩, hlatest⟩ := exists_latest? hentry
  obtain ⟨batch, hstored⟩ := h.stored _ _ _ hlatest
  exact ⟨call, saved, batch, hlatest, List.mem_of_find?_eq_some hlatest, name_of_latest? hlatest,
    hstored⟩

theorem lastBatch?_eq {name : String} (hlatest : latest? log name = some (call, saved))
    (hstored : call.Stored saved tree directory location batch) :
    lastBatch? log name = some batch.canonical := by
  simp [lastBatch?, hlatest, Call.canonical_of_given hstored.given]

/-- Discovery lists the binary files of the names that were saved. -/
theorem Reached.discover (h : Reached directory location start log tree)
    (hat : tree.IsAt directory location) :
    ∃ names : List String, names.Pairwise (· < ·)
      ∧ (∀ name, name ∈ names ↔ ∃ entry ∈ log, entry.1.name = name)
      ∧ discover tree directory
        = .ok (names.map fun name => Path.join directory (Artifact.binary.fileName name)) := by
  have hartifacts : AreArtifacts directory (filePaths tree directory location)
      fun name => ∃ entry ∈ log, entry.1.name = name := by
    constructor
    · intro name hname
      obtain ⟨entry, hentry, rfl⟩ := hname
      obtain ⟨call, saved, batch, -, -, hname, hstored⟩ := h.stored_of_mem hentry
      exact hname ▸ isPlain_of_checkName hstored.accepted
    · intro path
      rw [mem_filePaths_iff hat h]
      simp
  obtain ⟨names, hordered, hnames, hselect⟩ := hartifacts.select_eq
  refine ⟨names, hordered, hnames, discover_eq_ok_iff.2 ⟨location, hat.located, hat.entry, ?_⟩⟩
  rw [hselect, List.map_map]
  rfl

end Runs

/-- A directory without files is a map from names to batches after any run of calls into it. -/
theorem Run.maps_names {directory : String} {location : Location} {start tree : FileTree}
    {log : List (Call × Saved)} (hat : start.IsAt directory location)
    (hempty : start.filesBelow location = []) (hrun : Run directory start log tree)
    (hfits : ∀ entry ∈ log, entry.1.Fits) :
    (∀ name call saved, latest? log name = some (call, saved) →
        ∃ batch content, lastBatch? log name = some batch
          ∧ load tree (Path.join directory (name ++ ".bin")) = .ok batch
          ∧ load tree (Path.join directory (name ++ ".json")) = .ok batch
          ∧ tree.read? (Path.join directory (name ++ ".bin")) = some content
          ∧ saved.sha256 = Digest.hex (Digest.sha256 content))
      ∧ (∃ names : List String,
        names.Pairwise (fun a b => Text.Utf8.encode a < Text.Utf8.encode b)
          ∧ (∀ name, name ∈ names ↔ ∃ entry ∈ log, entry.1.name = name)
          ∧ discover tree directory
            = .ok (names.map fun name => Path.join directory (name ++ ".bin"))
          ∧ loadDirectory tree directory
            = .ok ⟨(names.filterMap (lastBatch? log)).flatMap fun batch => (Table.ofBatch batch).rows⟩)
      ∧ ∀ name batch code saved loaded, latest? log name = some (.response name batch code, saved) →
        load tree (Path.join directory (name ++ ".bin")) = .ok loaded → ∀ includeCode,
        ∃ again last, save directory name loaded includeCode tree = (.ok again, last)
          ∧ last.read? (Path.join directory (name ++ ".bin"))
            = tree.read? (Path.join directory (name ++ ".bin"))
          ∧ last.read? (Path.join directory (name ++ ".json"))
            = tree.read? (Path.join directory (name ++ ".json")) := by
  have hreached := hrun.reached hat hempty
  have hat := hreached.directories.isAt hat
  have hbinary : ∀ name, name ++ ".bin" = Artifact.binary.fileName name := by
    simp [Artifact.fileName, Artifact.extension, Encoding.extension, String.append_assoc]
  have hjson : ∀ name, name ++ ".json" = Artifact.json.fileName name := by
    simp [Artifact.fileName, Artifact.extension, Encoding.extension, String.append_assoc]
  simp only [hbinary, hjson]
  refine ⟨?_, ?_, ?_⟩
  · intro name call saved hlatest
    obtain ⟨batch, hstored⟩ := hreached.stored _ _ _ hlatest
    obtain rfl := name_of_latest? hlatest
    have hload := hstored.load hat (hfits _ (List.mem_of_find?_eq_some hlatest))
    refine ⟨batch.canonical, call.bytes, ?_, hload.1, hload.2, hstored.read? hat .binary,
      hstored.digest⟩
    exact lastBatch?_eq hlatest hstored
  · obtain ⟨names, hordered, hnames, hdiscover⟩ := hreached.discover hat
    refine ⟨names, hordered.imp Text.Utf8.encode_lt_encode.2, hnames, hdiscover, ?_⟩
    rw [loadDirectory, hdiscover]
    dsimp only
    rw [loadTables_eq_ok]
    · rw [Except.map, Table.concat, List.flatMap_map]
    · intro name hname
      obtain ⟨entry, hentry, rfl⟩ := (hnames name).1 hname
      obtain ⟨call, saved, batch, hlatest, hmem, hcall, hstored⟩ := hreached.stored_of_mem hentry
      refine ⟨batch.canonical, ?_, hcall ▸ (hstored.load hat (hfits _ hmem)).1⟩
      exact lastBatch?_eq hlatest hstored
  · intro name batch code saved loaded hlatest hloaded includeCode
    obtain ⟨given, hstored⟩ := hreached.stored _ _ _ hlatest
    have hload := hstored.load hat (hfits _ (List.mem_of_find?_eq_some hlatest))
    obtain rfl : batch = given := Except.ok.inj hstored.given
    obtain rfl : loaded = batch.canonical := Except.ok.inj (hloaded.symm.trans hload.1)
    exact hstored.save_again hat includeCode

/-- The name `run` is saved twice, with bytes saved under `run.bin` in between. -/
theorem Run.maps_names_dotted :
    let first : Batch := ⟨[⟨{ id := "a" }, []⟩]⟩
    let second : Batch := ⟨[⟨{ id := "b" }, [⟨[{ tests := .unit [] }], .empty⟩]⟩]⟩
    let start : FileTree := ⟨[(["d"], .directory)], by decide⟩
    ∃ log tree, start.IsAt "d" ["d"] ∧ start.filesBelow ["d"] = [] ∧ Run "d" start log tree
      ∧ (∀ entry ∈ log, entry.1.Fits)
      ∧ log.map (·.1) = [.response "run" second true, .payload "run.bin" [0x78, 0x01] false,
        .response "run" first false]
      ∧ load tree "d/run.bin" = .ok second.canonical
      ∧ load tree "d/run.json" = .ok second.canonical
      ∧ load tree "d/run.bin.bin" = .ok ⟨[]⟩
      ∧ discover tree "d" = .ok [Path.join "d" "run.bin", Path.join "d" "run.bin.bin"]
      ∧ loadDirectory tree "d" = .ok ⟨[.ofAttempt { id := "b" } false {}]⟩
      ∧ ∃ again last, save "d" "run" second.canonical false tree = (.ok again, last)
        ∧ last.read? "d/run.bin" = tree.read? "d/run.bin" := by
  intro first second start
  have hat : start.IsAt "d" ["d"] := ⟨by decide +kernel, by decide +kernel⟩
  have hempty : start.filesBelow ["d"] = [] := by
    rw [FileTree.filesBelow, FileTree.walk_of_pairwise (by decide +kernel)]
    rfl
  have hrunFree : ∀ artifact : Artifact, start.IsFree "d" ["d"] (artifact.fileName "run") := by
    intro artifact
    cases artifact <;> exact ⟨by decide +kernel, by decide +kernel⟩
  have hbinFree : ∀ artifact : Artifact, start.IsFree "d" ["d"] (artifact.fileName "run.bin") := by
    intro artifact
    cases artifact <;> exact ⟨by decide +kernel, by decide +kernel⟩
  have hrunName : checkName "run" = .ok () := checkName_eq_ok_iff.2 (by decide +kernel)
  have hbinName : checkName "run.bin" = .ok () := checkName_eq_ok_iff.2 (by decide +kernel)
  have hread : Batch.ofBytes [0x78, 0x01] = .ok ⟨[]⟩ := Batch.ofBytes_eq_ok_iff.2 (by decide +kernel)
  obtain ⟨saved₁, tree₁, h₁⟩ :=
    Call.exists_run hat (.response "run" first false) hrunName rfl hrunFree
  obtain ⟨-, -, hsame₁, -⟩ := Call.stored_of_run hat h₁
  have hat₁ := hsame₁.isAt hat
  obtain ⟨saved₂, tree₂, h₂⟩ := Call.exists_run hat₁ (.payload "run.bin" [0x78, 0x01] false)
    hbinName hread fun artifact => hsame₁.isFree (hbinFree artifact)
  obtain ⟨-, -, hsame₂, -⟩ := Call.stored_of_run hat₁ h₂
  have hsame := hsame₁.trans hsame₂
  obtain ⟨saved₃, tree₃, h₃⟩ := Call.exists_run (hsame.isAt hat) (.response "run" second true)
    hrunName rfl fun artifact => hsame.isFree (hrunFree artifact)
  have hrun : Run "d" start _ tree₃ := ((Run.nil.cons h₁).cons h₂).cons h₃
  have hfits : ∀ entry ∈ [(Call.response "run" second true, saved₃),
      (.payload "run.bin" [0x78, 0x01] false, saved₂), (.response "run" first false, saved₁)],
      entry.1.Fits := by
    have hfirst : (Wire.encode first).length < 2 ^ 64 := by decide +kernel
    have hsecond : (Wire.encode second).length < 2 ^ 64 := by decide +kernel
    simp only [List.forall_mem_cons, Call.Fits]
    exact ⟨hsecond, trivial, hfirst, List.forall_mem_nil _⟩
  obtain ⟨hloads, ⟨names, hordered, hnames, hdiscover, hrows⟩, hagain⟩ :=
    Run.maps_names hat hempty hrun hfits
  obtain ⟨batch, -, hbatch, hbinary, hjson, -, -⟩ := hloads "run" _ _ rfl
  obtain ⟨other, -, hother, hotherBinary, -⟩ := hloads "run.bin" _ _ rfl
  obtain rfl : second.canonical = batch := Option.some.inj hbatch
  have hkept : (Batch.ofBytes [0x78, 0x01]).toOption = some ⟨[]⟩ := congrArg Except.toOption hread
  obtain rfl : ⟨[]⟩ = other := Option.some.inj (hkept.symm.trans hother)
  obtain ⟨again, last, hsave, hsaved, -⟩ := hagain "run" _ _ _ _ rfl hbinary false
  have hsaid : ∀ name, name ∈ names ↔ name = "run" ∨ name = "run.bin" := by
    intro name
    simp only [hnames, Call.name, List.exists_mem_cons_iff, List.not_mem_nil, false_and, exists_false,
      eq_comm]
    tauto
  obtain rfl : names = ["run", "run.bin"] :=
    (hordered.imp Text.Utf8.encode_lt_encode.1).eq_of_mem_iff (by decide +kernel) (by simpa using hsaid)
  rw [List.filterMap_cons_some hbatch, List.filterMap_cons_some hother] at hrows
  exact ⟨_, tree₃, hat, hempty, hrun, hfits, rfl, hbinary, hjson, hotherBinary, hdiscover, hrows, again,
    last, hsave, hsaved⟩

end AttemptLedger.Archive
