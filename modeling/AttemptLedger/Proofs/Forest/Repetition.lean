import AttemptLedger.Proofs.Forest.Success

/-!
# Repeated attempts

Chains that share their first attempts list these more than once, and a saved batch may be loaded twice.
A row that repeats an attempt of an earlier row under the same parent is good as soon as its status is
known, and inserting it leaves the forest as it is. So rows with any number of such repetitions have the
tree they had without them, and rows behind themselves have the tree, or the fault, that they have alone.
-/

namespace AttemptLedger

namespace Row

variable {rows before after more : List Row} {row first : Row}

theorem Attached.mono (h : row.Attached before) (hsubset : before ⊆ rows) : row.Attached rows := by
  rcases h with hroot | ⟨other, hother, hid⟩
  · exact Or.inl hroot
  · exact Or.inr ⟨other, hsubset hother, hid⟩

namespace AllGood

theorem attached (h : AllGood rows) (hrow : row ∈ rows) : row.Attached rows := by
  obtain ⟨i, hi, rfl⟩ := List.mem_iff_getElem.1 hrow
  exact (h i hi).attached.mono (List.take_subset i rows)

theorem recognized (h : AllGood rows) (hrow : row ∈ rows) : row.status.isRecognized = true := by
  obtain ⟨i, hi, rfl⟩ := List.mem_iff_getElem.1 hrow
  exact (h i hi).recognized

/-- A row that repeats the attempt and the parent of a good one needs a known status only. -/
theorem good_of_repeated (h : AllGood rows) (hfirst : first ∈ rows) (hid : first.id = row.id)
    (hparent : first.parentId = row.parentId) (hstatus : row.status.isRecognized = true) :
    row.Good rows where
  attached := by
    have hattached := h.attached hfirst
    rwa [Attached, hparent] at hattached
  recognized := hstatus
  agrees met hmet := by
    have hmetid : met.id = row.id := by simpa using List.find?_some hmet
    have hmem : met ∈ firstRows rows := by rwa [mem_firstRows_iff, hmetid]
    exact (h.parentId_eq hfirst hmem (hmetid.trans hid.symm)).trans hparent

end AllGood

/-- One row more, behind a row of its attempt: it names the same parent and has a known status, and may
differ from that row in all else. -/
inductive AddsRepetition : List Row → List Row → Prop
  | insert {before after : List Row} {first row : Row} : first ∈ before → first.id = row.id →
      first.parentId = row.parentId → row.status.isRecognized = true →
      AddsRepetition (before ++ after) (before ++ row :: after)

theorem addsRepetitions_append (h : AllGood rows) (hmore : more ⊆ rows) :
    Relation.ReflTransGen AddsRepetition rows (rows ++ more) := by
  induction more using List.reverseRecOn with
  | nil => rw [List.append_nil]
  | append_singleton more row ih =>
    obtain ⟨hmore, hrow⟩ := List.append_subset.1 hmore
    have hmem : row ∈ rows := hrow (List.mem_singleton_self row)
    have hadds : AddsRepetition (rows ++ more ++ []) (rows ++ more ++ [row]) :=
      .insert (List.mem_append_left more hmem) rfl rfl (h.recognized hmem)
    rw [List.append_nil, List.append_assoc] at hadds
    exact (ih hmore).tail hadds

end Row

namespace Forest

variable {forest : Forest} {earlier before after rows : List Row} {row first : Row}

/-- A good row whose attempt was met before leaves the forest as it is. -/
theorem Tracks.insert_repeated (h : forest.Tracks earlier) (hgood : row.Good earlier)
    (hmet : ∃ other ∈ earlier, other.id = row.id) : forest.insert row = .ok forest := by
  obtain ⟨next, hnext, _⟩ := h.insert_good hgood
  obtain ⟨_, _, _, _, ⟨_, rfl⟩ | ⟨hnone, _⟩⟩ := insert_eq_ok_cases hnext
  · exact hnext
  · obtain ⟨other, hother, hid⟩ := hmet
    exact absurd hid (h.branch?_eq_none_iff.1 hnone other hother)

theorem insertAll_repeated (hstart : forest.Tracks []) (hbefore : Row.AllGood before)
    (hgood : row.Good before) (hmet : ∃ other ∈ before, other.id = row.id) :
    forest.insertAll (before ++ row :: after) = forest.insertAll (before ++ after) := by
  obtain ⟨middle, hmiddle, htracks⟩ := exists_insertAll hbefore hstart
  rw [insertAll_append hmiddle, insertAll_append hmiddle, insertAll,
    htracks.insert_repeated hgood hmet]

end Forest

namespace Tree

variable {rows more : List Row} {tree : Tree}

theorem allGood_of_ofRows_eq_ok (h : ofRows rows = .ok tree) : Row.AllGood rows := by
  cases rows with
  | nil => exact fun i hi => absurd hi (Nat.not_lt_zero i)
  | cons row rows =>
    obtain ⟨forest, _, rfl⟩ := map_eq_ok_iff.1 h
    exact allGood_of_ofRows h

theorem ofRows_of_addsRepetition (h : Row.AddsRepetition rows more) (hrows : ofRows rows = .ok tree) :
    ofRows more = .ok tree := by
  obtain @⟨before, after, first, row, hfirst, hid, hparent, hstatus⟩ := h
  have hbefore : Row.AllGood before := (allGood_of_ofRows_eq_ok hrows).left
  obtain ⟨start, htracks, hstart⟩ := exists_start (List.ne_nil_of_mem hfirst)
  have hgood := hbefore.good_of_repeated hfirst hid hparent hstatus
  rw [hstart, Forest.insertAll_repeated htracks hbefore hgood ⟨first, hfirst, hid⟩, ← hstart]
  exact hrows

theorem ofRows_of_addsRepetitions (h : Relation.ReflTransGen Row.AddsRepetition rows more)
    (hrows : ofRows rows = .ok tree) : ofRows more = .ok tree := by
  induction h with
  | refl => exact hrows
  | tail _ hadds ih => exact ofRows_of_addsRepetition hadds ih

theorem ofRows_append_of_error {error : Error} (h : ofRows rows = .error error) (more : List Row) :
    ofRows (rows ++ more) = .error error := by
  have hne : rows ≠ [] := by
    rintro rfl
    cases h
  obtain ⟨start, _, hstart⟩ := exists_start hne
  have hrows := hstart []
  rw [List.append_nil, h] at hrows
  rw [hstart, Forest.insertAll_append_eq_bind]
  cases hinsert : start.insertAll rows with
  | error fault =>
    rw [hinsert] at hrows
    cases hrows
    rfl
  | ok forest =>
    rw [hinsert] at hrows
    cases hrows

end Tree

/-- Rows that repeat attempts are absorbed: rows that assemble have the same tree, and so the same
snapshot, nodes and children, with any number of repetitions among them. Any rows behind themselves come
to what they come to alone, be it a tree or a fault. -/
theorem Tree.ofRows_absorbs_repetitions :
    (∀ rows more tree, Tree.ofRows rows = .ok tree →
        Relation.ReflTransGen Row.AddsRepetition rows more → Tree.ofRows more = .ok tree)
      ∧ ∀ rows, Tree.ofRows (rows ++ rows) = Tree.ofRows rows := by
  refine ⟨fun rows more tree hrows hadds => ofRows_of_addsRepetitions hadds hrows, fun rows => ?_⟩
  cases hrows : ofRows rows with
  | error error => exact ofRows_append_of_error hrows rows
  | ok tree =>
    have hgood := allGood_of_ofRows_eq_ok hrows
    exact ofRows_of_addsRepetitions (Row.addsRepetitions_append hgood (List.Subset.refl rows)) hrows

/-- A chain with an attempt that has the root's id, the same rows with two repetitions that differ from the
rows they repeat in status and language, and rows that have a fault. -/
theorem Tree.ofRows_absorbs_repetitions_chain :
    let row (id parentId : Int64) (language : String) (status : Status) : Row :=
      ⟨"C", "Rust", "r", "C", language, 0, id, parentId, status, false, false, "", "", []⟩
    let rows := [row 7 (-1) "Go" .translated, row (-1) 7 "Rust" .found, row 3 7 "Java" .failed]
    let more := [row 7 (-1) "Go" .translated, row 7 (-1) "C" .found, row (-1) 7 "Rust" .found,
      row 3 7 "Java" .failed, row (-1) 7 "Go" .pending]
    let faulty := [row 7 (-1) "Go" .translated, row 3 2 "Go" .failed]
    ∃ forest, Tree.ofRows rows = .ok (.forest forest)
      ∧ Relation.ReflTransGen Row.AddsRepetition rows more
      ∧ Tree.ofRows more = .ok (.forest forest)
      ∧ forest.snapshot.edges = [(-1, 7), (7, -1), (7, 3)]
      ∧ Tree.ofRows (rows ++ rows) = .ok (.forest forest)
      ∧ Tree.ofRows (faulty ++ faulty) = .error (.danglingParent 3 2) := by
  intro row rows more faulty
  have hlast : Row.AddsRepetition rows (rows ++ [row (-1) 7 "Go" .pending]) :=
    @Row.AddsRepetition.insert rows [] (row (-1) 7 "Rust" .found) _ (by decide) rfl rfl rfl
  have hsecond : Row.AddsRepetition (rows ++ [row (-1) 7 "Go" .pending]) more :=
    @Row.AddsRepetition.insert [row 7 (-1) "Go" .translated] _ (row 7 (-1) "Go" .translated)
      (row 7 (-1) "C" .found) (by decide) rfl rfl rfl
  have hadds : Relation.ReflTransGen Row.AddsRepetition rows more := .tail (.single hlast) hsecond
  obtain ⟨habsorbs, htwice⟩ := ofRows_absorbs_repetitions
  exact ⟨_, rfl, hadds, habsorbs rows more _ rfl hadds, by decide, htwice rows, htwice faulty⟩

end AttemptLedger
