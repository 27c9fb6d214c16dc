import AttemptLedger.Csv

/-!
# Reading comma separated values

A reader in the manner of RFC 4180, one character at a time: fields end at a comma, records at a line
feed, and inside quotes only a quote that is not doubled means anything. Records that were printed are
read back as they are, whatever text their fields hold.
-/

namespace AttemptLedger.Csv

/-- Where in a field the reader stands; behind a quote inside quotes it is `closed`, unless another one
follows. -/
inductive Place
  | start
  | plain
  | quoted
  | closed
  deriving DecidableEq

/-- What was read so far: the last field, the fields in front of it, and the records before. -/
structure Reader where
  place : Place := .start
  field : List Char := []
  fields : List String := []
  records : List (List String) := []

namespace Reader

def push (reader : Reader) (place : Place) (c : Char) : Option Reader :=
  some { reader with place := place, field := reader.field ++ [c] }

/-- Ends the field at a comma and the record at a line feed. -/
def stop? (reader : Reader) (c : Char) : Option Reader :=
  let fields := reader.fields ++ [String.ofList reader.field]
  if c = ',' then some { fields := fields, records := reader.records }
  else if c = '\n' then some { records := reader.records ++ [fields] }
  else none

/-- Takes a character in. A field without quotes holds neither a quote nor a carriage return, and
nothing but its end stands behind a field in quotes. -/
def step (reader : Reader) (c : Char) : Option Reader :=
  match reader.place with
  | .start =>
    if c = '"' then some { reader with place := .quoted }
    else if c = '\r' then none
    else (reader.stop? c).or (reader.push .plain c)
  | .plain => if c = '"' ∨ c = '\r' then none else (reader.stop? c).or (reader.push .plain c)
  | .quoted => if c = '"' then some { reader with place := .closed } else reader.push .quoted c
  | .closed => if c = '"' then reader.push .quoted c else reader.stop? c

/-- The records of a text, which has to end with a record. -/
def finish (reader : Reader) : Option (List (List String)) :=
  if reader.place = .start ∧ reader.fields = [] then some reader.records else none

end Reader

def read (text : String) : Option (List (List String)) :=
  (text.toList.foldlM Reader.step {}).bind Reader.finish

/-! ### Printed records -/

namespace Reader

variable {fields : List String} {records : List (List String)} {place : Place} {cs : List Char}

theorem foldlM_plain (front : List Char) (h : needsQuotes cs = false) (hplace : place = .start ∨ place = .plain) :
    ∃ last, last ≠ .quoted
      ∧ cs.foldlM step ⟨place, front, fields, records⟩ = some ⟨last, front ++ cs, fields, records⟩ := by
  induction cs generalizing place front with
  | nil =>
    refine ⟨place, ?_, by simp⟩
    rintro rfl
    rcases hplace with hplace | hplace <;> cases hplace
  | cons c cs ih =>
    obtain ⟨hc, hcs⟩ : (c ≠ ',' ∧ c ≠ '"' ∧ c ≠ '\n' ∧ c ≠ '\r') ∧ needsQuotes cs = false := by
      simpa [needsQuotes, and_assoc] using h
    obtain ⟨last, hlast, hread⟩ := ih (front ++ [c]) hcs (.inr rfl)
    refine ⟨last, hlast, ?_⟩
    have hstep : step ⟨place, front, fields, records⟩ c = some ⟨.plain, front ++ [c], fields, records⟩ := by
      rcases hplace with rfl | rfl <;> simp [step, stop?, push, hc]
    rw [List.foldlM_cons, hstep, List.append_cons front c cs]
    exact hread

theorem foldlM_quoted (front : List Char) :
    (cs.flatMap quotedChar).foldlM step ⟨.quoted, front, fields, records⟩
      = some ⟨.quoted, front ++ cs, fields, records⟩ := by
  induction cs generalizing front with
  | nil => simp
  | cons c cs ih =>
    have hc : (quotedChar c).foldlM step ⟨.quoted, front, fields, records⟩
        = some ⟨.quoted, front ++ [c], fields, records⟩ := by
      unfold quotedChar
      split
      · next hquote => simp [step, push, hquote]
      · next hquote => simp [step, push, hquote]
    rw [List.flatMap_cons, List.foldlM_append, hc, List.append_cons front c cs]
    exact ih (front ++ [c])

/-- A printed field is the last field then, and may end. -/
theorem foldlM_field (cs : List Char) :
    ∃ last, last ≠ .quoted ∧ (Csv.field cs).foldlM step ⟨.start, [], fields, records⟩
      = some ⟨last, cs, fields, records⟩ := by
  unfold Csv.field
  split
  · have hopen : step ⟨.start, [], fields, records⟩ '"' = some ⟨.quoted, [], fields, records⟩ := rfl
    have hclose : step ⟨.quoted, cs, fields, records⟩ '"' = some ⟨.closed, cs, fields, records⟩ := rfl
    refine ⟨.closed, nofun, ?_⟩
    rw [List.cons_append, List.foldlM_cons, hopen, Option.bind_eq_bind, Option.bind_some,
      List.foldlM_append, foldlM_quoted, List.nil_append, Option.bind_eq_bind, Option.bind_some,
      List.foldlM_cons, hclose]
    rfl
  · next hplain => exact foldlM_plain [] (by simpa using hplain) (.inl rfl)

theorem step_comma (h : place ≠ .quoted) :
    step ⟨place, cs, fields, records⟩ ',' = some ⟨.start, [], fields ++ [String.ofList cs], records⟩ := by
  cases place with
  | quoted => exact absurd rfl h
  | _ => simp [step, stop?]

theorem step_newLine (h : place ≠ .quoted) :
    step ⟨place, cs, fields, records⟩ '\n'
      = some ⟨.start, [], [], records ++ [fields ++ [String.ofList cs]]⟩ := by
  cases place with
  | quoted => exact absurd rfl h
  | _ => simp [step, stop?]

/-- A printed record is read to its end behind the fields that were there. -/
theorem foldlM_record {record : List String} (h : record ≠ []) :
    (Csv.record record).foldlM step ⟨.start, [], fields, records⟩
      = some ⟨.start, [], [], records ++ [fields ++ record]⟩ := by
  induction record generalizing fields with
  | nil => exact absurd rfl h
  | cons first rest ih =>
    obtain ⟨place, hplace, hfield⟩ := @foldlM_field fields records first.toList
    cases rest with
    | nil =>
      rw [Csv.record, List.foldlM_append, hfield, Option.bind_eq_bind, Option.bind_some,
        List.foldlM_cons, step_newLine hplace, String.ofList_toList]
      rfl
    | cons second rest =>
      rw [Csv.record, List.foldlM_append, hfield, Option.bind_eq_bind, Option.bind_some,
        List.foldlM_cons, step_comma hplace, Option.bind_eq_bind, Option.bind_some,
        ih (List.cons_ne_nil _ _), String.ofList_toList, List.append_assoc, List.singleton_append]
      nofun

theorem foldlM_records {more : List (List String)} (h : ∀ record ∈ more, record ≠ []) :
    (more.flatMap Csv.record).foldlM step { records := records } = some { records := records ++ more } := by
  induction more generalizing records with
  | nil => simp
  | cons record more ih =>
    obtain ⟨hrecord, hmore⟩ := List.forall_mem_cons.1 h
    rw [List.flatMap_cons, List.foldlM_append, foldlM_record hrecord, Option.bind_eq_bind,
      Option.bind_some, List.nil_append, ih hmore, List.append_assoc, List.singleton_append]

end Reader

theorem read_print {records : List (List String)} (h : ∀ record ∈ records, record ≠ []) :
    read (print records) = some records := by
  rw [read, print, String.toList_ofList, Reader.foldlM_records h]
  rfl

theorem writeAll_of_length {width : Nat} {records : List (List String)}
    (h : ∀ record ∈ records, record.length = width) :
    writeAll (some width) records = some (records.flatMap record) := by
  induction records with
  | nil => rfl
  | cons fields records ih =>
    obtain ⟨hfields, hrecords⟩ := List.forall_mem_cons.1 h
    rw [writeAll, Option.getD_some, if_pos hfields.symm, hfields, ih hrecords, Option.map_some,
      List.flatMap_cons]

/-- Records that are as long as the first one are written. -/
theorem write?_cons {first : List String} {records : List (List String)}
    (h : ∀ record ∈ records, record.length = first.length) :
    write? (first :: records) = some (print (first :: records)) := by
  rw [write?, writeAll, Option.getD_none, if_pos rfl, writeAll_of_length h, Option.map_some,
    Option.map_some, print, List.flatMap_cons]

end AttemptLedger.Csv
