import AttemptLedger.Proofs.Wire.Truncation

/-!
# What is sent to an engine

Nothing here reads a submission as a whole, but its bytes can be read record by record: its id, if there
is one, and then one message for each request. So nothing is lost, and no two submissions are
written alike.
-/

namespace AttemptLedger.Wire

/-- What a cursor reads, a tag and then bytes time after time, until it is left as the last one: the field
number and the body of every record. -/
inductive Cursor.Yields : Cursor → List (Nat × Bytes) → Cursor → Prop
  | done (c : Cursor) : Yields c [] c
  | record {c next after last : Cursor} {number : Nat} {body : Bytes} {records : List (Nat × Bytes)} :
      c.readTag = (.ok ⟨number, .delimited⟩, next) → next.readBytes = (.ok body, after) →
      Yields after records last → Yields c ((number, body) :: records) last

theorem Cursor.exists_fault_of_atEnd {c : Cursor} (h : c.atEnd = true) :
    ∃ fault next, c.readTag = (.error fault, next) := by
  obtain ⟨size, rest⟩ := c
  cases rest with
  | nil => exact ⟨.varintCutShort, ⟨size, []⟩, rfl⟩
  | cons b rest => cases h

/-- Up to the end there is one way to read. -/
theorem Cursor.Yields.unique {c last other : Cursor} {as bs : List (Nat × Bytes)} (ha : Yields c as last)
    (hb : Yields c bs other) (hlast : last.atEnd = true) (hother : other.atEnd = true) : as = bs := by
  -- A cursor at its end reads no tag, so neither way of reading can stop before the other.
  induction ha generalizing bs with
  | done c =>
    cases hb with
    | done => rfl
    | record htag _ _ =>
      obtain ⟨fault, next, hfault⟩ := exists_fault_of_atEnd hlast
      rw [hfault] at htag
      cases htag
  | record htag hbody _ ih =>
    cases hb with
    | done =>
      obtain ⟨fault, next, hfault⟩ := exists_fault_of_atEnd hother
      rw [hfault] at htag
      cases htag
    | record htag' hbody' hrest =>
      rw [htag] at htag'
      cases htag'
      rw [hbody] at hbody'
      cases hbody'
      rw [ih hrest hlast]

def delimitedRecord (record : Nat × Bytes) : Record := ⟨⟨record.1, .delimited⟩, .bytes record.2⟩

/-- Where a byte string can be cut into records of bytes, these are what is read. -/
theorem yields_of_records {bytes : Bytes} {records : List (Nat × Bytes)}
    (h : Records bytes (records.map delimitedRecord)) (size : Nat) :
    Cursor.Yields ⟨size, bytes⟩ records ⟨size, []⟩ := by
  induction records generalizing bytes with
  | nil =>
    cases h
    exact .done _
  | cons record records ih =>
    obtain ⟨number, content⟩ := record
    rcases h.cases_readRecord with ⟨-, hnil⟩ | ⟨first, rest, tail, hsame, htail, hread⟩
    · cases hnil
    · cases hsame
      obtain ⟨lead, body, hlead, htag, hfield, hpayload, -, hbytes, -⟩ :=
        Schema.readRecord_eq_ok_iff.1 hread
      cases hpayload with
      | @delimited length _ hlength hcount =>
        have hnext : (⟨size, bytes⟩ : Cursor).readTag
            = (.ok ⟨number, .delimited⟩, ⟨size, length ++ content ++ rest⟩) :=
          Cursor.readTag_eq_ok_iff.2 ⟨lead, hlead, htag, hfield, hbytes, rfl⟩
        have hafter : (⟨size, length ++ content ++ rest⟩ : Cursor).readBytes
            = (.ok content, ⟨size, rest⟩) :=
          Cursor.readBytes_eq_ok_iff.2 ⟨length, hlength, hcount, rfl, rfl⟩
        exact .record hnext hafter (ih htail)

/-! ### The records of a submission -/

def idBodies (submission : Submission) : List Bytes :=
  if submission.id = "" then [] else [Text.Utf8.encode submission.id]

theorem encodeSubmission_eq (submission : Submission) :
    encodeSubmission submission
      = (idBodies submission).flatMap (delimited 1)
        ++ (submission.requests.map requestBytes).flatMap (delimited 2) := by
  rw [encodeSubmission, textField, idBodies, List.flatMap_map]
  split
  · rfl
  · rw [List.flatMap_singleton]

theorem yields_encodeSubmission {submission : Submission}
    (h : (encodeSubmission submission).length < 2 ^ 64) :
    Cursor.Yields (.ofBytes (encodeSubmission submission))
      ((idBodies submission).map (1, ·) ++ (submission.requests.map requestBytes).map (2, ·))
      ⟨(encodeSubmission submission).length, []⟩ := by
  refine yields_of_records ?_ _
  rw [encodeSubmission_eq, List.length_append] at h
  rw [encodeSubmission_eq, List.map_append, List.map_map, List.map_map]
  exact (records_flatMap_delimited (by decide) (by omega)).append
    (records_flatMap_delimited (by decide) (by omega))

theorem map_textOfBytes_idBodies (submission : Submission) :
    (idBodies submission).map textOfBytes = if submission.id = "" then [] else [.ok submission.id] := by
  rw [idBodies]
  split
  · rfl
  · rw [List.map_singleton, textOfBytes_encode]

theorem map_readRequest_requestBytes {submission : Submission}
    (h : (encodeSubmission submission).length < 2 ^ 64) :
    (submission.requests.map requestBytes).map readRequest = submission.requests.map .ok := by
  rw [encodeSubmission_eq, List.length_append] at h
  rw [List.map_map]
  refine List.map_congr_left fun request hrequest => readRequest_bytes ?_
  have hmem : requestBytes request ∈ submission.requests.map requestBytes :=
    List.mem_map_of_mem hrequest
  have hbody := @length_le_of_mem_bodies 2 _ _ hmem
  omega

/-- The bodies of the records of a field. -/
def bodiesOf (number : Nat) (records : List (Nat × Bytes)) : List Bytes :=
  (records.filter (·.1 == number)).map (·.2)

theorem bodiesOf_one (ids bodies : List Bytes) :
    bodiesOf 1 (ids.map (1, ·) ++ bodies.map (2, ·)) = ids := by
  simp [bodiesOf, Function.comp_def, List.filter_eq_self.2, List.filter_eq_nil_iff.2]

theorem bodiesOf_two (ids bodies : List Bytes) :
    bodiesOf 2 (ids.map (1, ·) ++ bodies.map (2, ·)) = bodies := by
  simp [bodiesOf, Function.comp_def, List.filter_eq_self.2, List.filter_eq_nil_iff.2]

/-- Both the id and the requests can be told from the records. -/
theorem encodeSubmission_inj {first second : Submission} (h : (encodeSubmission first).length < 2 ^ 64)
    (hsame : encodeSubmission first = encodeSubmission second) : first = second := by
  have hfirst := yields_encodeSubmission h
  rw [hsame] at hfirst h
  have hrecords := hfirst.unique (yields_encodeSubmission h) rfl rfl
  have hids := congrArg (List.map textOfBytes ∘ bodiesOf 1) hrecords
  have hrequests := congrArg (List.map readRequest ∘ bodiesOf 2) hrecords
  rw [Function.comp_apply, Function.comp_apply, bodiesOf_one, bodiesOf_one, map_textOfBytes_idBodies,
    map_textOfBytes_idBodies] at hids
  rw [Function.comp_apply, Function.comp_apply, bodiesOf_two, bodiesOf_two,
    map_readRequest_requestBytes (by rwa [hsame]), map_readRequest_requestBytes h] at hrequests
  have hid : first.id = second.id := by
    by_cases hempty : first.id = "" <;> by_cases hempty' : second.id = "" <;> simp_all
  have hbodies : first.requests = second.requests :=
    (List.map_inj_right fun _ _ => Except.ok.inj).1 hrequests
  cases first
  cases second
  cases hid
  cases hbodies
  rfl

/-- The bytes of a submission are read to their end as its id, in a record of field 1 unless it is
empty, and one record of field 2 for each request in order, from whose body the request is read
again. So they are the bytes of no other submission. A machine word has to be able to tell their
length. -/
theorem reads_of_encodeSubmission (submission : Submission)
    (h : (encodeSubmission submission).length < 2 ^ 64) :
    (∃ (ids bodies : List Bytes) (last : Cursor),
        Cursor.Yields (.ofBytes (encodeSubmission submission))
          (ids.map (1, ·) ++ bodies.map (2, ·)) last
        ∧ last.atEnd = true
        ∧ ids.map textOfBytes = (if submission.id = "" then [] else [.ok submission.id])
        ∧ bodies.map readRequest = submission.requests.map .ok)
      ∧ ∀ other, encodeSubmission other = encodeSubmission submission → other = submission := by
  refine ⟨⟨_, _, _, yields_encodeSubmission h, rfl, map_textOfBytes_idBodies submission,
    map_readRequest_requestBytes h⟩, fun other hsame => ?_⟩
  exact encodeSubmission_inj (by rwa [hsame]) hsame

/-- A submission without an id whose first request is empty. -/
theorem reads_of_encodeSubmission_unnamed :
    let submission : Submission := { requests := [{}, { id := "r", seedCode := "\"ß\"" }] }
    (encodeSubmission submission).length < 2 ^ 64
      ∧ (∃ (bodies : List Bytes) (last : Cursor),
        Cursor.Yields (.ofBytes (encodeSubmission submission)) (bodies.map (2, ·)) last
        ∧ last.atEnd = true ∧ bodies.map readRequest = submission.requests.map .ok)
      ∧ ∀ other, encodeSubmission other = encodeSubmission submission → other = submission := by
  intro submission
  have hlength : (encodeSubmission submission).length < 2 ^ 64 := by decide +kernel
  obtain ⟨⟨ids, bodies, last, hyields, hlast, hids, hbodies⟩, hother⟩ :=
    reads_of_encodeSubmission submission hlength
  cases List.map_eq_nil_iff.1 hids
  exact ⟨hlength, ⟨bodies, last, hyields, hlast, hbodies⟩, hother⟩

end AttemptLedger.Wire
