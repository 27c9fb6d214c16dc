import AttemptLedger.Proofs.Wire.RoundTrip

/-!
# Byte strings of batches that were cut short

The bytes of a batch are one record for each response. What is left of them when they are cut off
somewhere can only be cut into records again if the cut fell between two of these, and then it is the
bytes of the responses in front of the cut.
-/

namespace AttemptLedger

/-- The batch of the first responses. -/
def Batch.first (batch : Batch) (count : Nat) : Batch := ⟨batch.responses.take count⟩

namespace Wire

theorem Records.append_inv {a b : Bytes} {as cs : List Record} (ha : Records a as)
    (h : Records (a ++ b) cs) : ∃ bs, Records b bs ∧ cs = as ++ bs := by
  -- The first record of the whole is the first one of `a`, since a record is found by reading.
  induction ha generalizing cs with
  | nil => exact ⟨cs, h, rfl⟩
  | @cons lead body rest payload tail hlead hfield hbody _ ih =>
    have hassoc : lead ++ (body ++ rest) ++ b = lead ++ (body ++ (rest ++ b)) := by
      simp only [List.append_assoc]
    rw [hassoc] at h
    have hfirst : Schema.readRecord (fun _ => none : Schema Unit)
        (.ofBytes (lead ++ (body ++ (rest ++ b))))
        = .ok (⟨.ofWord (word lead), payload⟩, ⟨_, rest ++ b⟩) :=
      Schema.readRecord_eq_ok_iff.2 ⟨lead, body, hlead, rfl, hfield, hbody, rfl, rfl, rfl⟩
    rcases h.cases_readRecord with ⟨hnil, _⟩ | ⟨record, after, others, rfl, hothers, hread⟩
    · rw [hnil] at hfirst
      cases hfirst
    · rw [hfirst] at hread
      cases hread
      obtain ⟨bs, hbs, rfl⟩ := ih hothers
      exact ⟨bs, hbs, rfl⟩

theorem Records.eq_nil {bytes : Bytes} (h : Records bytes []) : bytes = [] := by
  cases h
  rfl

theorem Records.append_eq_nil {a b : Bytes} {records : List Record} (ha : Records a records)
    (h : Records (a ++ b) records) : b = [] := by
  obtain ⟨bs, hbs, heq⟩ := ha.append_inv h
  have hempty : bs = [] := by simpa using heq
  rw [hempty] at hbs
  exact hbs.eq_nil

/-- Of two beginnings of a byte string that are cut into the same records, neither is longer. -/
theorem Records.eq_of_append_eq {a b x y : Bytes} {records : List Record} (ha : Records a records)
    (hb : Records b records) (h : a ++ x = b ++ y) : a = b := by
  rcases List.append_eq_append_iff.1 h with ⟨more, rfl, _⟩ | ⟨more, rfl, _⟩
  · rw [ha.append_eq_nil hb, List.append_nil]
  · rw [hb.append_eq_nil ha, List.append_nil]

/-! ### The records of a batch -/

def responseRecord (response : Response) : Record :=
  ⟨⟨1, .delimited⟩, .bytes (responseBytes response)⟩

theorem records_delimited {number : Nat} {body : Bytes} (hnumber : 0 < number ∧ number < 2 ^ 29)
    (h : body.length < 2 ^ 64) :
    Records (delimited number body) [⟨⟨number, .delimited⟩, .bytes body⟩] := by
  obtain ⟨hvarint, hword⟩ := isVarint_varintBytes h
  have hcount : (word (varintBytes body.length)).toNat = body.length := by
    rw [hword]
    exact UInt64.toNat_ofNat_of_lt' h
  obtain ⟨htag, hlead⟩ := tagBytes_spec (Nat.lt_trans hnumber.2 (by decide)) .delimited
  have hrecord := Records.cons htag (by rw [hlead]; exact Nat.ne_of_gt hnumber.1)
    (by rw [hlead]; exact .delimited hvarint hcount) .nil
  rw [hlead, List.append_nil, ← List.append_assoc] at hrecord
  exact hrecord

theorem length_le_delimited (number : Nat) (body : Bytes) :
    body.length ≤ (delimited number body).length := by
  simp only [delimited, List.length_append]
  omega

theorem length_le_of_mem_bodies {number : Nat} {body : Bytes} {bodies : List Bytes}
    (h : body ∈ bodies) : body.length ≤ (bodies.flatMap (delimited number)).length := by
  have hsublist := List.sublist_flatten_of_mem (List.mem_map_of_mem (f := delimited number) h)
  rw [List.flatMap_def]
  exact Nat.le_trans (length_le_delimited number body) hsublist.length_le

theorem records_flatMap_delimited {number : Nat} {bodies : List Bytes}
    (hnumber : 0 < number ∧ number < 2 ^ 29) (h : (bodies.flatMap (delimited number)).length < 2 ^ 64) :
    Records (bodies.flatMap (delimited number))
      (bodies.map fun body => ⟨⟨number, .delimited⟩, .bytes body⟩) := by
  induction bodies with
  | nil => exact .nil
  | cons body bodies ih =>
    have hbody := length_le_delimited number body
    rw [List.flatMap_cons, List.length_append] at h
    exact (records_delimited hnumber (by omega)).append (ih (by omega))

theorem records_encode {batch : Batch} (h : (encode batch).length < 2 ^ 64) :
    Records (encode batch) (batch.responses.map responseRecord) := by
  have hencode : encode batch = (batch.responses.map responseBytes).flatMap (delimited 1) := by
    rw [encode, List.flatMap_map]
  rw [hencode] at h ⊢
  have hrecords := records_flatMap_delimited (by decide) h
  rw [List.map_map] at hrecords
  exact hrecords

theorem encode_first_append (batch : Batch) (count : Nat) :
    encode (batch.first count) ++ encode ⟨batch.responses.drop count⟩ = encode batch := by
  simp only [encode, Batch.first]
  rw [← List.flatMap_append, List.take_append_drop]

theorem length_encode_first_le (batch : Batch) (count : Nat) :
    (encode (batch.first count)).length ≤ (encode batch).length := by
  rw [← encode_first_append batch count, List.length_append]
  omega

/-- Bytes of a batch that were cut off and are still a sequence of records are the bytes of its first
responses. -/
theorem take_encode_of_records {batch : Batch} (h : (encode batch).length < 2 ^ 64) {n : Nat}
    {records : List Record} (hrecords : Records ((encode batch).take n) records) :
    (encode batch).take n = encode (batch.first records.length) := by
  have hall : Records ((encode batch).take n ++ (encode batch).drop n)
      (batch.responses.map responseRecord) := by
    rw [List.take_append_drop]
    exact records_encode h
  obtain ⟨others, _, hsplit⟩ := hrecords.append_inv hall
  have hfirst : records = (batch.first records.length).responses.map responseRecord := by
    have htake := congrArg (List.take records.length) hsplit
    rw [List.take_left, ← List.map_take] at htake
    exact htake.symm
  have hlength := length_encode_first_le batch records.length
  have hencoded : Records (encode (batch.first records.length)) records := by
    have hcut := records_encode (show (encode (batch.first records.length)).length < 2 ^ 64 by omega)
    rwa [← hfirst] at hcut
  have hparts : (encode batch).take n ++ (encode batch).drop n
      = encode (batch.first records.length) ++ encode ⟨batch.responses.drop records.length⟩ := by
    rw [List.take_append_drop, encode_first_append]
  exact hrecords.eq_of_append_eq hencoded hparts

theorem take_encode_first (batch : Batch) (count : Nat) :
    (encode batch).take (encode (batch.first count)).length = encode (batch.first count) := by
  conv => lhs; rw [← encode_first_append batch count]
  exact List.take_left

theorem exists_first_of_decode {batch other : Batch} (h : (encode batch).length < 2 ^ 64) {n : Nat}
    (hn : n ≤ (encode batch).length) (hread : decode ((encode batch).take n) = .ok other) :
    ∃ count, n = (encode (batch.first count)).length := by
  obtain ⟨records, hrecords, _, _⟩ := Schema.read_eq_ok_iff.1 hread
  refine ⟨records.length, ?_⟩
  rw [← take_encode_of_records h hrecords, List.length_take]
  omega

theorem decode_take_first {batch : Batch} (h : (encode batch).length < 2 ^ 64) (count : Nat) :
    decode ((encode batch).take (encode (batch.first count)).length)
      = .ok (batch.first count).canonical := by
  have hlength := length_encode_first_le batch count
  rw [take_encode_first]
  exact decode_bytes (by omega)

end Wire

end AttemptLedger
