import AttemptLedger.Proofs.Json.Canonicity
import AttemptLedger.Proofs.Json.Leniency

/-!
# Records of documents that are read

A document that is read was taken in down to its innermost records. Each of them, where it is an object,
names no field twice, under whichever of its keys, and names all fields that are required. So a document
in which some record does otherwise is refused, whatever else it says.
-/

namespace AttemptLedger.Json

/-- Whether the member goes by a key of the field. -/
def IsFor (name : String) (member : Member) : Prop := ∃ key ∈ keys name, member.1 = some key

instance (name : String) (member : Member) : Decidable (IsFor name member) :=
  inferInstanceAs (Decidable (∃ key ∈ keys name, member.1 = some key))

/-- How often an object names a field. -/
def timesNamed (name : String) (members : List Member) : Nat :=
  members.countP fun member => IsFor name member

theorem timesNamed_cons (name : String) (member : Member) (members : List Member) :
    timesNamed name (member :: members)
      = timesNamed name members + if IsFor name member then 1 else 0 := by
  simp only [timesNamed, List.countP_cons, decide_eq_true_eq]

section

variable {σ α : Type} {schema : Schema σ} {field other : Field σ} {room : Nat} {member : Member}
  {members : List Member} {seen met : List String} {s t start : σ}

namespace Schema

theorem eq_of_name_eq (hlawful : schema.Lawful) (hfield : field ∈ schema.fields)
    (hother : other ∈ schema.fields) (hname : field.name = other.name) : field = other := by
  have hkey : field.name ∈ keys field.name := List.mem_cons_self ..
  have hfound := field?_of_mem_keys hlawful hfield hkey
  rw [field?_of_mem_keys hlawful hother (hname ▸ hkey)] at hfound
  exact (Option.some.inj hfound).symm

theorem not_isFor_of_passes (hlawful : schema.Lawful) (hfield : field ∈ schema.fields)
    (h : schema.Passes member) : ¬IsFor field.name member := by
  rintro ⟨key, hkey, hmember⟩
  obtain ⟨_, hsame, hnone, _⟩ := h
  rw [hmember] at hsame
  cases hsame
  rw [field?_of_mem_keys hlawful hfield hkey] at hnone
  cases hnone

theorem isFor_iff_of_puts (hlawful : schema.Lawful) (hfield : field ∈ schema.fields) {change : σ → σ}
    (h : schema.Puts room member other change) : IsFor field.name member ↔ field = other := by
  obtain ⟨key, hkey, hfound, _⟩ := h
  constructor
  · rintro ⟨named, hnamed, hmember⟩
    rw [hkey] at hmember
    cases hmember
    rw [field?_of_mem_keys hlawful hfield hnamed] at hfound
    exact Option.some.inj hfound
  · rintro rfl
    have hgoes := List.find?_some hfound
    exact ⟨key, (goesBy_iff hlawful hfield key).1 hgoes, hkey⟩

/-- The run over the members: a field is met as often as it is named, and at most once. -/
theorem timesNamed_of_takeMembers (hlawful : schema.Lawful) (hfield : field ∈ schema.fields)
    (h : schema.takeMembers room members seen s = .ok (met, t)) :
    timesNamed field.name members + (if field.name ∈ seen then 1 else 0)
      = if field.name ∈ met then 1 else 0 := by
  induction members generalizing seen s with
  | nil =>
    cases h
    exact Nat.zero_add _
  | cons member members ih =>
    rcases takeMembers_cons_cases h with hpasses | ⟨other, change, hputs, hnew⟩
    · rw [takeMembers_of_passes hpasses] at h
      rw [timesNamed_cons, if_neg (not_isFor_of_passes hlawful hfield hpasses)]
      exact ih h
    · rw [takeMembers_of_puts hputs hnew] at h
      have hrest := ih h
      have hmember := isFor_iff_of_puts hlawful hfield hputs
      by_cases hsame : field = other
      · subst hsame
        rw [if_pos (List.mem_cons_self ..)] at hrest
        rw [timesNamed_cons, if_pos (hmember.2 rfl), if_neg hnew]
        exact hrest
      · have hname : field.name ≠ other.name := by
          obtain ⟨_, _, hfound, _⟩ := hputs
          exact fun hname => hsame (eq_of_name_eq hlawful hfield (mem_of_field? hfound) hname)
        have hseen : field.name ∈ other.name :: seen ↔ field.name ∈ seen := by
          rw [List.mem_cons, or_iff_right hname]
        simp only [hseen] at hrest
        rw [timesNamed_cons, if_neg (mt hmember.1 hsame)]
        exact hrest

theorem take_of_takeMembers_of_isFor (hlawful : schema.Lawful) (hfield : field ∈ schema.fields)
    (h : schema.takeMembers room members seen s = .ok (met, t)) (hmember : member ∈ members)
    (hfor : IsFor field.name member) : ∃ change, field.take room member.2 = .ok change := by
  induction members generalizing seen s with
  | nil => cases hmember
  | cons first members ih =>
    rcases takeMembers_cons_cases h with hpasses | ⟨other, change, hputs, hnew⟩
    · rw [takeMembers_of_passes hpasses] at h
      rcases List.mem_cons.1 hmember with rfl | hmember
      · exact absurd hfor (not_isFor_of_passes hlawful hfield hpasses)
      · exact ih h hmember
    · rw [takeMembers_of_puts hputs hnew] at h
      rcases List.mem_cons.1 hmember with rfl | hmember
      · cases (isFor_iff_of_puts hlawful hfield hputs).1 hfor
        obtain ⟨_, _, _, htake⟩ := hputs
        exact ⟨change, htake⟩
      · exact ih h hmember

theorem take_of_takeItems {index place : Nat} {closed : Bool} {fields : List (Field σ)}
    {items : List Value} {value : Value} (h : schema.takeItems room closed index fields items s = .ok t)
    (hfield : fields[place]? = some field) (hvalue : items[place]? = some value) :
    ∃ change, field.take room value = .ok change := by
  -- The items are taken in by the fields in front of them, one after the other.
  induction place generalizing index fields items s with
  | zero =>
    cases fields with
    | nil => cases hfield
    | cons first fields =>
      cases items with
      | nil => cases hvalue
      | cons item items =>
        cases hfield
        cases hvalue
        rw [takeItems] at h
        split at h
        · cases h
        · next change htake => exact ⟨change, htake⟩
  | succ place ih =>
    cases fields with
    | nil => cases hfield
    | cons first fields =>
      cases items with
      | nil => cases hvalue
      | cons item items =>
        rw [takeItems] at h
        split at h
        · cases h
        · exact ih h hfield hvalue

/-- What is known of an object that is taken in: no field is named twice, required fields are named, and
the values that it names are taken in. -/
theorem named_of_take {closed : Bool} (hlawful : schema.Lawful) (hfield : field ∈ schema.fields)
    (h : schema.take start room (.object members closed) = .ok t) :
    timesNamed field.name members ≤ 1
      ∧ (field.required = true → 0 < timesNamed field.name members)
      ∧ ∀ member ∈ members, IsFor field.name member →
        ∃ change, field.take (room - 1) member.2 = .ok change := by
  rw [take] at h
  split at h
  · cases h
  · split at h
    · cases h
    · next met last hmembers =>
      have htimes := timesNamed_of_takeMembers hlawful hfield hmembers
      rw [if_neg List.not_mem_nil, Nat.add_zero] at htimes
      refine ⟨?_, ?_, fun member hmember hfor =>
        take_of_takeMembers_of_isFor hlawful hfield hmembers hmember hfor⟩
      · rw [htimes]
        split <;> decide
      · intro hrequired
        split at h
        · cases h
        · split at h
          · cases h
          · next hmissing =>
            have hmet : field.name ∈ met := by
              simpa [hrequired] using List.find?_eq_none.1 hmissing field hfield
            rw [htimes, if_pos hmet]
            exact Nat.one_pos

end Schema

/-! ### Values at the fields of a record -/

/-- The value stands at the field, which an object names and an array has in its place. -/
inductive AtField (names : List String) (name : String) (value : Value) : Value → Prop
  | named {member : Member} {members : List Member} {closed : Bool} : member ∈ members →
      IsFor name member → member.2 = value → AtField names name value (.object members closed)
  | placed {place : Nat} {items : List Value} {closed : Bool} : names[place]? = some name →
      items[place]? = some value → AtField names name value (.array items closed)

/-- Whether the value is taken in as a record somewhere. -/
def Schema.Takes (schema : Schema σ) (value : Value) : Prop :=
  ∃ start room t, schema.take start room value = .ok t

theorem Schema.take_of_atField (hlawful : schema.Lawful) (hfield : field ∈ schema.fields)
    {record value : Value} (h : schema.Takes record)
    (hat : AtField (schema.fields.map Field.name) field.name value record) :
    ∃ room change, field.take room value = .ok change := by
  obtain ⟨start, room, t, htake⟩ := h
  cases hat with
  | named hmember hfor hvalue =>
    subst hvalue
    exact ⟨room - 1, (named_of_take hlawful hfield htake).2.2 _ hmember hfor⟩
  | @placed place items closed hname hvalue =>
    rw [List.getElem?_map] at hname
    obtain ⟨other, hother, hsame⟩ := Option.map_eq_some_iff.1 hname
    cases eq_of_name_eq hlawful (List.mem_of_getElem? hother) hfield hsame
    rw [take] at htake
    split at htake
    · cases htake
    · exact ⟨room - 1, take_of_takeItems htake hother hvalue⟩

/-- The items of a list of records are taken in with the record that has the list. -/
theorem Schema.takes_of_listField {outer : Schema α} {name : String} {otherName : Option String}
    {put : List σ → α → α} (hlawful : outer.Lawful)
    (hfield : listField name otherName (schema.take start) put ∈ outer.fields) {record : Value}
    {items : List Value} {closed : Bool} (h : outer.Takes record)
    (hat : AtField (outer.fields.map Field.name) name (.array items closed) record) :
    ∀ item ∈ items, schema.Takes item := by
  obtain ⟨room, change, htake⟩ := take_of_atField hlawful hfield h hat
  obtain ⟨drafts, htake, _⟩ := map_eq_ok_iff.1 htake
  rw [Take.orDefault, Take.list] at htake
  · split at htake
    · cases htake
    · split at htake
      · cases htake
      · next hitems =>
        intro item hitem
        obtain ⟨t, ht⟩ := exists_of_mapM hitems item hitem
        exact ⟨start, room - 1, t, ht⟩
  · intro hnull
    cases hnull

theorem Schema.timesNamed_le_one (hlawful : schema.Lawful) {closed : Bool}
    (h : schema.Takes (.object members closed)) :
    ∀ name ∈ schema.fields.map Field.name, timesNamed name members ≤ 1 := by
  obtain ⟨start, room, t, htake⟩ := h
  exact List.forall_mem_map.2 fun field hfield => (named_of_take hlawful hfield htake).1

/-- An integer that is required may not be null. -/
theorem integer_null_ne_ok {name : String} {otherName : Option String} {put : Int64 → σ → σ}
    (room : Nat) (change : σ → σ) :
    (Field.require (.of name otherName .integer put)).take room .null ≠ .ok change := by
  intro htake
  have hread : (Take.integer room .null).map put = .ok change := htake
  simp [Take.integer, Value.isUsable, Except.map] at hread

theorem Schema.exists_named (hlawful : schema.Lawful) (hfield : field ∈ schema.fields)
    (hrequired : field.required = true) (hnull : ∀ room change, field.take room .null ≠ .ok change)
    {closed : Bool} (h : schema.Takes (.object members closed)) :
    ∃ member ∈ members, IsFor field.name member ∧ member.2 ≠ .null := by
  obtain ⟨start, room, t, htake⟩ := h
  obtain ⟨_, hnamed, hvalues⟩ := named_of_take hlawful hfield htake
  obtain ⟨member, hmember, hfor⟩ := List.countP_pos_iff.1 (hnamed hrequired)
  have hfor : IsFor field.name member := of_decide_eq_true hfor
  refine ⟨member, hmember, hfor, fun hvalue => ?_⟩
  obtain ⟨change, hchange⟩ := hvalues member hmember hfor
  rw [hvalue] at hchange
  exact hnull _ change hchange

end

/-! ### The records of a document -/

inductive Kind
  | batch
  | response
  | request
  | chain
  | attempt
  | fuzzyTest
  | unitTest

namespace Kind

def names : Kind → List String
  | .batch => batchSchema.fields.map Field.name
  | .response => responseSchema.fields.map Field.name
  | .request => requestSchema.fields.map Field.name
  | .chain => chainSchema.fields.map Field.name
  | .attempt => attemptSchema.fields.map Field.name
  | .fuzzyTest => fuzzyTestSchema.fields.map Field.name
  | .unitTest => unitTestSchema.fields.map Field.name

/-- The fields that a record cannot do without. -/
def required : Kind → List String
  | .response => ["translation_request"]
  | .attempt => ["edge_id", "parent_edge_id"]
  | _ => []

/-- The fields that hold lists of records, and the records in them. -/
def lists : Kind → List (String × Kind)
  | .batch => [("translation_responses", .response)]
  | .response => [("paths", .chain)]
  | .chain => [("translation_edges", .attempt)]
  | .attempt => [("fuzzy_tests", .fuzzyTest), ("unit_tests", .unitTest)]
  | _ => []

def Takes : Kind → Value → Prop
  | .batch => batchSchema.Takes
  | .response => responseSchema.Takes
  | .request => requestSchema.Takes
  | .chain => chainSchema.Takes
  | .attempt => attemptSchema.Takes
  | .fuzzyTest => fuzzyTestSchema.Takes
  | .unitTest => unitTestSchema.Takes

end Kind

/-- The values that stand where a document has its records. -/
inductive RecordIn (document : Value) : Kind → Value → Prop
  | batch : RecordIn document .batch document
  | request {response value : Value} : RecordIn document .response response →
      AtField Kind.response.names "translation_request" value response →
      RecordIn document .request value
  | item {kind inner : Kind} {record value : Value} {name : String} {items : List Value}
      {closed : Bool} : RecordIn document kind record → (name, inner) ∈ kind.lists →
      AtField kind.names name (.array items closed) record → value ∈ items →
      RecordIn document inner value

namespace Kind

variable {kind : Kind} {document : Value} {members : List Member} {closed : Bool}

theorem takes_of_recordIn (hdocument : batch.Takes document) {value : Value}
    (h : RecordIn document kind value) : kind.Takes value := by
  induction h with
  | batch => exact hdocument
  | request _ hat ih =>
    obtain ⟨room, change, htake⟩ :=
      Schema.take_of_atField responseSchema_lawful (List.mem_cons_self ..) ih hat
    obtain ⟨request, hrequest, _⟩ := map_eq_ok_iff.1 htake
    exact ⟨{}, room, request, hrequest⟩
  | @item kind inner record value name items closed _ hlist hat hvalue ih =>
    cases kind with
    | batch =>
      obtain ⟨rfl, rfl⟩ := Prod.mk.inj (List.mem_singleton.1 hlist)
      exact Schema.takes_of_listField batchSchema_lawful (List.mem_cons_self ..) ih hat value hvalue
    | response =>
      obtain ⟨rfl, rfl⟩ := Prod.mk.inj (List.mem_singleton.1 hlist)
      exact Schema.takes_of_listField responseSchema_lawful
        (List.mem_cons_of_mem _ (List.mem_cons_self ..)) ih hat value hvalue
    | chain =>
      obtain ⟨rfl, rfl⟩ := Prod.mk.inj (List.mem_singleton.1 hlist)
      exact Schema.takes_of_listField chainSchema_lawful (List.mem_cons_self ..) ih hat value hvalue
    | attempt =>
      rcases List.mem_pair.1 hlist with hlist | hlist
      · obtain ⟨rfl, rfl⟩ := Prod.mk.inj hlist
        exact Schema.takes_of_listField attemptSchema_lawful
          (List.mem_of_getElem? (i := 8) rfl) ih hat value hvalue
      · obtain ⟨rfl, rfl⟩ := Prod.mk.inj hlist
        exact Schema.takes_of_listField attemptSchema_lawful
          (List.mem_of_getElem? (i := 9) rfl) ih hat value hvalue
    | _ => cases hlist

theorem timesNamed_le_one (h : kind.Takes (.object members closed)) :
    ∀ name ∈ kind.names, timesNamed name members ≤ 1 := by
  cases kind with
  | batch => exact Schema.timesNamed_le_one batchSchema_lawful h
  | response => exact Schema.timesNamed_le_one responseSchema_lawful h
  | request => exact Schema.timesNamed_le_one requestSchema_lawful h
  | chain => exact Schema.timesNamed_le_one chainSchema_lawful h
  | attempt => exact Schema.timesNamed_le_one attemptSchema_lawful h
  | fuzzyTest => exact Schema.timesNamed_le_one fuzzyTestSchema_lawful h
  | unitTest => exact Schema.timesNamed_le_one unitTestSchema_lawful h

theorem exists_named (h : kind.Takes (.object members closed)) :
    ∀ name ∈ kind.required, ∃ member ∈ members, IsFor name member ∧ member.2 ≠ .null := by
  cases kind with
  | response =>
    refine List.forall_mem_singleton.2
      (Schema.exists_named responseSchema_lawful (List.mem_cons_self ..) rfl ?_ h)
    nofun
  | attempt =>
    refine List.forall_mem_cons.2 ⟨?_, List.forall_mem_singleton.2 ?_⟩
    · exact Schema.exists_named attemptSchema_lawful (List.mem_cons_self ..) rfl integer_null_ne_ok h
    · exact Schema.exists_named attemptSchema_lawful (List.mem_cons_of_mem _ (List.mem_cons_self ..)) rfl
        integer_null_ne_ok h
  | _ => exact List.forall_mem_nil _

end Kind

/-- Whether some record of the document names one of its fields twice, whatever the keys and values. -/
def Repeats (document : Value) : Prop :=
  ∃ kind members closed, RecordIn document kind (.object members closed)
    ∧ ∃ name ∈ kind.names, 2 ≤ timesNamed name members

/-- Whether some record of the document does not name a required field, or only as null. -/
def Lacks (document : Value) : Prop :=
  ∃ kind members closed, RecordIn document kind (.object members closed)
    ∧ ∃ name ∈ kind.required, ∀ member ∈ members, IsFor name member → member.2 = .null

theorem not_takes_of_repeats {document : Value} (h : Repeats document) : ¬Kind.batch.Takes document := by
  obtain ⟨kind, members, closed, hrecord, name, hname, htwice⟩ := h
  intro hdocument
  have honce := Kind.timesNamed_le_one (Kind.takes_of_recordIn hdocument hrecord) name hname
  omega

theorem not_takes_of_lacks {document : Value} (h : Lacks document) : ¬Kind.batch.Takes document := by
  obtain ⟨kind, members, closed, hrecord, name, hname, hnull⟩ := h
  intro hdocument
  obtain ⟨member, hmember, hfor, hvalue⟩ :=
    Kind.exists_named (Kind.takes_of_recordIn hdocument hrecord) name hname
  exact hvalue (hnull member hmember hfor)

/-- A document that is read, however it is spelled, was taken in as a batch. -/
theorem takes_of_decode {document : Value} {text : String} {batch : Batch} (hwhole : document.Whole)
    (htext : Layout document.tokens text.toList) (h : decode text = .ok batch) :
    Kind.batch.Takes document := by
  rw [decode, ofText_of_layout hwhole htext, Document.toBatch] at h
  split at h
  · cases h
  · next drafts htake => exact ⟨[], maxDepth, drafts, htake⟩

end AttemptLedger.Json
