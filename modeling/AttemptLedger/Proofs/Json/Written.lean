import AttemptLedger.Json.Decode
import AttemptLedger.Json.Encode
import AttemptLedger.Proofs.Outcome

/-!
# Records that were written in the order of their fields

A written record has its members in the order of the schema's fields, and a field may be left out when
it is not required. Every member is found under its own name, no member comes twice, and no required
field is missing, so such a record is taken in member by member.
-/

namespace AttemptLedger.Json

section

variable {σ α β : Type}

/-- A field that does not take the name of a later one for itself. -/
def Field.Apart (field later : Field σ) : Prop :=
  field.name ≠ later.name ∧ field.otherName ≠ some later.name

/-- Members for fields in order, and what they make of a record; other fields are left out. -/
inductive Writes (room : Nat) : List (Field σ) → List Member → σ → σ → Prop
  | nil {s : σ} : Writes room [] [] s s
  | skip {field : Field σ} {fields : List (Field σ)} {members : List Member} {s t : σ} :
      field.required = false → Writes room fields members s t →
      Writes room (field :: fields) members s t
  | put {field : Field σ} {fields : List (Field σ)} {members : List Member} {value : Value}
      {change : σ → σ} {s t : σ} : field.take room value = .ok change →
      Writes room fields members (change s) t →
      Writes room (field :: fields) ((some field.name, value) :: members) s t

theorem exists_field_of_writes {room : Nat} {fields : List (Field σ)} {members : List Member} {s t : σ}
    (h : Writes room fields members s t) :
    ∀ member ∈ members, ∃ field ∈ fields, member.1 = some field.name := by
  induction h with
  | nil =>
    intro member hmember
    cases hmember
  | skip _ _ ih =>
    intro member hmember
    obtain ⟨field, hfield, hname⟩ := ih member hmember
    exact ⟨field, List.mem_cons_of_mem _ hfield, hname⟩
  | @put field fields members value change s t _ _ ih =>
    refine List.forall_mem_cons.2 ⟨⟨field, List.mem_cons_self .., rfl⟩, ?_⟩
    intro member hmember
    obtain ⟨other, hother, hname⟩ := ih member hmember
    exact ⟨other, List.mem_cons_of_mem _ hother, hname⟩

variable {schema : Schema σ} {before fields : List (Field σ)} {field : Field σ}

theorem field?_name (hfields : schema.fields = before ++ field :: fields)
    (hapart : schema.fields.Pairwise Field.Apart) : schema.field? field.name = some field := by
  have hnone : ∀ earlier ∈ before,
      (earlier.name == field.name || earlier.otherName == some field.name) = false := by
    intro earlier hearlier
    rw [hfields] at hapart
    obtain ⟨hname, hother⟩ :=
      (List.pairwise_append.1 hapart).2.2 earlier hearlier field (List.mem_cons_self ..)
    simp [hname, hother]
  rw [Schema.field?, hfields, List.find?_append, List.find?_eq_none.2 (by simpa using hnone),
    Option.none_or, List.find?_cons_of_pos (by simp)]

/-- The run over the members: each goes to its field, and all required fields are met. -/
theorem takeMembers_of_writes {room : Nat} {members : List Member} {s t : σ}
    (h : Writes room fields members s t) (hapart : schema.fields.Pairwise Field.Apart)
    (hfields : schema.fields = before ++ fields) {seen : List String}
    (hnew : ∀ field ∈ fields, field.name ∉ seen) :
    ∃ met, schema.takeMembers room members seen s = .ok (met, t) ∧ (∀ name ∈ seen, name ∈ met)
      ∧ ∀ field ∈ fields, field.required = true → field.name ∈ met := by
  -- `before` are the fields that were passed, and `seen` the names of those that were met.
  induction h generalizing before seen with
  | nil =>
    refine ⟨seen, rfl, fun _ hname => hname, ?_⟩
    intro field hfield
    cases hfield
  | @skip field fields members s t hoptional _ ih =>
    have hfields' : schema.fields = (before ++ [field]) ++ fields := by
      rw [hfields, List.append_assoc]
      rfl
    obtain ⟨met, htake, hkept, hmet⟩ := ih hfields' (List.forall_mem_cons.1 hnew).2
    refine ⟨met, htake, hkept, ?_⟩
    intro other hother hrequired
    rcases List.mem_cons.1 hother with rfl | hother
    · rw [hoptional] at hrequired
      cases hrequired
    · exact hmet other hother hrequired
  | @put field fields members value change s t htaken _ ih =>
    have hfields' : schema.fields = (before ++ [field]) ++ fields := by
      rw [hfields, List.append_assoc]
      rfl
    obtain ⟨hfield, hlater⟩ := List.forall_mem_cons.1 hnew
    -- The later fields have other names, so none of them is met a second time.
    have hnew' : ∀ later ∈ fields, later.name ∉ field.name :: seen := by
      intro later hin hseen
      have hpair : (field :: fields).Pairwise Field.Apart := by
        rw [hfields] at hapart
        exact (List.pairwise_append.1 hapart).2.1
      rcases List.mem_cons.1 hseen with hsame | hseen
      · exact ((List.pairwise_cons.1 hpair).1 later hin).1 hsame.symm
      · exact hlater later hin hseen
    obtain ⟨met, htake, hkept, hmet⟩ := ih hfields' hnew'
    obtain ⟨hhead, hkept⟩ := List.forall_mem_cons.1 hkept
    refine ⟨met, ?_, hkept, ?_⟩
    · rw [Schema.takeMembers, field?_name hfields hapart]
      dsimp only
      rw [if_neg hfield, htaken]
      exact htake
    · intro other hother hrequired
      rcases List.mem_cons.1 hother with rfl | hother
      · exact hhead
      · exact hmet other hother hrequired

theorem take_of_takeMembers {room : Nat} {members : List Member} {met : List String} {start t : σ}
    (h : schema.takeMembers room members [] start = .ok (met, t))
    (hmet : ∀ field ∈ schema.fields, field.required = true → field.name ∈ met) :
    schema.take start (room + 1) (.object members true) = .ok t := by
  have hmissing : schema.missing? met = none := by
    refine List.find?_eq_none.2 ?_
    intro field hfield
    cases hrequired : field.required with
    | false => simp
    | true => simp [hmet field hfield hrequired]
  rw [Schema.take, if_neg (Nat.succ_ne_zero room), Nat.add_sub_cancel, h]
  dsimp only
  rw [hmissing]
  rfl

theorem take_of_writes {room : Nat} {members : List Member} {start t : σ}
    (hapart : schema.fields.Pairwise Field.Apart)
    (h : Writes room schema.fields (members ++ []) start t) :
    schema.take start (room + 1) (.object members true) = .ok t := by
  rw [List.append_nil] at h
  have hfields : schema.fields = [] ++ schema.fields := rfl
  have hnew : ∀ field ∈ schema.fields, field.name ∉ ([] : List String) := by
    intro field _ hname
    cases hname
  obtain ⟨met, htake, _, hmet⟩ := takeMembers_of_writes h hapart hfields hnew
  exact take_of_takeMembers htake hmet

/-! ### Values -/

theorem take_ofInt (room : Nat) (n : Int64) : Take.integer room (ofInt n) = .ok n := by
  have hinteger : (Number.ofInt n.toInt).integer? = some n.toInt :=
    Number.integer?_ofInt n
  have husable : (ofInt n).isUsable room = true := by
    rw [ofInt, Value.isUsable, Number.reading?, hinteger]
    rfl
  have hrange : Int64.minValue.toInt ≤ n.toInt ∧ n.toInt ≤ Int64.maxValue.toInt :=
    ⟨n.minValue_le_toInt, n.toInt_le⟩
  have hvalue : (Number.ofInt n.toInt).integer?.bind Text.int64OfInt? = some n := by
    rw [hinteger, Option.bind_some, Text.int64OfInt?, if_pos hrange, Int64.ofInt_toInt]
  unfold ofInt at husable ⊢
  simp [Take.integer, husable, hvalue]

theorem take_ofList {item : Take β} {write : α → Value} {read : α → β} {room : Nat} {as : List α}
    (h : ∀ a ∈ as, item room (write a) = .ok (read a)) :
    Take.list item (room + 1) (ofList write as) = .ok (as.map read) := by
  have hitems : (as.map write).mapM (item room) = .ok (as.map read) := by
    rw [List.mapM_map]
    exact mapM_eq_ok h
  rw [ofList, Take.list, if_neg (Nat.succ_ne_zero room), Nat.add_sub_cancel, hitems]
  rfl

/-! ### Members -/

variable {room : Nat} {members : List Member} {s t : σ} {name : String} {otherName : Option String}

namespace Writes

theorem of {take : Take α} {put : α → σ → σ} {value : Value} {a : α}
    (htake : take room value = .ok a) (h : Writes room fields members (put a s) t) :
    Writes room (.of name otherName take put :: fields) (member name value ++ members) s t := by
  have hfield : (Field.of name otherName take put).take room value = .ok (put a) := by
    show (take room value).map put = _
    rw [htake]
    rfl
  exact Writes.put hfield h

theorem require {take : Take α} {put : α → σ → σ} {value : Value} {a : α}
    (htake : take room value = .ok a) (h : Writes room fields members (put a s) t) :
    Writes room (.require (.of name otherName take put) :: fields) (member name value ++ members)
      s t := by
  have hfield : (Field.require (.of name otherName take put)).take room value = .ok (put a) := by
    show (take room value).map put = _
    rw [htake]
    rfl
  exact Writes.put hfield h

theorem text {put : String → σ → σ} {text : String}
    (h : Writes room fields members (put text s) t) :
    Writes room (textField name otherName put :: fields) (member name (ofText text) ++ members) s t :=
  .of rfl h

theorem flag {put : Bool → σ → σ} {flag : Bool} (h : Writes room fields members (put flag s) t) :
    Writes room (flagField name otherName put :: fields) (member name (.bool flag) ++ members) s t :=
  .of rfl h

theorem optional {put : Option String → σ → σ} {text : Option String} (hnone : put none s = s)
    (h : Writes room fields members (put text s) t) :
    Writes room (.of name otherName (.optional .text) put :: fields)
      (optionalMember name text ++ members) s t := by
  cases text with
  | none =>
    rw [hnone] at h
    exact .skip rfl h
  | some text => exact .of rfl h

theorem textMember {put : String → σ → σ} {text : String} (hempty : put "" s = s)
    (h : Writes room fields members (put text s) t) :
    Writes room (textField name otherName put :: fields) (textMember name text ++ members) s t := by
  unfold Json.textMember
  split
  · next htext =>
    rw [htext, hempty] at h
    exact .skip rfl h
  · exact .text h

theorem intMember {put : Int64 → σ → σ} {n : Int64} (hzero : put 0 s = s)
    (h : Writes room fields members (put n s) t) :
    Writes room (intField name otherName put :: fields) (intMember name n ++ members) s t := by
  unfold Json.intMember
  split
  · next hn =>
    rw [hn, hzero] at h
    exact .skip rfl h
  · exact .of (take_ofInt room n) h

theorem flagMember {put : Bool → σ → σ} {flag : Bool} (hunset : put false s = s)
    (h : Writes room fields members (put flag s) t) :
    Writes room (flagField name otherName put :: fields) (flagMember name flag ++ members) s t := by
  cases flag with
  | false =>
    rw [hunset] at h
    exact .skip rfl h
  | true => exact .flag h

theorem list {item : Take β} {put : List β → σ → σ} {write : α → Value} {read : α → β}
    {as : List α} (hitems : ∀ a ∈ as, item room (write a) = .ok (read a))
    (h : Writes (room + 1) fields members (put (as.map read) s) t) :
    Writes (room + 1) (listField name otherName item put :: fields)
      (member name (ofList write as) ++ members) s t :=
  .of (take_ofList hitems) h

theorem listMember {item : Take β} {put : List β → σ → σ} {write : α → Value} {read : α → β}
    {as : List α} (hitems : ∀ a ∈ as, item room (write a) = .ok (read a)) (hempty : put [] s = s)
    (h : Writes (room + 1) fields members (put (as.map read) s) t) :
    Writes (room + 1) (listField name otherName item put :: fields)
      (listMember name write as ++ members) s t := by
  cases as with
  | nil =>
    rw [List.map_nil, hempty] at h
    exact .skip rfl h
  | cons a as => exact .list hitems h

end Writes

end

end AttemptLedger.Json
