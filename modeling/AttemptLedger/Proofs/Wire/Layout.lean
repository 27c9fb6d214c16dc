import AttemptLedger.Proofs.Wire.Parts
import AttemptLedger.Proofs.Wire.RoundTrip
import Mathlib.Logic.Relation

/-!
# The meaning of a message does not depend on its layout

An edit of a message at any depth leaves what is read from it as it was: most changes of records do
the same to any draft, a default does nothing to the first one, and unit tests do not count where there
is a fuzzy test. So a batch is read back as its canonical form after any number of edits of its bytes.
-/

namespace AttemptLedger.Wire

/-! ### Changes of records -/

theorem admits_default {part : Part} {payload : Payload} (h : part.default? = some payload) :
    part.content.Admits payload := by
  cases part with
  | int | flag =>
    cases h
    exact .number
  | text =>
    cases h
    exact @Content.Admits.text ""
  | id | optionalText | single kind | list kind | flags => cases h

theorem admits_of_chainFlags {records : List Record} {flags : List Bool}
    (h : ChainFlags records flags) :
    ∀ record ∈ records, record.tag.field = 2 → Content.flags.Admits record.payload := by
  induction h with
  | nil =>
    intro record hrecord
    cases hrecord
  | flag _ _ ih => exact List.forall_mem_cons.2 ⟨fun _ => .flag, ih⟩
  | packed _ hpacked _ ih => exact List.forall_mem_cons.2 ⟨fun _ => .packed hpacked, ih⟩
  | other hfield _ ih => exact List.forall_mem_cons.2 ⟨fun hsame => absurd hsame hfield, ih⟩

/-- Changed records still have payloads that their fields may have. -/
theorem Change.conform {kind : Kind} {others olds news : List Record}
    (h : Change kind others olds news) (hold : Conform kind.fields olds) :
    Conform kind.fields news := by
  have hsingle : ∀ {record : Record} {part : Part}, kind.part record.tag.field = some part →
      part.content.Admits record.payload → Conform kind.fields [record] := by
    intro record part hpart hadmits other hother content hcontent
    rw [List.mem_singleton] at hother
    subst hother
    rw [Kind.fields, hpart] at hcontent
    cases hcontent
    exact hadmits
  cases h with
  | respelled => exact hold
  | unknown hnone =>
    intro record hrecord content hcontent
    rw [List.mem_singleton] at hrecord
    subst hrecord
    rw [Kind.fields, hnone] at hcontent
    cases hcontent
  | swapped =>
    intro record hrecord
    exact hold record ((List.Perm.swap _ _ _).mem_iff.1 hrecord)
  | default hpart hdefault _ => exact hsingle hpart (admits_default hdefault)
  | overridden hfield hpart _ hadmits =>
    rw [← hfield] at hpart
    exact List.forall_mem_cons.2 ⟨List.forall_mem_singleton.1 (hsingle hpart hadmits), hold⟩
  | truth hpart _ _ => exact hsingle hpart .number
  | flags hkind hfield _ hafter =>
    subst hkind
    intro record hrecord content hcontent
    have htwo : record.tag.field = 2 := hfield record (List.mem_append_right _ hrecord)
    rw [htwo] at hcontent
    cases hcontent
    exact admits_of_chainFlags hafter record hrecord htwo
  | unitTest hkind hfield _ hadmits =>
    subst hkind
    have hpart : Kind.attempt.part _ = some (.list .unitTest) := congrArg Kind.attempt.part hfield
    exact hsingle hpart hadmits

/-- Runs of records of which the second does to a draft what the first does. -/
def Schema.Agree {σ : Type} (schema : Schema σ) (olds news : List Record) : Prop :=
  ∀ s t u, schema.absorbAll olds s = .ok t → schema.absorbAll news s = .ok u → u = t

theorem Schema.absorbAll_frame {σ : Type} {schema : Schema σ} {olds news : List Record}
    (h : schema.Agree olds news) (fronts backs : List Record) :
    schema.Agree (fronts ++ (olds ++ backs)) (fronts ++ (news ++ backs)) := by
  intro s t u ht hu
  obtain ⟨first, hfirst, ht⟩ := absorbAll_append_eq_ok_iff.1 ht
  obtain ⟨other, hother, hu⟩ := absorbAll_append_eq_ok_iff.1 hu
  rw [hfirst] at hother
  cases hother
  obtain ⟨middle, hmiddle, ht⟩ := absorbAll_append_eq_ok_iff.1 ht
  obtain ⟨next, hnext, hu⟩ := absorbAll_append_eq_ok_iff.1 hu
  cases h first middle next hmiddle hnext
  rw [ht] at hu
  exact (Except.ok.inj hu).symm

theorem Schema.agree_of_absorb {σ : Type} {schema : Schema σ} {old new : Record}
    (h : ∀ s, schema.absorb new s = schema.absorb old s) : schema.Agree [old] [new] := by
  intro s t u ht hu
  rw [absorbAll_singleton] at ht hu
  rw [h, ht] at hu
  exact (Except.ok.inj hu).symm

theorem Kind.schema_eq_none {kind : Kind} {number : Nat} (h : kind.part number = none) :
    kind.schema number = none := by
  have hchecks := kind.schema_checks number
  rw [Kind.fields, h] at hchecks
  cases hfield : kind.schema number with
  | none => rfl
  | some field =>
    rw [hfield] at hchecks
    exact hchecks.elim

theorem agree_unknown {kind : Kind} {record : Record} (h : kind.part record.tag.field = none) :
    kind.schema.Agree [] [record] := by
  intro s t u ht hu
  rw [Schema.absorbAll_singleton, Schema.absorb, Kind.schema_eq_none h] at hu
  cases ht
  cases hu
  rfl

theorem agree_swapped {kind : Kind} {first second : Record}
    (h : first.tag.field ≠ second.tag.field) :
    kind.schema.Agree [first, second] [second, first] := by
  intro s t u ht hu
  rw [Schema.absorbAll_swap kind.schema_commutes h ht] at hu
  exact (Except.ok.inj hu).symm

theorem agree_overridden {kind : Kind} {added record : Record} {part : Part}
    (hfield : added.tag.field = record.tag.field) (hpart : kind.part record.tag.field = some part)
    (hsingular : part.IsSingular) (hadded : part.content.Admits added.payload)
    (hrecord : part.content.Admits record.payload) :
    kind.schema.Agree [record] [added, record] := by
  intro s t u ht hu
  obtain ⟨field, hschema, hplays⟩ := Kind.exists_plays hpart
  obtain ⟨middle, hbefore, hafter⟩ := Schema.absorbAll_cons_eq_ok_iff.1 hu
  rw [Schema.absorbAll_singleton, Schema.absorb, hschema] at ht hafter
  rw [Schema.absorb, hfield, hschema] at hbefore
  exact hplays.absorb_last hsingular hadded hrecord ht hbefore hafter

theorem agree_truth {kind : Kind} {tag : Tag} {value other : UInt64}
    (hpart : kind.part tag.field = some .flag) (hvalue : value ≠ 0) (hother : other ≠ 0) :
    kind.schema.Agree [⟨tag, .number value⟩] [⟨tag, .number other⟩] := by
  obtain ⟨field, hschema, hplays⟩ := Kind.exists_plays hpart
  apply Schema.agree_of_absorb
  intro s
  rw [Schema.absorb, Schema.absorb, hschema]
  exact hplays.absorb_truth hvalue hother s

theorem agree_inside {kind inner : Kind} {tag : Tag} {body edited : Bytes} {part : Part}
    (hpart : kind.part tag.field = some part) (hmessage : part.message? = some inner)
    (hread : inner.read edited = inner.read body) :
    kind.schema.Agree [⟨tag, .bytes body⟩] [⟨tag, .bytes edited⟩] := by
  obtain ⟨field, hschema, hplays⟩ := Kind.exists_plays hpart
  apply Schema.agree_of_absorb
  intro s
  rw [Schema.absorb, Schema.absorb, hschema]
  exact hplays.absorb_message hmessage hread s

theorem chainFlags_keeps_attempts : chainFlags.Keeps ChainDraft.attempts := by
  intro payload s t habsorb
  rcases puts_chainFlags payload s t habsorb with hpass | ⟨flags, hput⟩
  · rw [hpass s] at habsorb
    cases habsorb
    rfl
  · rw [hput s] at habsorb
    cases habsorb
    rfl

/-- Records that hold flags do no more to a chain than to add their flags. -/
theorem agree_flags {before after : List Record} {flags : List Bool}
    (hfield : ∀ record ∈ before ++ after, record.tag.field = 2) (hbefore : ChainFlags before flags)
    (hafter : ChainFlags after flags) : chainSchema.Agree before after := by
  have hattempts : ∀ {records : List Record}, (∀ record ∈ records, record.tag.field = 2) →
      ∀ {s t}, chainSchema.absorbAll records s = .ok t → t.attempts = s.attempts := by
    intro records
    induction records with
    | nil =>
      intro _ s t habsorb
      cases habsorb
      rfl
    | cons record records ih =>
      intro hrecords s t habsorb
      obtain ⟨htwo, htail⟩ := List.forall_mem_cons.1 hrecords
      obtain ⟨middle, hmiddle, habsorb⟩ := Schema.absorbAll_cons_eq_ok_iff.1 habsorb
      rw [Schema.absorb, htwo] at hmiddle
      rw [ih htail habsorb]
      exact chainFlags_keeps_attempts _ s middle hmiddle
  obtain ⟨hold, hnew⟩ := List.forall_mem_append.1 hfield
  intro s t u ht hu
  have hsame : u.attempts = t.attempts := (hattempts hnew hu).trans (hattempts hold ht).symm
  have hflags : u.flags = t.flags :=
    (flags_of_absorbAll hafter hu).trans (flags_of_absorbAll hbefore ht).symm
  cases t
  cases u
  cases hsame
  cases hflags
  rfl

/-- A written default changes nothing where no record of its field stands before it. -/
theorem agree_default {kind : Kind} {fronts : List Record} {record : Record} {part : Part}
    (hpart : kind.part record.tag.field = some part) (hdefault : part.default? = some record.payload)
    (hfronts : ¬Has record.tag.field fronts) {t u : kind.Draft}
    (ht : kind.schema.absorbAll fronts kind.start = .ok t)
    (hu : kind.schema.absorbAll (fronts ++ [record]) kind.start = .ok u) : u = t := by
  obtain ⟨field, hschema, hplays⟩ := Kind.exists_plays hpart
  have hstart : kind.schema.absorb record kind.start = .ok kind.start := by
    rw [Schema.absorb, hschema]
    exact hplays.absorb_default hdefault
  have hother : ∀ front ∈ fronts, front.tag.field ≠ record.tag.field :=
    fun front hfront hsame => hfronts ⟨front, hfront, hsame⟩
  obtain ⟨last, hlast, hend⟩ := Schema.absorbAll_move kind.schema_commutes hother hstart ht
  obtain ⟨middle, hmiddle, hu⟩ := Schema.absorbAll_append_eq_ok_iff.1 hu
  rw [hlast] at hmiddle
  cases hmiddle
  rw [Schema.absorbAll_singleton, hend] at hu
  exact (Except.ok.inj hu).symm

/-! ### Unit tests beside fuzzy tests -/

def AttemptDraft.withoutUnitTests (draft : AttemptDraft) : AttemptDraft :=
  { draft with unitTests := [] }

/-- A field for which the unit tests of the draft make no difference to its other parts. -/
def Field.PassesUnitTests (field : Field AttemptDraft) : Prop :=
  ∀ payload s t, field.absorb payload s = .ok t →
    ∃ u, field.absorb payload s.withoutUnitTests = .ok u
      ∧ u.withoutUnitTests = t.withoutUnitTests

theorem passesUnitTests_number (label : String) {put : UInt64 → AttemptDraft → AttemptDraft}
    (hput : ∀ value s,
      (put value s.withoutUnitTests).withoutUnitTests = (put value s).withoutUnitTests) :
    (Field.number label put).PassesUnitTests := by
  intro payload s t habsorb
  cases payload with
  | number value =>
    cases habsorb
    exact ⟨_, rfl, hput value s⟩
  | _ =>
    cases habsorb
    exact ⟨_, rfl, rfl⟩

theorem passesUnitTests_nested {α : Type} (label : String) {read : Bytes → Except Fault α}
    {put : α → AttemptDraft → AttemptDraft}
    (hput : ∀ value s,
      (put value s.withoutUnitTests).withoutUnitTests = (put value s).withoutUnitTests) :
    (Field.nested label read put).PassesUnitTests := by
  intro payload s t habsorb
  cases payload with
  | bytes body =>
    obtain ⟨value, hvalue, rfl⟩ := map_eq_ok_iff.1 habsorb
    exact ⟨_, map_eq_ok_iff.2 ⟨value, hvalue, rfl⟩, hput value s⟩
  | _ =>
    cases habsorb
    exact ⟨_, rfl, rfl⟩

theorem attemptSchema_passesUnitTests {number : Nat} {field : Field AttemptDraft}
    (h : attemptSchema number = some field) : field.PassesUnitTests := by
  match number with
  | 1 | 2 | 5 | 13 | 14 | 15 | 16 =>
    cases h
    exact passesUnitTests_number _ fun _ _ => rfl
  | 3 | 4 | 6 | 7 | 8 | 9 | 10 | 11 | 12 =>
    cases h
    exact passesUnitTests_nested _ fun _ _ => rfl
  | 0 | _ + 17 => cases h

theorem absorbAll_withoutUnitTests {records : List Record} {s s' t t' : AttemptDraft}
    (hs : s.withoutUnitTests = s'.withoutUnitTests)
    (ht : attemptSchema.absorbAll records s = .ok t)
    (ht' : attemptSchema.absorbAll records s' = .ok t') :
    t.withoutUnitTests = t'.withoutUnitTests := by
  induction records generalizing s s' with
  | nil =>
    cases ht
    cases ht'
    exact hs
  | cons record records ih =>
    obtain ⟨middle, hmiddle, ht⟩ := Schema.absorbAll_cons_eq_ok_iff.1 ht
    obtain ⟨middle', hmiddle', ht'⟩ := Schema.absorbAll_cons_eq_ok_iff.1 ht'
    refine ih ?_ ht ht'
    unfold Schema.absorb at hmiddle hmiddle'
    cases hfield : attemptSchema record.tag.field with
    | none =>
      rw [hfield] at hmiddle hmiddle'
      cases hmiddle
      cases hmiddle'
      exact hs
    | some field =>
      rw [hfield] at hmiddle hmiddle'
      obtain ⟨u, hu, hsame⟩ := attemptSchema_passesUnitTests hfield _ _ _ hmiddle
      obtain ⟨u', hu', hsame'⟩ := attemptSchema_passesUnitTests hfield _ _ _ hmiddle'
      rw [hs, hu'] at hu
      cases hu
      exact hsame.symm.trans hsame'

theorem attemptSchema_keeps_fuzzyTests (other : Nat) (field : Field AttemptDraft)
    (hother : other ≠ 9) (hfield : attemptSchema other = some field) :
    field.Keeps fun draft => draft.fuzzyTests.head? := by
  match other with
  | 9 => exact absurd rfl hother
  | 1 | 2 | 5 | 13 | 14 | 15 | 16 =>
    cases hfield
    exact keeps_number _ fun _ _ => rfl
  | 3 | 4 | 6 | 7 | 8 | 10 | 11 | 12 =>
    cases hfield
    exact keeps_nested _ fun _ _ => rfl
  | 0 | _ + 17 => cases hfield

theorem isSome_fuzzyTests_of_has {records : List Record} (hconform : Conform attemptFields records)
    (hhas : Has 9 records) {draft : AttemptDraft}
    (habsorb : attemptSchema.absorbAll records {} = .ok draft) :
    draft.fuzzyTests.head?.isSome = true := by
  refine (isSome_absorbAll_iff rfl rfl (fills_nested _ fun test draft => ?_)
    attemptSchema_keeps_fuzzyTests hconform habsorb).2 (Or.inr hhas)
  cases hfuzzy : draft.fuzzyTests <;> rfl

/-- Unit tests do not count where there is a fuzzy test. -/
theorem finish_eq_of_fuzzyTests {s t : AttemptDraft} (h : s.withoutUnitTests = t.withoutUnitTests)
    (hfuzzy : s.fuzzyTests.head?.isSome = true) : t.finish = s.finish := by
  obtain ⟨id, parentId, fuzzyTests, unitTests, attempt⟩ := s
  obtain ⟨id', parentId', fuzzyTests', unitTests', attempt'⟩ := t
  cases h
  cases fuzzyTests with
  | nil => cases hfuzzy
  | cons test fuzzyTests => rfl

theorem finish_eq_of_unitTest {fronts backs : List Record} {record : Record}
    (hfield : record.tag.field = 10) (hhas : Has 9 (fronts ++ backs))
    (hconform : Conform attemptFields (fronts ++ backs)) {t u : AttemptDraft}
    (ht : attemptSchema.absorbAll (fronts ++ backs) {} = .ok t)
    (hu : attemptSchema.absorbAll (fronts ++ ([record] ++ backs)) {} = .ok u) :
    u.finish = t.finish := by
  have hfuzzy := isSome_fuzzyTests_of_has hconform hhas ht
  obtain ⟨first, hfirst, ht⟩ := Schema.absorbAll_append_eq_ok_iff.1 ht
  obtain ⟨other, hother, hu⟩ := Schema.absorbAll_append_eq_ok_iff.1 hu
  rw [hfirst] at hother
  cases hother
  obtain ⟨middle, hmiddle, hu⟩ := Schema.absorbAll_append_eq_ok_iff.1 hu
  rw [Schema.absorbAll_singleton, Schema.absorb, hfield] at hmiddle
  have hkeeps : (Field.nested "unit_tests" readUnitTest fun test (draft : AttemptDraft) =>
      { draft with unitTests := draft.unitTests ++ [test] }).Keeps
        AttemptDraft.withoutUnitTests := keeps_nested _ fun _ _ => rfl
  have hsame := absorbAll_withoutUnitTests (hkeeps _ first middle hmiddle).symm ht hu
  exact finish_eq_of_fuzzyTests hsame hfuzzy

/-! ### Edits -/

/-- Changed records, among the same others, end in the same value. -/
theorem Change.finish_eq {kind : Kind} {fronts olds news backs : List Record}
    (h : Change kind (fronts ++ backs) olds news) (hold : Conform kind.fields olds)
    (hothers : Conform kind.fields (fronts ++ backs)) {t u : kind.Draft}
    (ht : kind.schema.absorbAll (fronts ++ (olds ++ backs)) kind.start = .ok t)
    (hu : kind.schema.absorbAll (fronts ++ (news ++ backs)) kind.start = .ok u) :
    kind.finish u = kind.finish t := by
  have hagree : kind.schema.Agree olds news → kind.finish u = kind.finish t := by
    intro hagree
    rw [Schema.absorbAll_frame hagree fronts backs kind.start t u ht hu]
  cases h with
  | respelled => exact hagree fun s t u ht hu => Except.ok.inj (hu.symm.trans ht)
  | unknown hnone => exact hagree (agree_unknown hnone)
  | swapped hne => exact hagree (agree_swapped hne)
  | @default record part hpart hdefault hnot =>
    have hfronts : ¬Has record.tag.field fronts := by
      rintro ⟨front, hfront, hsame⟩
      exact hnot ⟨front, List.mem_append_left _ hfront, hsame⟩
    obtain ⟨first, hfirst, ht⟩ := Schema.absorbAll_append_eq_ok_iff.1 ht
    rw [← List.append_assoc] at hu
    obtain ⟨middle, hmiddle, hu⟩ := Schema.absorbAll_append_eq_ok_iff.1 hu
    rw [agree_default hpart hdefault hfronts hfirst hmiddle] at hu
    exact congrArg kind.finish (Except.ok.inj (hu.symm.trans ht))
  | overridden hfield hpart hsingular hadded =>
    have hrecord := List.forall_mem_singleton.1 hold _ (congrArg (Option.map Part.content) hpart)
    exact hagree (agree_overridden hfield hpart hsingular hadded hrecord)
  | truth hpart hvalue hother => exact hagree (agree_truth hpart hvalue hother)
  | flags hkind hfield hbefore hafter =>
    subst hkind
    exact hagree (agree_flags hfield hbefore hafter)
  | unitTest hkind hfield hhas _ =>
    subst hkind
    rw [Kind.fields_attempt] at hothers
    exact finish_eq_of_unitTest hfield hhas hothers ht hu

/-- Other records in place of some records of a message, where they conform and end in the same
value. -/
theorem read_replaced {kind : Kind} {front old new back : Bytes}
    {fronts olds news backs : List Record} (hfront : Records front fronts)
    (hold : Records old olds) (hnew : Records new news) (hback : Records back backs)
    (hconform : Conform kind.fields olds → Conform kind.fields news)
    (hfinish : Conform kind.fields olds → Conform kind.fields (fronts ++ backs) → ∀ t u,
      kind.schema.absorbAll (fronts ++ (olds ++ backs)) kind.start = .ok t →
      kind.schema.absorbAll (fronts ++ (news ++ backs)) kind.start = .ok u →
      kind.finish u = kind.finish t)
    {value : kind.Value} (hread : kind.read (front ++ (old ++ back)) = .ok value) :
    kind.read (front ++ (new ++ back)) = .ok value := by
  obtain ⟨records, t, hrecords, hall, ht, hvalue⟩ := Kind.read_eq_ok_iff.1 hread
  cases hrecords.unique (hfront.append (hold.append hback))
  obtain ⟨hfronts, hrest⟩ := List.forall_mem_append.1 hall
  obtain ⟨holds, hbacks⟩ := List.forall_mem_append.1 hrest
  have hnews : Conform kind.fields (fronts ++ (news ++ backs)) :=
    List.forall_mem_append.2 ⟨hfronts, List.forall_mem_append.2 ⟨hconform holds, hbacks⟩⟩
  have hcut := hfront.append (hnew.append hback)
  obtain ⟨_, u, hu⟩ := (absorbAll_iff_of_checks kind.schema_checks hcut kind.start).2 hnews
  have hothers : Conform kind.fields (fronts ++ backs) :=
    List.forall_mem_append.2 ⟨hfronts, hbacks⟩
  refine Kind.read_eq_ok_iff.2 ⟨_, u, hcut, hnews, hu, ?_⟩
  rw [hfinish holds hothers t u ht hu, hvalue]

/-! ### Messages inside a message -/

theorem Kind.fields_of_message {kind inner : Kind} {number : Nat} {part : Part}
    (hpart : kind.part number = some part) (hmessage : part.message? = some inner) :
    kind.fields number = some (.message inner.Form) := by
  have hcontent : part.content = .message inner.Form := by
    cases part with
    | single | list =>
      cases hmessage
      rfl
    | id | int | flag | text | optionalText | flags => cases hmessage
  rw [Kind.fields, hpart, Option.map_some, hcontent]

/-- What stands in a message that conforms was read to some value. -/
theorem exists_read_of_conform {kind inner : Kind} {tag : Tag} {body : Bytes} {part : Part}
    (hpart : kind.part tag.field = some part) (hmessage : part.message? = some inner)
    (hconform : Conform kind.fields [⟨tag, .bytes body⟩]) : ∃ value, inner.read body = .ok value := by
  have hadmits := List.forall_mem_singleton.1 hconform _ (Kind.fields_of_message hpart hmessage)
  cases hadmits with
  | message hform => exact (inner.exists_read_iff body).2 hform

/-- A message inside another may be put in place of one from which the same is read. -/
theorem read_of_inside {kind inner : Kind} {front old new back : Bytes} {fronts backs : List Record}
    {tag : Tag} {body edited : Bytes} {part : Part} (hfront : Records front fronts)
    (hold : Records old [⟨tag, .bytes body⟩]) (hnew : Records new [⟨tag, .bytes edited⟩])
    (hback : Records back backs) (hpart : kind.part tag.field = some part)
    (hmessage : part.message? = some inner)
    (hinner : ∀ value, inner.read body = .ok value → inner.read edited = .ok value)
    {value : kind.Value} (hread : kind.read (front ++ (old ++ back)) = .ok value) :
    kind.read (front ++ (new ++ back)) = .ok value := by
  refine read_replaced hfront hold hnew hback ?_ ?_ hread
  · intro hconform
    obtain ⟨value, hvalue⟩ := exists_read_of_conform hpart hmessage hconform
    have hform := (inner.exists_read_iff edited).1 ⟨value, hinner value hvalue⟩
    refine List.forall_mem_singleton.2 fun content hsome => ?_
    rw [Kind.fields_of_message hpart hmessage] at hsome
    cases hsome
    exact .message hform
  · intro hconform _ t u ht hu
    obtain ⟨value, hvalue⟩ := exists_read_of_conform hpart hmessage hconform
    have hagree : kind.schema.Agree [⟨tag, .bytes body⟩] [⟨tag, .bytes edited⟩] :=
      agree_inside hpart hmessage ((hinner value hvalue).trans hvalue.symm)
    rw [Schema.absorbAll_frame hagree fronts backs kind.start t u ht hu]

/-- One edit, at any depth, leaves what is read as it was. -/
theorem read_of_edit {kind : Kind} {before after : Bytes} (h : Edit kind before after)
    {value : kind.Value} (hread : kind.read before = .ok value) : kind.read after = .ok value := by
  -- The induction is on the depth at which the edit stands.
  induction h with
  | records hfront hold hnew hback hchange =>
    exact read_replaced hfront hold hnew hback hchange.conform
      (fun holds hothers _ _ => hchange.finish_eq holds hothers) hread
  | inside hfront hold hnew hback hpart hmessage _ ih =>
    exact read_of_inside hfront hold hnew hback hpart hmessage (fun _ => ih) hread

/-- Any number of edits leaves what is read as it was. -/
theorem read_of_edits {kind : Kind} {before after : Bytes}
    (h : Relation.ReflTransGen (Edit kind) before after) {value : kind.Value}
    (hread : kind.read before = .ok value) : kind.read after = .ok value := by
  induction h with
  | refl => exact hread
  | tail _ hedit ih => exact read_of_edit hedit ih

/-- A batch is read back as its canonical form however its bytes were edited. -/
theorem decode_of_edits {batch : Batch} (h : (encode batch).length < 2 ^ 64) {bytes : Bytes}
    (hedits : Relation.ReflTransGen (Edit .batch) (encode batch) bytes) :
    decode bytes = .ok batch.canonical := by
  have hread : Kind.batch.read (encode batch) = .ok batch.canonical := decode_bytes h
  exact read_of_edits hedits hread

/-- A chain's packed flag written alone, three levels down, a request's text written before the one
that counts, and a record of an unknown field at the end. -/
theorem decode_of_three_edits :
    let batch : Batch := ⟨[⟨{ id := "r" }, [⟨[], ⟨[0], by decide⟩⟩]⟩]⟩
    let bytes : Bytes :=
      [10, 12, 10, 6, 10, 1, 115, 10, 1, 114, 18, 2, 16, 5, 29, 0, 0, 0, 0]
    (encode batch).length < 2 ^ 64
      ∧ Relation.ReflTransGen (Edit .batch) (encode batch) bytes
      ∧ decode bytes = .ok batch.canonical := by
  intro batch bytes
  have hlength : (encode batch).length < 2 ^ 64 := by decide +kernel
  have hbytes : encode batch = [10, 10, 10, 3, 10, 1, 114, 18, 3, 18, 1, 1] := by decide +kernel
  have hcut : ∀ {record : Record} (bytes : Bytes),
      Schema.readRecord (fun _ => none : Schema Unit) ⟨0, bytes⟩ = .ok (record, ⟨0, []⟩) →
      Records bytes [record] := fun _ hread => .of_readRecord hread .nil
  have hrequest := hcut [10, 3, 10, 1, 114] rfl
  have hflags : Edit .chain ([] ++ ([18, 1, 1] ++ [])) ([] ++ ([16, 5] ++ [])) := by
    have hpacked : PackedFlags [1] [true] := .cons (isGroups_singleton (by decide)) .nil
    exact .records .nil (hcut [18, 1, 1] rfl) (hcut [16, 5] rfl) .nil
      (.flags rfl (by simp) (.packed rfl hpacked .nil) (.flag rfl .nil))
  have hchain : Edit .response ([10, 3, 10, 1, 114] ++ ([18, 3, 18, 1, 1] ++ []))
      ([10, 3, 10, 1, 114] ++ ([18, 2, 16, 5] ++ [])) :=
    .inside hrequest (hcut _ rfl) (hcut _ rfl) .nil rfl rfl hflags
  have hfirst : Edit .batch ([] ++ ([10, 10, 10, 3, 10, 1, 114, 18, 3, 18, 1, 1] ++ []))
      ([] ++ ([10, 9, 10, 3, 10, 1, 114, 18, 2, 16, 5] ++ [])) :=
    .inside .nil (hcut _ rfl) (hcut _ rfl) .nil rfl rfl hchain
  have htext : Edit .request ([] ++ ([10, 1, 114] ++ []))
      ([] ++ (([10, 1, 115] ++ [10, 1, 114]) ++ [])) :=
    .records .nil (hcut _ rfl) ((hcut [10, 1, 115] rfl).append (hcut [10, 1, 114] rfl)) .nil
      (.overridden rfl rfl True.intro (@Content.Admits.text "s"))
  have hrequests : Edit .response ([] ++ ([10, 3, 10, 1, 114] ++ [18, 2, 16, 5]))
      ([] ++ ([10, 6, 10, 1, 115, 10, 1, 114] ++ [18, 2, 16, 5])) :=
    .inside .nil (hcut _ rfl) (hcut _ rfl) (hcut _ rfl) rfl rfl htext
  have hsecond : Edit .batch ([] ++ ([10, 9, 10, 3, 10, 1, 114, 18, 2, 16, 5] ++ []))
      ([] ++ ([10, 12, 10, 6, 10, 1, 115, 10, 1, 114, 18, 2, 16, 5] ++ [])) :=
    .inside .nil (hcut _ rfl) (hcut _ rfl) .nil rfl rfl hrequests
  have hthird : Edit .batch ([10, 12, 10, 6, 10, 1, 115, 10, 1, 114, 18, 2, 16, 5] ++ ([] ++ []))
      ([10, 12, 10, 6, 10, 1, 115, 10, 1, 114, 18, 2, 16, 5] ++ ([29, 0, 0, 0, 0] ++ [])) :=
    .records (hcut _ rfl) .nil (hcut _ rfl) .nil (.unknown rfl)
  have hedits : Relation.ReflTransGen (Edit .batch) (encode batch) bytes := by
    rw [hbytes]
    exact ((Relation.ReflTransGen.single hfirst).tail hsecond).tail hthird
  exact ⟨hlength, hedits, decode_of_edits hlength hedits⟩

end AttemptLedger.Wire
