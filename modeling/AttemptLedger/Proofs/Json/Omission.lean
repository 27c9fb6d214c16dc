import AttemptLedger.Proofs.Json.Accepted
import AttemptLedger.Proofs.Json.Printed
import AttemptLedger.Proofs.Required

/-!
# Renderings without required fields

The documents that stand for a batch but for some requests and ids, which are left out or null. The
record that required such a field stands in the document and lacks it, so the document is refused.
-/

namespace AttemptLedger.Json

inductive Omission
  | removed
  | nulled

/-- What a record says in a field whose value is kept, left out or set to null. -/
def Entry.without (entry : Entry) : Option Omission → Entry
  | none => entry
  | some .removed => ⟨entry.name, True, fun _ => False⟩
  | some .nulled => ⟨entry.name, False, fun value => value = .null⟩

@[simp]
theorem Entry.without_name (entry : Entry) (omission : Option Omission) :
    (entry.without omission).name = entry.name := by
  rcases omission with _ | _ | _ <;> rfl

section

variable (omits : Required → Option Omission)

def attemptEntriesWithout (r c a : Nat) (attempt : Attempt) : List Entry :=
  (Entry.id "edge_id" attempt.id).without (omits (.id r c a))
    :: (Entry.id "parent_edge_id" attempt.parentId).without (omits (.parentId r c a))
    :: (attemptEntries attempt).drop 2

def RendersAttemptWithout (r c : Nat) : Attempt × Nat → Value → Prop
  | (attempt, a) => RendersRecord (attemptEntriesWithout omits r c a attempt)

def chainEntriesWithout (r c : Nat) (chain : Chain) : List Entry :=
  .list "translation_edges" (RendersAttemptWithout omits r c) chain.attempts.zipIdx
    :: (chainEntries chain).drop 1

def RendersChainWithout (r : Nat) : Chain × Nat → Value → Prop
  | (chain, c) => RendersRecord (chainEntriesWithout omits r c chain)

def responseEntriesWithout (r : Nat) (response : Response) : List Entry := [
  (Entry.required "translation_request" (RendersRequest response.request)).without
    (omits (.request r)),
  .list "paths" (RendersChainWithout omits r) response.chains.zipIdx]

def RendersResponseWithout : Response × Nat → Value → Prop
  | (response, r) => RendersRecord (responseEntriesWithout omits r response)

/-- The renderings of a batch without the required fields that `omits` tells. -/
def RendersBatchWithout (batch : Batch) : Value → Prop :=
  RendersRecord [.list "translation_responses" (RendersResponseWithout omits) batch.responses.zipIdx]

end

theorem Entry.isWhole_without {entry : Entry} (h : entry.IsWhole) (omission : Option Omission) :
    (entry.without omission).IsWhole := by
  rcases omission with _ | _ | _
  · exact h
  · exact fun _ hvalue => hvalue.elim
  · rintro _ rfl
    exact .null

theorem whole_of_rendersAttemptWithout {omits : Required → Option Omission} {r c : Nat}
    (item : Attempt × Nat) (value : Value) (h : RendersAttemptWithout omits r c item value) :
    value.Whole := by
  refine whole_of_rendersRecord ?_ h
  refine List.forall_mem_cons.2 ⟨Entry.isWhole_without (Entry.isWhole_id _ _) _,
    List.forall_mem_cons.2 ⟨Entry.isWhole_without (Entry.isWhole_id _ _) _, ?_⟩⟩
  exact fun entry hentry => isWhole_attemptEntries item.1 entry (List.mem_of_mem_drop hentry)

theorem whole_of_rendersChainWithout {omits : Required → Option Omission} {r : Nat}
    (item : Chain × Nat) (value : Value) (h : RendersChainWithout omits r item value) :
    value.Whole := by
  refine whole_of_rendersRecord ?_ h
  refine List.forall_mem_cons.2 ⟨Entry.isWhole_list _ _ whole_of_rendersAttemptWithout, ?_⟩
  exact fun entry hentry => isWhole_chainEntries item.1 entry (List.mem_of_mem_drop hentry)

theorem whole_of_rendersResponseWithout {omits : Required → Option Omission}
    (item : Response × Nat) (value : Value) (h : RendersResponseWithout omits item value) :
    value.Whole := by
  refine whole_of_rendersRecord ?_ h
  exact List.forall_mem_cons.2
    ⟨@Entry.isWhole_without (.required _ _) (whole_of_rendersRequest item.1.request) _,
      List.forall_mem_singleton.2 (Entry.isWhole_list _ _ whole_of_rendersChainWithout)⟩

theorem whole_of_rendersBatchWithout {omits : Required → Option Omission} {batch : Batch}
    {value : Value} (h : RendersBatchWithout omits batch value) : value.Whole :=
  whole_of_rendersRecord
    (List.forall_mem_singleton.2 (Entry.isWhole_list _ _ whole_of_rendersResponseWithout)) h

theorem rendersList_zipIdx {α : Type} {renders : α → Value → Prop} {items : List α} {value : Value} :
    RendersList (fun item : α × Nat => renders item.1) items.zipIdx value
      ↔ RendersList renders items value := by
  have hvalues : ∀ values, List.Forall₂ (fun item : α × Nat => renders item.1) items.zipIdx values
      ↔ List.Forall₂ renders items values := by
    intro values
    rw [← List.forall₂_map_left_iff (f := Prod.fst), List.zipIdx_map_fst]
  constructor
  · rintro ⟨h⟩
    exact ⟨(hvalues _).1 h⟩
  · rintro ⟨h⟩
    exact ⟨(hvalues _).2 h⟩

theorem Entry.list_zipIdx {α : Type} (name : String) {renders : α → Value → Prop}
    {without : α × Nat → Value → Prop} (items : List α) (h : ∀ item, without item = renders item.1) :
    Entry.list name without items.zipIdx = .list name renders items := by
  obtain rfl : without = fun item => renders item.1 := funext h
  have hempty : (items.zipIdx = []) = (items = []) := propext List.zipIdx_eq_nil_iff
  have hrenders : RendersList (fun item : α × Nat => renders item.1) items.zipIdx
      = RendersList renders items := funext fun _ => propext rendersList_zipIdx
  rw [Entry.list, hempty, hrenders, Entry.list]

/-- Where nothing is left out, these are the renderings of the batch. -/
theorem rendersBatchWithout_none (batch : Batch) :
    RendersBatchWithout (fun _ => none) batch = RendersBatch batch := by
  have hattempt : ∀ r c item, RendersAttemptWithout (fun _ => none) r c item = RendersAttempt item.1 :=
    fun _ _ _ => rfl
  have hchain : ∀ r item, RendersChainWithout (fun _ => none) r item = RendersChain item.1 := by
    intro r item
    rw [RendersChainWithout, chainEntriesWithout, Entry.list_zipIdx _ _ (hattempt r item.2)]
    rfl
  have hresponse : ∀ item, RendersResponseWithout (fun _ => none) item = RendersResponse item.1 := by
    intro item
    rw [RendersResponseWithout, responseEntriesWithout, Entry.list_zipIdx _ _ (hchain item.2)]
    rfl
  rw [RendersBatchWithout, Entry.list_zipIdx _ _ hresponse]
  rfl

/-! ### What is printed -/

/-- A member, unless it is left out or null. -/
def memberWithout (name : String) (value : Value) : Option Omission → List Member
  | none => member name value
  | some .removed => []
  | some .nulled => member name .null

theorem Listed.memberWithout {entries : List Entry} {members : List Member} {entry : Entry}
    {value : Value} (omission : Option Omission) (hvalue : entry.renders value)
    (h : Listed entries members) :
    Listed (entry.without omission :: entries)
      (Json.memberWithout entry.name value omission ++ members) := by
  rcases omission with _ | _ | _
  · exact .written hvalue h
  · exact .omitted trivial h
  · exact @Listed.written (entry.without (some .nulled)) _ _ _ rfl h

section

variable (omits : Required → Option Omission)

def ofAttemptWithout (r c a : Nat) (attempt : Attempt) : Value :=
  .object (memberWithout "edge_id" (ofInt attempt.id) (omits (.id r c a))
    ++ memberWithout "parent_edge_id" (ofInt attempt.parentId) (omits (.parentId r c a))
    ++ attemptDetails attempt) true

def ofChainWithout (r c : Nat) (chain : Chain) : Value :=
  .object (member "translation_edges" (.array (chain.attempts.mapIdx (ofAttemptWithout omits r c)) true)
    ++ member "edge_index_memoized" (ofList .bool chain.memoFlags)) true

def ofResponseWithout (r : Nat) (response : Response) : Value :=
  .object (memberWithout "translation_request" (ofRequest response.request) (omits (.request r))
    ++ member "paths" (.array (response.chains.mapIdx (ofChainWithout omits r)) true)) true

/-- The document that is printed for a batch, without the required fields that `omits` tells. -/
def ofBatchWithout (batch : Batch) : Value :=
  .object (member "translation_responses"
    (.array (batch.responses.mapIdx (ofResponseWithout omits)) true)) true

theorem ofBatchWithout_none (batch : Batch) : ofBatchWithout (fun _ => none) batch = ofBatch batch := by
  have hattempt : ∀ r c, ofAttemptWithout (fun _ => none) r c = fun _ => ofAttempt := by
    intro r c
    funext a attempt
    rw [ofAttempt_eq]
    rfl
  have hchain : ∀ r, ofChainWithout (fun _ => none) r = fun _ => ofChain := by
    intro r
    funext c chain
    rw [ofChainWithout, hattempt, mapIdx_eq_map]
    rfl
  have hresponse : ofResponseWithout (fun _ => none) = fun _ => ofResponse := by
    funext r response
    rw [ofResponseWithout, hchain, mapIdx_eq_map]
    rfl
  rw [ofBatchWithout, hresponse, mapIdx_eq_map]
  rfl

theorem forall₂_zipIdx_mapIdx {α : Type} {renders : α × Nat → Value → Prop} {write : Nat → α → Value}
    (items : List α) (h : ∀ index item, renders (item, index) (write index item)) :
    List.Forall₂ renders items.zipIdx (items.mapIdx write) := by
  rw [List.mapIdx_eq_zipIdx_map]
  exact List.forall₂_map_right_iff.2 (List.forall₂_same.2 fun item _ => h item.2 item.1)

theorem renders_ofAttemptWithout (r c a : Nat) (attempt : Attempt) :
    RendersAttemptWithout omits r c (attempt, a) (ofAttemptWithout omits r c a attempt) := by
  have hid : ∀ n : Int64, RendersInt n (ofInt n) := fun _ => .literal
  apply Listed.renders
  rw [List.append_assoc, List.append_assoc]
  exact .memberWithout _ (hid _) (.memberWithout _ (hid _) (listed_attemptDetails attempt))

theorem renders_ofChainWithout (r c : Nat) (chain : Chain) :
    RendersChainWithout omits r (chain, c) (ofChainWithout omits r c chain) := by
  have hattempts := forall₂_zipIdx_mapIdx chain.attempts fun a attempt =>
    renders_ofAttemptWithout omits r c a attempt
  apply Listed.renders
  rw [List.append_assoc, List.append_nil]
  exact .written (.inl ⟨hattempts⟩) (listed_memoFlags chain)

theorem renders_ofResponseWithout (r : Nat) (response : Response) :
    RendersResponseWithout omits (response, r) (ofResponseWithout omits r response) := by
  have hchains := forall₂_zipIdx_mapIdx response.chains fun c chain =>
    renders_ofChainWithout omits r c chain
  apply Listed.renders
  rw [List.append_assoc, List.append_nil]
  exact .memberWithout _ (renders_ofRequest response.request) (.written (.inl ⟨hchains⟩) .nil)

theorem renders_ofBatchWithout (batch : Batch) :
    RendersBatchWithout omits batch (ofBatchWithout omits batch) := by
  have hresponses := forall₂_zipIdx_mapIdx batch.responses fun r response =>
    renders_ofResponseWithout omits r response
  exact Listed.renders (.written (.inl ⟨hresponses⟩) .nil)

theorem plainMembers_memberWithout {name : String} {value : Value} (h : value.Plain)
    (omission : Option Omission) : PlainMembers (memberWithout name value omission) := by
  rcases omission with _ | _ | _
  · exact PlainMembers.member_iff.2 h
  · exact .nil
  · exact PlainMembers.member_iff.2 .null

theorem plain_mapIdx {α : Type} {write : Nat → α → Value} (h : ∀ index item, (write index item).Plain)
    (items : List α) : (Value.array (items.mapIdx write) true).Plain := by
  refine .array fun value hvalue => ?_
  obtain ⟨index, hindex, rfl⟩ := List.mem_mapIdx.1 hvalue
  exact h index _

theorem plainMembers_attemptDetails (attempt : Attempt) : PlainMembers (attemptDetails attempt) := by
  simp [attemptDetails, plainMembers_listMember plain_ofFuzzyTest, plainMembers_listMember plain_ofUnitTest]

theorem plain_ofBatchWithout (batch : Batch) : (ofBatchWithout omits batch).Plain := by
  have hattempt : ∀ r c a attempt, (ofAttemptWithout omits r c a attempt).Plain := by
    intro r c a attempt
    apply PlainMembers.object
    simp [plainMembers_memberWithout, plainMembers_attemptDetails]
  have hchain : ∀ r c chain, (ofChainWithout omits r c chain).Plain := by
    intro r c chain
    apply PlainMembers.object
    simp [plain_mapIdx (hattempt r c), plain_ofList plain_bool]
  have hresponse : ∀ r response, (ofResponseWithout omits r response).Plain := by
    intro r response
    apply PlainMembers.object
    simp [plainMembers_memberWithout, plain_ofRequest, plain_mapIdx (hchain r)]
  apply PlainMembers.object
  simp [plain_mapIdx hresponse]

end

/-! ### What a rendering has at its fields -/

section

variable {entries : List Entry} {entry : Entry} {named respelled members : List Member}
  {names : List String} {document : Value}

theorem mem_of_listed (h : Listed entries named) (hentry : entry ∈ entries)
    (hkept : ¬entry.omittable) : ∃ value, entry.renders value ∧ (some entry.name, value) ∈ named := by
  induction h with
  | nil => cases hentry
  | omitted homitted _ ih =>
    rcases List.mem_cons.1 hentry with rfl | hentry
    · exact absurd homitted hkept
    · exact ih hentry
  | written hvalue _ ih =>
    rcases List.mem_cons.1 hentry with rfl | hentry
    · exact ⟨_, hvalue, List.mem_cons_self ..⟩
    · obtain ⟨value, hrenders, hmem⟩ := ih hentry
      exact ⟨value, hrenders, List.mem_cons_of_mem _ hmem⟩

theorem exists_mem_of_forall₂ {α β : Type} {R : α → β → Prop} {as : List α} {bs : List β}
    (h : List.Forall₂ R as bs) : ∀ a ∈ as, ∃ b ∈ bs, R a b := by
  induction h with
  | nil => exact List.forall_mem_nil _
  | cons hhead _ ih =>
    refine List.forall_mem_cons.2 ⟨⟨_, List.mem_cons_self .., hhead⟩, fun a ha => ?_⟩
    obtain ⟨b, hb, hab⟩ := ih a ha
    exact ⟨b, List.mem_cons_of_mem _ hb, hab⟩

/-- A field that may not be left out has one of its values. -/
theorem atField_of_renders (h : RendersRecord entries document) (hentry : entry ∈ entries)
    (hkept : ¬entry.omittable) :
    ∃ value, entry.renders value ∧ AtField names entry.name value document := by
  obtain @⟨named, respelled, foreign, members, hlisted, hrespelled, _, hperm⟩ := h
  obtain ⟨value, hrenders, hmem⟩ := mem_of_listed hlisted hentry hkept
  obtain ⟨member, hmember, name, hname, hfor, hvalue⟩ := exists_mem_of_forall₂ hrespelled _ hmem
  cases hname
  exact ⟨value, hrenders,
    .named (hperm.mem_iff.2 (List.mem_append_left _ hmember)) hfor hvalue⟩

/-- Of a list that is not empty, every item stands in the document. -/
theorem item_of_renders {α : Type} {renders : α → Value → Prop} {items : List α} {name : String}
    (h : RendersRecord entries document) (hentry : .list name renders items ∈ entries) {item : α}
    (hitem : item ∈ items) :
    ∃ values value, AtField names name (.array values true) document ∧ value ∈ values
      ∧ renders item value := by
  have hne : items ≠ [] := List.ne_nil_of_mem hitem
  obtain ⟨_, hvalue | ⟨hempty, _⟩, hat⟩ := @atField_of_renders _ _ names _ h hentry hne
  · obtain @⟨values, hvalues⟩ := hvalue
    obtain ⟨value, hmem, hrenders⟩ := exists_mem_of_forall₂ hvalues item hitem
    exact ⟨values, value, hat, hmem, hrenders⟩
  · exact absurd hempty hne

/-- Every member for a field has one of the values that the record may give the field. -/
theorem renders_of_isFor {members : List Member} {closed : Bool}
    (h : RendersRecord entries (.object members closed))
    (hapart : (entries.map Entry.name).Pairwise fun first second =>
      ∀ key ∈ keys first, key ∉ keys second) (hentry : entry ∈ entries) :
    ∀ member ∈ members, IsFor entry.name member → entry.renders member.2 := by
  obtain @⟨named, respelled, foreign, _, hlisted, hrespelled, hforeign, hperm⟩ := h
  intro member hmember hfor
  obtain ⟨key, hkey, hsame⟩ := hfor
  rcases List.mem_append.1 (hperm.mem_iff.1 hmember) with hmember | hmember
  · obtain ⟨source, hsource, name, hname, ⟨other, hother, hmemberKey⟩, hvalue⟩ :=
      exists_mem_of_forall₂ hrespelled.flip member hmember
    obtain ⟨found, hfound, hfoundName, hrenders⟩ := hlisted.exists_entry hsource
    rw [hname] at hfoundName
    cases hfoundName
    rw [hsame] at hmemberKey
    cases hmemberKey
    have hsymmetric : Std.Symm fun first second : Entry =>
        ∀ key ∈ keys first.name, key ∉ keys second.name :=
      ⟨fun _ _ h key hsecond hfirst => h key hfirst hsecond⟩
    have hentries := List.pairwise_map.1 hapart
    by_cases hentry' : found = entry
    · rw [hvalue, ← hentry']
      exact hrenders
    · exact absurd hkey (hentries.forall hfound hentry hentry' key hother)
  · obtain ⟨⟨other, hother, hnone⟩, _⟩ := hforeign member hmember
    rw [hsame] at hother
    cases hother
    exact absurd hkey (hnone entry hentry)

/-- A record that leaves out a required field, or sets it to null, lacks it. -/
theorem lacks_of_without {kind : Kind} {record : Value} {omission : Option Omission}
    (hrecord : RecordIn document kind record) (h : RendersRecord entries record)
    (hapart : (entries.map Entry.name).Pairwise fun first second =>
      ∀ key ∈ keys first, key ∉ keys second) (hentry : entry.without omission ∈ entries)
    (homits : omission.isSome = true) (hrequired : entry.name ∈ kind.required) : Lacks document := by
  have hobject : ∃ members, record = .object members true := by
    cases h
    exact ⟨_, rfl⟩
  obtain ⟨members, rfl⟩ := hobject
  have hrenders := renders_of_isFor h hapart hentry
  rw [Entry.without_name] at hrenders
  refine ⟨kind, members, true, hrecord, entry.name, hrequired, fun member hmember hfor => ?_⟩
  have hvalue := hrenders member hmember hfor
  rcases omission with _ | _ | _
  · cases homits
  · exact hvalue.elim
  · exact hvalue

end

/-! ### A document without a required field lacks it -/

section

variable {omits : Required → Option Omission} {batch : Batch} {document : Value}

/-- One omission anywhere is enough, whatever else is left out. -/
theorem lacks_of_rendersBatchWithout {field : Required} (hfield : field.IsIn batch)
    (homits : (omits field).isSome = true) (h : RendersBatchWithout omits batch document) :
    Lacks document := by
  have hresponses : ∀ {r response}, batch.responses[r]? = some response →
      ∃ record, RecordIn document .response record
        ∧ RendersRecord (responseEntriesWithout omits r response) record := by
    intro r response hresponse
    obtain ⟨values, record, hat, hmem, hrecord⟩ := item_of_renders h (List.mem_cons_self ..)
      (List.mk_mem_zipIdx_iff_getElem?.2 hresponse)
    exact ⟨record, .item .batch (List.mem_cons_self ..) hat hmem, hrecord⟩
  have hattempts : ∀ {r c a attempt}, batch.attempt? r c a = some attempt →
      ∃ record, RecordIn document .attempt record
        ∧ RendersRecord (attemptEntriesWithout omits r c a attempt) record := by
    intro r c a attempt hattempt
    obtain ⟨response, chain, hresponse, hchain, hattempt⟩ := Batch.attempt?_eq_some_iff.1 hattempt
    obtain ⟨record, hin, hrecord⟩ := hresponses hresponse
    obtain ⟨values, record', hat, hmem, hrecord⟩ := item_of_renders hrecord
      (List.mem_cons_of_mem _ (List.mem_cons_self ..)) (List.mk_mem_zipIdx_iff_getElem?.2 hchain)
    have hin : RecordIn document .chain record' := .item hin (List.mem_cons_self ..) hat hmem
    obtain ⟨values, record, hat, hmem, hrecord⟩ := item_of_renders hrecord
      (List.mem_cons_self ..) (List.mk_mem_zipIdx_iff_getElem?.2 hattempt)
    exact ⟨record, .item hin (List.mem_cons_self ..) hat hmem, hrecord⟩
  have hapart : ∀ {r c a attempt}, ((attemptEntriesWithout omits r c a attempt).map
      Entry.name).Pairwise fun first second => ∀ key ∈ keys first, key ∉ keys second := by
    intro r c a attempt
    simp only [attemptEntriesWithout, List.map_cons, Entry.without_name]
    exact attemptSchema_lawful.apart
  cases field with
  | request r =>
    obtain ⟨response, hresponse⟩ := Option.isSome_iff_exists.1 hfield
    obtain ⟨record, hin, hrecord⟩ := hresponses hresponse
    refine lacks_of_without hin hrecord ?_ (List.mem_cons_self ..) homits (List.mem_cons_self ..)
    simp only [responseEntriesWithout, List.map_cons, Entry.without_name]
    exact responseSchema_lawful.apart
  | id r c a =>
    obtain ⟨attempt, hattempt⟩ := Option.isSome_iff_exists.1 hfield
    obtain ⟨record, hin, hrecord⟩ := hattempts hattempt
    exact lacks_of_without hin hrecord hapart (List.mem_cons_self ..) homits (List.mem_cons_self ..)
  | parentId r c a =>
    obtain ⟨attempt, hattempt⟩ := Option.isSome_iff_exists.1 hfield
    obtain ⟨record, hin, hrecord⟩ := hattempts hattempt
    exact lacks_of_without hin hrecord hapart (List.mem_cons_of_mem _ (List.mem_cons_self ..)) homits
      (List.mem_cons_of_mem _ (List.mem_cons_self ..))

end

end AttemptLedger.Json
