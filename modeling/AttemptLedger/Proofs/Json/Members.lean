import AttemptLedger.Proofs.Json.Rendering
import AttemptLedger.Proofs.Json.Written
import Mathlib.Data.List.Pairwise

/-!
# Members in any order

The fields of a record that goes by its two keys only put their values into different parts of the
record, so members may change places. A key only decides which field a member is for, and what is no
field is passed over. A record that was written in the order of its fields is therefore taken in just
as well in any other order, under other keys and with other members between.
-/

namespace AttemptLedger.Json

variable {σ α β : Type}

/-! ### Fields -/

/-- Fields whose values may be put into a record in either order. -/
def Field.Commutes (first second : Field σ) : Prop :=
  ∀ room value other change set, first.take room value = .ok change →
    second.take room other = .ok set → ∀ s, set (change s) = change (set s)

theorem commutes_of {first second : String} {firstOther secondOther : Option String} {take : Take α}
    {get : Take β} {put : α → σ → σ} {set : β → σ → σ} (h : ∀ a b s, set b (put a s) = put a (set b s)) :
    (Field.of first firstOther take put).Commutes (.of second secondOther get set) := by
  intro room value other change change' hvalue hother s
  obtain ⟨a, _, rfl⟩ := map_eq_ok_iff.1 hvalue
  obtain ⟨b, _, rfl⟩ := map_eq_ok_iff.1 hother
  exact h a b s

theorem require_commutes_iff {first second : Field σ} :
    first.require.Commutes second ↔ first.Commutes second := Iff.rfl

theorem commutes_require_iff {first second : Field σ} :
    first.Commutes second.require ↔ first.Commutes second := Iff.rfl

/-- Every field goes by the two keys of its name, no two by the same one, and all of them commute. -/
structure Schema.Lawful (schema : Schema σ) : Prop where
  keyed : ∀ field ∈ schema.fields, keys field.name = [field.name, field.otherName.getD field.name]
  apart : (schema.fields.map Field.name).Pairwise fun first second =>
    ∀ key ∈ keys first, key ∉ keys second
  commutes : schema.fields.Pairwise Field.Commutes

namespace Schema

variable {schema : Schema σ}

theorem goesBy_iff (h : schema.Lawful) {field : Field σ} (hfield : field ∈ schema.fields)
    (key : String) :
    (field.name == key || field.otherName == some key) = true ↔ key ∈ keys field.name := by
  rw [h.keyed field hfield]
  cases field.otherName with
  | none => simpa using eq_comm
  | some other =>
    have hname : field.name = key ↔ key = field.name := eq_comm
    have hother : other = key ↔ key = other := eq_comm
    simp [hname, hother]

theorem field?_of_mem_keys (h : schema.Lawful) {field : Field σ} (hfield : field ∈ schema.fields)
    {key : String} (hkey : key ∈ keys field.name) : schema.field? key = some field := by
  obtain ⟨before, after, hfields⟩ := List.append_of_mem hfield
  have hapart := h.apart
  rw [hfields, List.map_append, List.map_cons] at hapart
  have hbefore : ∀ earlier ∈ before,
      ¬(earlier.name == key || earlier.otherName == some key) = true := by
    intro earlier hearlier hgoes
    have hmem : earlier ∈ schema.fields := by
      rw [hfields]
      exact List.mem_append_left _ hearlier
    exact (List.pairwise_append.1 hapart).2.2 _ (List.mem_map_of_mem hearlier) _
      (List.mem_cons_self ..) key ((goesBy_iff h hmem key).1 hgoes) hkey
  rw [field?, hfields, List.find?_append, List.find?_eq_none.2 hbefore, Option.none_or]
  exact List.find?_cons_of_pos ((goesBy_iff h hfield key).2 hkey)

theorem field?_eq_none (h : schema.Lawful) {key : String}
    (hkey : ∀ field ∈ schema.fields, key ∉ keys field.name) : schema.field? key = none :=
  List.find?_eq_none.2 fun field hfield hgoes => hkey field hfield ((goesBy_iff h hfield key).1 hgoes)

theorem mem_of_field? {key : String} {field : Field σ} (h : schema.field? key = some field) :
    field ∈ schema.fields := List.mem_of_find?_eq_some h

theorem commutes_of_ne (h : schema.Lawful) {first second : Field σ}
    (hfirst : first ∈ schema.fields) (hsecond : second ∈ schema.fields)
    (hne : first.name ≠ second.name) : first.Commutes second := by
  have hsymmetric : Std.Symm (@Field.Commutes σ) :=
    ⟨fun _ _ h room value other change set hchange hset s =>
      (h room other value set change hset hchange s).symm⟩
  exact h.commutes.forall hfirst hsecond fun hsame => hne (congrArg Field.name hsame)

/-! ### Members one after the other -/

/-- A member that is passed over, since no field goes by its key. -/
def Passes (schema : Schema σ) (member : Member) : Prop :=
  ∃ key, member.1 = some key ∧ schema.field? key = none ∧ member.2.isWhole = true

/-- A member for a field that makes a change of its value. -/
def Puts (schema : Schema σ) (room : Nat) (member : Member) (field : Field σ) (change : σ → σ) :
    Prop :=
  ∃ key, member.1 = some key ∧ schema.field? key = some field
    ∧ field.take room member.2 = .ok change

variable {room : Nat} {member : Member} {members : List Member} {seen met : List String} {s t : σ}

theorem takeMembers_of_passes (h : schema.Passes member) :
    schema.takeMembers room (member :: members) seen s = schema.takeMembers room members seen s := by
  obtain ⟨_, value⟩ := member
  obtain ⟨key, rfl, hnone, hwhole⟩ := h
  rw [takeMembers, hnone]
  exact if_pos hwhole

theorem takeMembers_of_puts {field : Field σ} {change : σ → σ}
    (h : schema.Puts room member field change) (hnew : field.name ∉ seen) :
    schema.takeMembers room (member :: members) seen s
      = schema.takeMembers room members (field.name :: seen) (change s) := by
  obtain ⟨_, value⟩ := member
  obtain ⟨key, rfl, hfield, htake⟩ := h
  rw [takeMembers, hfield]
  dsimp only at htake ⊢
  rw [if_neg hnew, htake]

theorem takeMembers_cons_cases
    (h : schema.takeMembers room (member :: members) seen s = .ok (met, t)) :
    schema.Passes member
      ∨ ∃ field change, schema.Puts room member field change ∧ field.name ∉ seen := by
  obtain ⟨_ | key, value⟩ := member
  · cases h
  · rw [takeMembers] at h
    cases hfield : schema.field? key with
    | none =>
      rw [hfield] at h
      dsimp only at h
      split at h
      · next hwhole => exact .inl ⟨key, rfl, hfield, hwhole⟩
      · cases h
    | some field =>
      rw [hfield] at h
      dsimp only at h
      split at h
      · cases h
      · next hnew =>
        split at h
        · cases h
        · next change htake => exact .inr ⟨field, change, ⟨key, rfl, hfield, htake⟩, hnew⟩

theorem changes_commute (hlawful : schema.Lawful) {first second : Member} {field other : Field σ}
    {change set : σ → σ} (hfirst : schema.Puts room first field change)
    (hsecond : schema.Puts room second other set) (hne : field.name ≠ other.name) :
    set (change s) = change (set s) := by
  obtain ⟨_, _, hfield, htake⟩ := hfirst
  obtain ⟨_, _, hfield', htake'⟩ := hsecond
  exact commutes_of_ne hlawful (mem_of_field? hfield) (mem_of_field? hfield') hne room _ _ change set
    htake htake' s

/-- Which fields were met before counts, and not in which order. -/
theorem takeMembers_seen {other : List String} (hseen : ∀ name, name ∈ seen ↔ name ∈ other)
    (h : schema.takeMembers room members seen s = .ok (met, t)) :
    ∃ found, schema.takeMembers room members other s = .ok (found, t)
      ∧ ∀ name, name ∈ met ↔ name ∈ found := by
  induction members generalizing seen other s with
  | nil =>
    cases h
    exact ⟨other, rfl, hseen⟩
  | cons member members ih =>
    rcases takeMembers_cons_cases h with hpasses | ⟨field, change, hputs, hnew⟩
    · rw [takeMembers_of_passes hpasses] at h ⊢
      exact ih hseen h
    · have hnext : ∀ name, name ∈ field.name :: seen ↔ name ∈ field.name :: other := by
        intro name
        rw [List.mem_cons, List.mem_cons, hseen]
      rw [takeMembers_of_puts hputs hnew] at h
      rw [hseen] at hnew
      rw [takeMembers_of_puts hputs hnew]
      exact ih hnext h

/-- Two members side by side may change places: either one of them is passed over, or they are for
different fields. -/
theorem takeMembers_swap (hlawful : schema.Lawful) {first second : Member}
    (h : schema.takeMembers room (first :: second :: members) seen s = .ok (met, t)) :
    ∃ found, schema.takeMembers room (second :: first :: members) seen s = .ok (found, t)
      ∧ ∀ name, name ∈ met ↔ name ∈ found := by
  rcases takeMembers_cons_cases h with hpasses | ⟨field, change, hputs, hnew⟩
  · refine ⟨met, ?_, fun _ => Iff.rfl⟩
    rw [takeMembers_of_passes hpasses] at h
    rcases takeMembers_cons_cases h with hpasses' | ⟨field', change', hputs', hnew'⟩
    · rwa [takeMembers_of_passes hpasses', takeMembers_of_passes hpasses,
        ← takeMembers_of_passes hpasses']
    · rwa [takeMembers_of_puts hputs' hnew', takeMembers_of_passes hpasses,
        ← takeMembers_of_puts hputs' hnew']
  · rw [takeMembers_of_puts hputs hnew] at h
    rcases takeMembers_cons_cases h with hpasses' | ⟨field', change', hputs', hnew'⟩
    · refine ⟨met, ?_, fun _ => Iff.rfl⟩
      rwa [takeMembers_of_passes hpasses', takeMembers_of_puts hputs hnew,
        ← takeMembers_of_passes hpasses']
    · rw [takeMembers_of_puts hputs' hnew'] at h
      rw [List.mem_cons, not_or] at hnew'
      obtain ⟨hne, hnew'⟩ := hnew'
      have hfirst : field.name ∉ field'.name :: seen := by
        rw [List.mem_cons, not_or]
        exact ⟨Ne.symm hne, hnew⟩
      have hseen : ∀ name, name ∈ field'.name :: field.name :: seen
          ↔ name ∈ field.name :: field'.name :: seen := fun name =>
        (List.Perm.swap field.name field'.name seen).mem_iff
      rw [changes_commute hlawful hputs hputs' (Ne.symm hne)] at h
      rw [takeMembers_of_puts hputs' hnew', takeMembers_of_puts hputs hfirst]
      exact takeMembers_seen hseen h

/-- Members that are taken in are taken in alike in every other order. -/
theorem takeMembers_perm (hlawful : schema.Lawful) {others : List Member}
    (hperm : members.Perm others) (h : schema.takeMembers room members seen s = .ok (met, t)) :
    ∃ found, schema.takeMembers room others seen s = .ok (found, t)
      ∧ ∀ name, name ∈ met ↔ name ∈ found := by
  induction hperm generalizing seen met s with
  | nil => exact ⟨met, h, fun _ => Iff.rfl⟩
  | cons member _ ih =>
    rcases takeMembers_cons_cases h with hpasses | ⟨field, change, hputs, hnew⟩
    · rw [takeMembers_of_passes hpasses] at h ⊢
      exact ih h
    · rw [takeMembers_of_puts hputs hnew] at h ⊢
      exact ih h
  | swap first second members => exact takeMembers_swap hlawful h
  | trans _ _ ih ih' =>
    obtain ⟨found, hfound, hmet⟩ := ih h
    obtain ⟨last, hlast, hfound'⟩ := ih' hfound
    exact ⟨last, hlast, fun name => (hmet name).trans (hfound' name)⟩

theorem takeMembers_append {foreign : List Member} (hforeign : ∀ other ∈ foreign, schema.Passes other)
    (h : schema.takeMembers room members seen s = .ok (met, t)) :
    schema.takeMembers room (members ++ foreign) seen s = .ok (met, t) := by
  induction members generalizing seen s with
  | nil =>
    induction foreign with
    | nil => exact h
    | cons other foreign ih =>
      obtain ⟨hother, hforeign⟩ := List.forall_mem_cons.1 hforeign
      rw [List.nil_append, takeMembers_of_passes hother]
      exact ih hforeign
  | cons member members ih =>
    rw [List.cons_append]
    rcases takeMembers_cons_cases h with hpasses | ⟨field, change, hputs, hnew⟩
    · rw [takeMembers_of_passes hpasses] at h ⊢
      exact ih h
    · rw [takeMembers_of_puts hputs hnew] at h ⊢
      exact ih h

/-- Members under other keys of their fields are taken in alike. -/
theorem takeMembers_respelled (hlawful : schema.Lawful) {respelled : List Member}
    (hnames : ∀ member ∈ members, ∃ field ∈ schema.fields, member.1 = some field.name)
    (hrespelled : List.Forall₂ Respelled members respelled)
    (h : schema.takeMembers room members seen s = .ok (met, t)) :
    schema.takeMembers room respelled seen s = .ok (met, t) := by
  induction hrespelled generalizing seen s with
  | nil => exact h
  | @cons member other members others hmember _ ih =>
    obtain ⟨⟨known, hknown, hname⟩, hnames⟩ := List.forall_mem_cons.1 hnames
    obtain ⟨name, hsame, ⟨key, hkey, hother⟩, hvalue⟩ := hmember
    rw [hname] at hsame
    cases hsame
    have hfield : schema.field? known.name = some known :=
      field?_of_mem_keys hlawful hknown (List.mem_cons_self ..)
    rcases takeMembers_cons_cases h with hpasses | ⟨field, change, hputs, hnew⟩
    · obtain ⟨_, hsame, hnone, _⟩ := hpasses
      rw [hname] at hsame
      cases hsame
      rw [hfield] at hnone
      cases hnone
    · rw [takeMembers_of_puts hputs hnew] at h
      obtain ⟨_, hsame, hsome, htake⟩ := hputs
      rw [hname] at hsame
      cases hsame
      rw [hfield] at hsome
      cases hsome
      have hputs : schema.Puts room other known change :=
        ⟨key, hother, field?_of_mem_keys hlawful hknown hkey, hvalue ▸ htake⟩
      rw [takeMembers_of_puts hputs hnew]
      exact ih hnames h

theorem pairwise_apart (h : schema.Lawful) : schema.fields.Pairwise Field.Apart := by
  refine (List.pairwise_map.1 h.apart).imp_of_mem ?_
  intro first second hfirst hsecond hapart
  have hself : second.name ∈ keys second.name := List.mem_cons_self ..
  constructor
  · intro hname
    exact hapart second.name (hname ▸ List.mem_cons_self ..) hself
  · intro hother
    refine hapart second.name ?_ hself
    rw [h.keyed first hfirst, hother]
    exact List.mem_cons_of_mem _ (List.mem_cons_self ..)

end Schema

theorem isWhole_of_whole {value : Value} (h : value.Whole) : value.isWhole = true := by
  induction h with
  | @array items _ ih =>
    have hall : ∀ items : List Value, (∀ item ∈ items, item.isWhole = true) →
        Value.allWhole items = true := by
      intro items hitems
      induction items with
      | nil => rfl
      | cons item items ih =>
        obtain ⟨hitem, hitems⟩ := List.forall_mem_cons.1 hitems
        rw [Value.allWhole, hitem, ih hitems]
        rfl
    rw [Value.isWhole, hall items ih]
    rfl
  | @object members _ ih =>
    have hall : ∀ members : List Member, (∀ member ∈ members, member.2.isWhole = true) →
        Value.allMembersWhole members = true := by
      intro members hmembers
      induction members with
      | nil => rfl
      | cons member members ih =>
        obtain ⟨key, value⟩ := member
        obtain ⟨hvalue, hmembers⟩ := List.forall_mem_cons.1 hmembers
        rw [Value.allMembersWhole, hvalue, ih hmembers]
        rfl
    rw [Value.isWhole, hall members ih]
    rfl
  | _ => rfl

/-! ### Records -/

/-- The members of a record in the order of its fields make of the draft `s` one of which `P` holds. -/
def Reads (room : Nat) (fields : List (Field σ)) (entries : List Entry) (s : σ) (P : σ → Prop) : Prop :=
  ∀ members, Listed entries members → ∃ t, Writes room fields members s t ∧ P t

variable {schema : Schema σ} {entries : List Entry}

theorem passes_of_foreign (hlawful : schema.Lawful)
    (hnames : entries.map Entry.name = schema.fields.map Field.name) {other : Member}
    (h : Foreign entries other) : schema.Passes other := by
  obtain ⟨⟨key, hkey, hforeign⟩, hwhole⟩ := h
  refine ⟨key, hkey, Schema.field?_eq_none hlawful ?_, isWhole_of_whole hwhole⟩
  intro field hfield hmem
  have hname : field.name ∈ entries.map Entry.name := by
    rw [hnames]
    exact List.mem_map_of_mem hfield
  obtain ⟨entry, hentry, hsame⟩ := List.mem_map.1 hname
  rw [← hsame] at hmem
  exact hforeign entry hentry hmem

/-- A record that is taken in when it is written in the order of its fields is taken in however it is
rendered. -/
theorem take_of_renders (hlawful : schema.Lawful)
    (hnames : entries.map Entry.name = schema.fields.map Field.name) {room : Nat} {start : σ}
    {P : σ → Prop} (hreads : Reads room schema.fields entries start P) {value : Value}
    (h : RendersRecord entries value) :
    ∃ t, schema.take start (room + 1) value = .ok t ∧ P t := by
  obtain @⟨named, respelled, foreign, members, hlisted, hrespelled, hforeign, hperm⟩ := h
  obtain ⟨t, hwrites, ht⟩ := hreads named hlisted
  have hnew : ∀ field ∈ schema.fields, field.name ∉ ([] : List String) := fun _ _ => List.not_mem_nil
  obtain ⟨met, hnamed, _, hmet⟩ :=
    takeMembers_of_writes hwrites (Schema.pairwise_apart hlawful) (List.nil_append _).symm hnew
  have hknown := Schema.takeMembers_respelled hlawful (exists_field_of_writes hwrites) hrespelled hnamed
  have hall := Schema.takeMembers_append
    (fun other hother => passes_of_foreign hlawful hnames (hforeign other hother)) hknown
  obtain ⟨found, hfound, hsame⟩ := Schema.takeMembers_perm hlawful hperm.symm hall
  exact ⟨t, take_of_takeMembers hfound fun field hfield hrequired =>
    (hsame field.name).1 (hmet field hfield hrequired), ht⟩

end AttemptLedger.Json
