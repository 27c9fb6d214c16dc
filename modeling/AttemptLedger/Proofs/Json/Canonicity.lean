import AttemptLedger.Json.Decode
import AttemptLedger.Proofs.Canonical
import AttemptLedger.Proofs.Outcome

/-!
# Batches that were read from documents are canonical

What every field of a record keeps, taking in a record keeps, be it an object or an array. The status
of an attempt comes from a text in every draft, whichever members are there, and a draft is finished
with a suite that is not empty; so every batch that a document stands for is canonical.
-/

namespace AttemptLedger.Json

section

variable {σ α : Type} {P : σ → Prop} {Q : α → Prop}

theorem refuse_ne_ok {wanted : String} {value : Value} {a : α} : refuse wanted value ≠ .ok a := by
  intro h
  obtain ⟨_, _, hfault⟩ := bind_eq_ok_iff.1 h
  cases hfault

/-- All values that can be taken in have the property. -/
def Take.Gives (take : Take α) (Q : α → Prop) : Prop := ∀ room value a, take room value = .ok a → Q a

theorem Take.Gives.orDefault {take : Take α} {default : α} (hdefault : Q default) (h : take.Gives Q) :
    (Take.orDefault default take).Gives Q := by
  intro room value a ha
  cases value with
  | null =>
    cases ha
    exact hdefault
  | _ => exact h room _ a ha

theorem Take.Gives.list {item : Take α} (h : item.Gives Q) :
    (Take.list item).Gives fun items => ∀ a ∈ items, Q a := by
  intro room value items hitems
  cases value with
  | array values closed =>
    rw [Take.list] at hitems
    split at hitems
    · cases hitems
    · split at hitems
      · cases hitems
      · next read hread =>
        split at hitems
        · cases hitems
          exact forall_mem_of_mapM (fun value _ => h (room - 1) value) hread
        · cases hitems
  | _ => exact absurd hitems refuse_ne_ok

/-- A field that keeps a property of records, whatever value it takes in. -/
def Field.Maintains (field : Field σ) (P : σ → Prop) : Prop :=
  field.take.Gives fun change => ∀ s, P s → P (change s)

theorem maintains_of {name : String} {otherName : Option String} {take : Take α} {put : α → σ → σ}
    (htake : take.Gives Q) (hput : ∀ a s, Q a → P s → P (put a s)) :
    (Field.of name otherName take put).Maintains P := by
  intro room value change hchange s hs
  obtain ⟨a, ha, rfl⟩ := map_eq_ok_iff.1 hchange
  exact hput a s (htake room value a ha) hs

/-- A field that writes nothing that the property is about. -/
theorem maintains_other {name : String} {otherName : Option String} {take : Take α}
    {put : α → σ → σ} (hput : ∀ a s, P s → P (put a s)) :
    (Field.of name otherName take put).Maintains P :=
  maintains_of (Q := fun _ => True) (fun _ _ _ _ => trivial) fun a s _ => hput a s

theorem require_maintains_iff {field : Field σ} : field.require.Maintains P ↔ field.Maintains P :=
  Iff.rfl

theorem maintains_list {name : String} {otherName : Option String} {item : Take α}
    {put : List α → σ → σ} (hitem : item.Gives Q)
    (hput : ∀ items s, (∀ a ∈ items, Q a) → P s → P (put items s)) :
    (listField name otherName item put).Maintains P :=
  maintains_of (.orDefault (List.forall_mem_nil Q) hitem.list) hput

variable {schema : Schema σ}

theorem takeMembers_maintains (h : ∀ field ∈ schema.fields, field.Maintains P) {room : Nat}
    {members : List (Option String × Value)} {seen met : List String} {s t : σ}
    (htake : schema.takeMembers room members seen s = .ok (met, t)) (hs : P s) : P t := by
  fun_induction Schema.takeMembers schema room members seen s with
  | case1 =>
    cases htake
    exact hs
  | case3 _ _ _ _ _ _ _ ih => exact ih htake hs
  | case7 key value members seen s field hfield _ change hchange ih =>
    exact ih htake (h field (List.mem_of_find?_eq_some hfield) room value change hchange s hs)
  | _ => cases htake

theorem takeItems_maintains {room index : Nat} {closed : Bool} {fields : List (Field σ)}
    (h : ∀ field ∈ fields, field.Maintains P) {items : List Value} {s t : σ}
    (htake : schema.takeItems room closed index fields items s = .ok t) (hs : P s) : P t := by
  fun_induction Schema.takeItems schema room closed index fields items s with
  | case1 =>
    cases htake
    exact hs
  | case6 index field fields s _ _ ih => exact ih (List.forall_mem_cons.1 h).2 htake hs
  | case8 index field fields value values s change hchange ih =>
    obtain ⟨hfield, hfields⟩ := List.forall_mem_cons.1 h
    exact ih hfields htake (hfield room value change hchange s hs)
  | _ => cases htake

/-- The run over a record: what holds of the start and is kept by every field holds at the end. -/
theorem gives_take (h : ∀ field ∈ schema.fields, field.Maintains P) {start : σ} (hstart : P start) :
    (schema.take start).Gives P := by
  intro room value t htake
  cases value with
  | object members closed =>
    rw [Schema.take] at htake
    split at htake
    · cases htake
    · split at htake
      · cases htake
      · next met s hmembers =>
        have hs := takeMembers_maintains h hmembers hstart
        split at htake
        · cases htake
        · split at htake
          · cases htake
          · cases htake
            exact hs
  | array items closed =>
    rw [Schema.take] at htake
    split at htake
    · cases htake
    · exact takeItems_maintains h htake hstart
  | _ => exact absurd htake refuse_ne_ok

end

/-! ### From the attempt to the batch -/

/-- The status of the attempt comes from a text. -/
def AttemptDraft.StatusRead (draft : AttemptDraft) : Prop :=
  ∃ text, draft.attempt.status = .ofText text

theorem gives_attempt : (attemptSchema.take {}).Gives AttemptDraft.StatusRead := by
  refine gives_take ?_ ⟨"", rfl⟩
  simp only [attemptSchema, List.forall_mem_cons, require_maintains_iff]
  have hother : ∀ {α : Type} {name : String} {otherName : Option String} {take : Take α}
      {put : α → Attempt → Attempt}, (∀ a attempt, (put a attempt).status = attempt.status) →
      (Field.of name otherName take (AttemptDraft.update put)).Maintains AttemptDraft.StatusRead := by
    intro α name otherName take put hput
    refine maintains_other fun a draft hs => ?_
    rwa [AttemptDraft.StatusRead, AttemptDraft.update, hput]
  refine ⟨hother fun _ _ => rfl, hother fun _ _ => rfl, hother fun _ _ => rfl, hother fun _ _ => rfl,
    hother fun _ _ => rfl, maintains_other fun text _ _ => ⟨text, rfl⟩, hother fun _ _ => rfl,
    hother fun _ _ => rfl, maintains_other fun _ _ hs => hs, maintains_other fun _ _ hs => hs,
    hother fun _ _ => rfl, hother fun _ _ => rfl, hother fun _ _ => rfl, hother fun _ _ => rfl,
    hother fun _ _ => rfl, hother fun _ _ => rfl, List.forall_mem_nil _⟩

theorem AttemptDraft.finish_isCanonical {draft : AttemptDraft} (h : draft.StatusRead) :
    draft.finish.IsCanonical :=
  ⟨h, Suite.ofTests_ne_empty draft.fuzzyTests draft.unitTests⟩

theorem gives_chain :
    (chainSchema.take {}).Gives fun draft => ∀ attempt ∈ draft.attempts, attempt.StatusRead := by
  refine gives_take ?_ (List.forall_mem_nil _)
  simp only [chainSchema, List.forall_mem_cons]
  exact ⟨maintains_list gives_attempt fun _ _ hattempts _ => hattempts,
    maintains_other fun _ _ hs => hs, List.forall_mem_nil _⟩

theorem ChainDraft.finish_isCanonical {draft : ChainDraft} {chain : Chain}
    (hdraft : ∀ attempt ∈ draft.attempts, attempt.StatusRead) (h : draft.finish = .ok chain) :
    ∀ attempt ∈ chain.attempts, attempt.IsCanonical := by
  unfold ChainDraft.finish at h
  split at h
  · cases h
    exact List.forall_mem_map.2 fun attempt hattempt =>
      AttemptDraft.finish_isCanonical (hdraft attempt hattempt)
  · cases h

theorem gives_response :
    (responseSchema.take {}).Gives fun draft =>
      ∀ chain ∈ draft.chains, ∀ attempt ∈ chain.attempts, attempt.StatusRead := by
  refine gives_take ?_ (List.forall_mem_nil _)
  simp only [responseSchema, List.forall_mem_cons, require_maintains_iff]
  exact ⟨maintains_other fun _ _ hs => hs, maintains_list gives_chain fun _ _ hchains _ => hchains,
    List.forall_mem_nil _⟩

theorem ResponseDraft.finish_isCanonical {draft : ResponseDraft} {response : Response}
    (hdraft : ∀ chain ∈ draft.chains, ∀ attempt ∈ chain.attempts, attempt.StatusRead)
    (h : draft.finish = .ok response) :
    ∀ chain ∈ response.chains, ∀ attempt ∈ chain.attempts, attempt.IsCanonical := by
  obtain ⟨chains, hchains, rfl⟩ := map_eq_ok_iff.1 h
  exact forall_mem_of_mapM (fun chain hchain _ => ChainDraft.finish_isCanonical (hdraft chain hchain))
    hchains

theorem gives_batch :
    (batchSchema.take []).Gives fun drafts => ∀ response ∈ drafts,
      ∀ chain ∈ response.chains, ∀ attempt ∈ chain.attempts, attempt.StatusRead := by
  refine gives_take ?_ (List.forall_mem_nil _)
  simp only [batchSchema, List.forall_mem_cons]
  exact ⟨maintains_list gives_response fun _ _ hresponses _ => hresponses, List.forall_mem_nil _⟩

/-- Whatever document a batch was read from, the batch is canonical. -/
theorem decode_isCanonical {text : String} {batch : Batch} (h : decode text = .ok batch) :
    batch.IsCanonical := by
  rw [decode, Document.toBatch] at h
  split at h
  · cases h
  · next drafts hdrafts =>
    have hread := gives_batch _ _ _ hdrafts
    split at h
    · cases h
    · obtain ⟨responses, hresponses, rfl⟩ := map_eq_ok_iff.1 h
      exact forall_mem_of_mapM
        (fun draft hdraft _ => ResponseDraft.finish_isCanonical (hread draft hdraft)) hresponses

end AttemptLedger.Json
