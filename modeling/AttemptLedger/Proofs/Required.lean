import AttemptLedger.Batch

/-!
# What a batch has to say

No encoding of a batch may leave out the request of a response or an id of an attempt. Each of them is
told by the places of its response, its chain and its attempt.
-/

namespace AttemptLedger

inductive Required
  | request (response : Nat)
  | id (response chain attempt : Nat)
  | parentId (response chain attempt : Nat)

/-- The attempt at a place of a batch. -/
def Batch.attempt? (batch : Batch) (response chain attempt : Nat) : Option Attempt :=
  batch.responses[response]?.bind fun response =>
    response.chains[chain]?.bind fun chain => chain.attempts[attempt]?

/-- Whether the batch has the response or the attempt that requires the field. -/
def Required.IsIn (batch : Batch) : Required → Prop
  | .request response => batch.responses[response]?.isSome = true
  | .id response chain attempt | .parentId response chain attempt =>
    (batch.attempt? response chain attempt).isSome = true

theorem mapIdx_eq_map {α β : Type} (f : α → β) (as : List α) : (as.mapIdx fun _ a => f a) = as.map f :=
  List.mapIdx_eq_iff.2 fun _ => List.getElem?_map

theorem mem_mapIdx_of_getElem? {α β : Type} {f : Nat → α → β} {as : List α} {i : Nat} {a : α}
    (h : as[i]? = some a) : f i a ∈ as.mapIdx f := by
  refine List.mem_of_getElem? (i := i) ?_
  rw [List.getElem?_mapIdx, h, Option.map_some]

theorem Batch.attempt?_eq_some_iff {batch : Batch} {r c a : Nat} {attempt : Attempt} :
    batch.attempt? r c a = some attempt
      ↔ ∃ response chain, batch.responses[r]? = some response ∧ response.chains[c]? = some chain
        ∧ chain.attempts[a]? = some attempt := by
  simp only [attempt?, Option.bind_eq_some_iff]
  constructor
  · rintro ⟨response, hresponse, chain, hchain, hattempt⟩
    exact ⟨response, chain, hresponse, hchain, hattempt⟩
  · rintro ⟨response, chain, hresponse, hchain, hattempt⟩
    exact ⟨response, hresponse, chain, hchain, hattempt⟩

end AttemptLedger
