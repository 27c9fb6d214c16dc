import AttemptLedger.Proofs.Json.Omission
import AttemptLedger.Proofs.Truncation
import AttemptLedger.Proofs.Wire.Omission

/-!
# Batches that do not say what they have to

Neither encoding makes up the request of a response or an id of an attempt: where one of them is left out
anywhere, nothing is read. Nor does a document choose between two values of one field.
-/

namespace AttemptLedger.Batch

/-- Encodings of the batch without some of the required fields are malformed, be the bytes without their
records, whose length a machine word can tell, or any text of any rendering without their members or
with null for them. And so is every text of a document, and with it every rendering of any batch, in
which an object names one of its fields twice. -/
theorem malformed_of_omitted_or_repeated (batch : Batch) :
    (∀ omits : Required → Bool, (∃ field : Required, field.IsIn batch ∧ omits field = true) →
        (Wire.encodeWithout omits batch).length < 2 ^ 64 →
        ∃ cause, ofBytes (Wire.encodeWithout omits batch) = .error (.malformed cause))
      ∧ (∀ omits : Required → Option Json.Omission,
          (∃ field : Required, field.IsIn batch ∧ (omits field).isSome = true) →
          ∀ document text, Json.RendersBatchWithout omits batch document →
            Json.Layout document.tokens text.toList →
            ∃ cause, ofText text = .error (.malformed cause))
      ∧ ∀ document text, document.Whole → Json.Repeats document →
          Json.Layout document.tokens text.toList →
          ∃ cause, ofText text = .error (.malformed cause) := by
  refine ⟨?_, ?_, ?_⟩
  · rintro omits ⟨field, hfield, homits⟩ hlength
    refine malformed_of_ofBytes_ne_ok fun other hread => ?_
    exact Wire.decode_without_ne_ok hfield homits hlength other (ofBytes_eq_ok_iff.1 hread)
  · rintro omits ⟨field, hfield, homits⟩ document text hrenders htext
    refine malformed_of_ofText_ne_ok fun other hread => ?_
    have hlacks := Json.lacks_of_rendersBatchWithout hfield homits hrenders
    exact Json.not_takes_of_lacks hlacks (Json.takes_of_decode
      (Json.whole_of_rendersBatchWithout hrenders) htext (ofText_eq_ok_iff.1 hread))
  · intro document text hwhole hrepeats htext
    refine malformed_of_ofText_ne_ok fun other hread => ?_
    exact Json.not_takes_of_repeats hrepeats
      (Json.takes_of_decode hwhole htext (ofText_eq_ok_iff.1 hread))

/-- One attempt: its request and its id left out of the bytes, its request left out of its text and its
parent's id null there, and its id named by both keys. -/
theorem malformed_of_omitted_or_repeated_attempt :
    let batch : Batch := ⟨[⟨{ id := "r" }, [⟨[{ id := 7, parentId := -1 }], .empty⟩]⟩]⟩
    let fromBytes : Required → Bool
      | .parentId _ _ _ => false
      | _ => true
    let fromText : Required → Option Json.Omission
      | .request _ => some .removed
      | .id _ _ _ => none
      | .parentId _ _ _ => some .nulled
    let attempt : Json.Value := .object [(some "edge_id", Json.ofInt 7),
      (some "parent_edge_id", Json.ofInt (-1)), (some "edgeId", Json.ofInt 7)] true
    let chain : Json.Value := .object [(some "translation_edges", .array [attempt] true)] true
    let response : Json.Value := .object [(some "translation_request", .object [] true),
      (some "paths", .array [chain] true)] true
    let document : Json.Value := .object [(some "translationResponses", .array [response] true)] true
    (Wire.encodeWithout fromBytes batch).length < 2 ^ 64
      ∧ (∃ cause, ofBytes (Wire.encodeWithout fromBytes batch) = .error (.malformed cause))
      ∧ (∃ cause, ofText (.ofList ((Json.ofBatchWithout fromText batch).print 0))
        = .error (.malformed cause))
      ∧ ∃ cause, ofText (.ofList (document.print 0)) = .error (.malformed cause) := by
  intro batch fromBytes fromText attempt chain response document
  obtain ⟨hbytes, htext, hdocument⟩ := malformed_of_omitted_or_repeated batch
  have hlength : (Wire.encodeWithout fromBytes batch).length < 2 ^ 64 := by decide +kernel
  have hattempt : attempt.Plain := Json.PlainMembers.object (by simp [Json.PlainMembers])
  have hchain : chain.Plain :=
    Json.PlainMembers.object (Json.PlainMembers.member_iff.2 (.array (List.forall_mem_singleton.2 hattempt)))
  have hrequest : (Json.Value.object [] true).Plain := Json.PlainMembers.object .nil
  have hresponse : response.Plain :=
    Json.PlainMembers.object (List.forall_mem_cons.2 ⟨⟨rfl, hrequest⟩,
      Json.PlainMembers.member_iff.2 (.array (List.forall_mem_singleton.2 hchain))⟩)
  have hplain : document.Plain :=
    Json.PlainMembers.object (Json.PlainMembers.member_iff.2 (.array (List.forall_mem_singleton.2 hresponse)))
  have hfirst : Json.RecordIn document .response response :=
    .item .batch (List.mem_cons_self ..)
      (.named (List.mem_cons_self ..) ⟨"translationResponses", by decide +kernel, rfl⟩ rfl)
      (List.mem_cons_self ..)
  have hsecond : Json.RecordIn document .chain chain :=
    .item hfirst (List.mem_cons_self ..)
      (.named (List.mem_cons_of_mem _ (List.mem_cons_self ..)) ⟨"paths", by decide +kernel, rfl⟩ rfl)
      (List.mem_cons_self ..)
  have hthird : Json.RecordIn document .attempt attempt :=
    .item hsecond (List.mem_cons_self ..)
      (.named (List.mem_cons_self ..) ⟨"translation_edges", by decide +kernel, rfl⟩ rfl)
      (List.mem_cons_self ..)
  have hrepeats : Json.Repeats document :=
    ⟨.attempt, _, true, hthird, "edge_id", List.mem_cons_self .., by decide +kernel⟩
  exact ⟨hlength, hbytes fromBytes ⟨.request 0, rfl, rfl⟩ hlength,
    htext fromText ⟨.request 0, rfl, rfl⟩ _ _ (Json.renders_ofBatchWithout fromText batch)
      (Json.layout_print (Json.plain_ofBatchWithout fromText batch)),
    hdocument document _ hplain.whole hrepeats (Json.layout_print hplain)⟩

end AttemptLedger.Batch
