import AttemptLedger.Proofs.Json.Members
import AttemptLedger.Proofs.Json.RoundTrip
import AttemptLedger.Proofs.Text.Numeral

/-!
# Every rendering of a batch is read back

One lemma for each way of rendering a value, then one for each of the seven records. However a batch is
rendered, and however the rendering is spelled, its text is read back as the batch's canonical form.
-/

namespace AttemptLedger.Json

/-! ### Integers and flags -/

theorem integer?_ofNat {n : Nat} (h : n < 2 ^ 64) : (Number.ofInt n).integer? = some (n : Int) := by
  have hnegative : ¬((n : Int) < 0) := by omega
  have hsize : n < UInt64.size := h
  simp [Number.integer?, Number.ofInt, hnegative, hsize]

theorem isDecimal_toDigits (n : Nat) : Text.IsDecimal (Nat.toDigits 10 n) n := by
  have hdigits : ∀ c ∈ Nat.toDigits 10 n, c.isDigit = true := fun _ hc => isDigit_of_mem_toDigits hc
  have hvalue : Text.digitsValue (Nat.toDigits 10 n) = n := Nat.ofDigitChars_ten_toDigits
  rw [← Text.natural?_eq_some_iff, Text.natural?,
    if_pos ⟨Nat.toDigits_ne_nil, List.all_eq_true.2 hdigits⟩, hvalue]

theorem isInteger_signed {n : Int} {sign : List Char}
    (h : if n < 0 then sign = ['-'] else sign = [] ∨ sign = ['+']) :
    Text.IsInteger (sign ++ Nat.toDigits 10 n.natAbs) n := by
  have hdecimal := isDecimal_toDigits n.natAbs
  split at h
  · next hneg =>
    have hn : -(n.natAbs : Int) = n := by omega
    have hminus := Text.IsInteger.minus hdecimal
    rw [hn] at hminus
    rw [h]
    exact hminus
  · next hpos =>
    have hn : (n.natAbs : Int) = n := by omega
    have hnatural : ∀ {numeral}, Text.IsNatural numeral n.natAbs → Text.IsInteger numeral n := by
      intro numeral hnumeral
      have hinteger := Text.IsInteger.natural hnumeral
      rwa [hn] at hinteger
    rcases h with rfl | rfl
    · exact hnatural (.plain hdecimal)
    · exact hnatural (.plus hdecimal)

theorem take_of_rendersInt {n : Int64} {value : Value} (h : RendersInt n value) (room : Nat) :
    Take.integer room value = .ok n := by
  cases h with
  | literal => exact take_ofInt room n
  | @text front sign back hblank hsign =>
    have hspells : Text.Spells Text.IsInteger
        (.ofList (front ++ (sign ++ (Nat.toDigits 10 n.toInt.natAbs ++ back)))) n.toInt := by
      refine ⟨front, _, back, ?_, hblank, isInteger_signed hsign⟩
      rw [String.toList_ofList, List.append_assoc]
    rw [Take.integer_text, Text.int64?_eq_some_iff.2 hspells]

theorem take_of_rendersFlag {flag : Bool} {value : Value} (h : RendersFlag flag value) (room : Nat) :
    Take.memoFlag room value = .ok flag := by
  cases h with
  | flag => rfl
  | @number n hn hset =>
    have hinteger := integer?_ofNat hn
    have husable : (Value.number (.ofInt n)).isUsable room = true := by
      rw [Value.isUsable, Number.reading?, hinteger]
      rfl
    have hflag : ((n : Int) != 0) = flag := by
      rw [Bool.eq_iff_iff, hset, bne_iff_ne, Int.natCast_ne_zero]
    simp [Take.memoFlag, husable, hinteger, hflag]

theorem take_of_rendersList {α β : Type} {item : Take β} {renders : α → Value → Prop}
    {Q : α → β → Prop} {room : Nat}
    (hitem : ∀ a value, renders a value → ∃ b, item room value = .ok b ∧ Q a b) {items : List α}
    {value : Value} (h : RendersList renders items value) :
    ∃ bs, Take.list item (room + 1) value = .ok bs ∧ List.Forall₂ Q items bs := by
  obtain @⟨values, hvalues⟩ := h
  have hall : ∃ bs, values.mapM (item room) = .ok bs ∧ List.Forall₂ Q items bs := by
    induction hvalues with
    | nil => exact ⟨[], rfl, .nil⟩
    | cons hvalue _ ih =>
      obtain ⟨b, hb, hQ⟩ := hitem _ _ hvalue
      obtain ⟨bs, hbs, hQs⟩ := ih
      refine ⟨b :: bs, ?_, .cons hQ hQs⟩
      rw [List.mapM_cons, hb, hbs]
      rfl
  obtain ⟨bs, hbs, hQ⟩ := hall
  refine ⟨bs, ?_, hQ⟩
  rw [Take.list, if_neg (Nat.succ_ne_zero room), Nat.add_sub_cancel, hbs]
  rfl

/-! ### Members -/

section

variable {σ α β : Type} {room : Nat} {fields : List (Field σ)} {entries : List Entry} {s : σ}
  {P : σ → Prop} {name : String} {otherName : Option String}

namespace Reads

theorem nil (h : P s) : Reads room [] [] s P := by
  intro members hlisted
  cases hlisted
  exact ⟨s, .nil, h⟩

theorem required {take : Take α} {put : α → σ → σ} {renders : Value → Prop}
    (h : ∀ value, renders value → ∃ a, take room value = .ok a ∧ Reads room fields entries (put a s) P) :
    Reads room (.require (.of name otherName take put) :: fields) (.required name renders :: entries)
      s P := by
  intro members hlisted
  cases hlisted with
  | omitted homitted _ => exact homitted.elim
  | written hvalue hlisted =>
    obtain ⟨a, htake, hreads⟩ := h _ hvalue
    obtain ⟨t, hwrites, ht⟩ := hreads _ hlisted
    exact ⟨t, .require htake hwrites, ht⟩

/-- A field that keeps the draft as it is where the record omits it or has null for it. -/
theorem optional {take : Take α} {put : α → σ → σ} {default : α} {isDefault : Prop}
    {renders : Value → Prop} (hput : put default s = s)
    (hdefault : isDefault → Reads room fields entries s P)
    (h : ∀ value, renders value → ∃ a, take.orDefault default room value = .ok a
      ∧ Reads room fields entries (put a s) P) :
    Reads room (.of name otherName (.orDefault default take) put :: fields)
      (.optional name isDefault renders :: entries) s P := by
  intro members hlisted
  cases hlisted with
  | omitted homitted hlisted =>
    obtain ⟨t, hwrites, ht⟩ := hdefault homitted _ hlisted
    exact ⟨t, .skip rfl hwrites, ht⟩
  | written hvalue hlisted =>
    rcases hvalue with hvalue | ⟨hisDefault, rfl⟩
    · obtain ⟨a, htake, hreads⟩ := h _ hvalue
      obtain ⟨t, hwrites, ht⟩ := hreads _ hlisted
      exact ⟨t, .of htake hwrites, ht⟩
    · obtain ⟨t, hwrites, ht⟩ := hdefault hisDefault _ hlisted
      rw [← hput] at hwrites
      exact ⟨t, .of rfl hwrites, ht⟩

theorem id {n : Int64} {put : Int64 → σ → σ} (h : Reads room fields entries (put n s) P) :
    Reads room (.require (.of name otherName .integer put) :: fields) (.id name n :: entries) s P :=
  required fun _ hvalue => ⟨n, take_of_rendersInt hvalue room, h⟩

theorem text {text : String} {put : String → σ → σ} (hput : put "" s = s)
    (h : Reads room fields entries (put text s) P) :
    Reads room (textField name otherName put :: fields) (.text name text :: entries) s P := by
  refine optional hput ?_ ?_
  · intro hempty
    rwa [hempty, hput] at h
  · rintro _ rfl
    exact ⟨text, rfl, h⟩

theorem optionalText {text : Option String} {put : Option String → σ → σ} (hput : put none s = s)
    (h : Reads room fields entries (put text s) P) :
    Reads room (.of name otherName (.optional .text) put :: fields) (.optionalText name text :: entries)
      s P := by
  refine optional hput ?_ ?_
  · intro hnone
    rwa [hnone, hput] at h
  · rintro _ ⟨content, rfl, rfl⟩
    exact ⟨some content, rfl, h⟩

theorem flag {flag : Bool} {put : Bool → σ → σ} (hput : put false s = s)
    (h : Reads room fields entries (put flag s) P) :
    Reads room (flagField name otherName put :: fields) (.flag name flag :: entries) s P := by
  refine optional hput ?_ ?_
  · intro hunset
    rwa [hunset, hput] at h
  · rintro _ rfl
    exact ⟨flag, rfl, h⟩

theorem int {n : Int64} {put : Int64 → σ → σ} (hput : put 0 s = s)
    (h : Reads room fields entries (put n s) P) :
    Reads room (intField name otherName put :: fields) (.int name n :: entries) s P := by
  refine optional hput ?_ ?_
  · intro hzero
    rwa [hzero, hput] at h
  · intro value hvalue
    refine ⟨n, ?_, h⟩
    rw [← take_of_rendersInt hvalue room]
    cases hvalue <;> rfl

theorem list {item : Take β} {renders : α → Value → Prop} {Q : α → β → Prop} {items : List α}
    {put : List β → σ → σ} (hput : put [] s = s)
    (hitem : ∀ a value, renders a value → ∃ b, item room value = .ok b ∧ Q a b)
    (h : ∀ bs, List.Forall₂ Q items bs → Reads (room + 1) fields entries (put bs s) P) :
    Reads (room + 1) (listField name otherName item put :: fields) (.list name renders items :: entries)
      s P := by
  refine optional hput ?_ ?_
  · rintro rfl
    have hempty := h [] .nil
    rwa [hput] at hempty
  · intro value hvalue
    obtain ⟨bs, htake, hQ⟩ := take_of_rendersList hitem hvalue
    refine ⟨bs, ?_, h bs hQ⟩
    rw [← htake]
    cases hvalue
    rfl

end Reads

end

/-! ### The fields of the seven records -/

theorem fuzzyTestSchema_lawful : fuzzyTestSchema.Lawful where
  keyed := by decide +kernel
  apart := by decide +kernel
  commutes := by
    simp only [fuzzyTestSchema, List.pairwise_cons, List.forall_mem_cons, List.not_mem_nil,
      false_implies, implies_true, List.Pairwise.nil, and_true]
    and_intros
    all_goals exact commutes_of fun _ _ _ => rfl

theorem unitTestSchema_lawful : unitTestSchema.Lawful where
  keyed := by decide +kernel
  apart := by decide +kernel
  commutes := by
    simp only [unitTestSchema, List.pairwise_cons, List.forall_mem_cons, List.not_mem_nil,
      false_implies, implies_true, List.Pairwise.nil, and_true]
    and_intros
    all_goals exact commutes_of fun _ _ _ => rfl

theorem attemptSchema_lawful : attemptSchema.Lawful where
  keyed := by decide +kernel
  apart := by decide +kernel
  commutes := by
    simp only [attemptSchema, List.pairwise_cons, List.forall_mem_cons, List.not_mem_nil,
      false_implies, implies_true, List.Pairwise.nil, and_true, require_commutes_iff, commutes_require_iff]
    and_intros
    all_goals exact commutes_of fun _ _ _ => rfl

theorem chainSchema_lawful : chainSchema.Lawful where
  keyed := by decide +kernel
  apart := by decide +kernel
  commutes := by
    exact List.pairwise_pair.2 (commutes_of fun _ _ _ => rfl)

theorem requestSchema_lawful : requestSchema.Lawful where
  keyed := by decide +kernel
  apart := by decide +kernel
  commutes := by
    simp only [requestSchema, List.pairwise_cons, List.forall_mem_cons, List.not_mem_nil,
      false_implies, implies_true, List.Pairwise.nil, and_true]
    and_intros
    all_goals exact commutes_of fun _ _ _ => rfl

theorem responseSchema_lawful : responseSchema.Lawful where
  keyed := by decide +kernel
  apart := by decide +kernel
  commutes := by
    exact List.pairwise_pair.2 (require_commutes_iff.2 (commutes_of fun _ _ _ => rfl))

theorem batchSchema_lawful : batchSchema.Lawful where
  keyed := by decide +kernel
  apart := by decide +kernel
  commutes := by
    exact List.pairwise_singleton _ _

/-! ### The seven records -/

theorem map_eq_of_forall₂ {α β γ : Type} {f : β → γ} {g : α → γ} {as : List α} {bs : List β}
    (h : List.Forall₂ (fun a b => f b = g a) as bs) : bs.map f = as.map g := by
  induction h with
  | nil => rfl
  | cons hhead _ ih => rw [List.map_cons, List.map_cons, hhead, ih]

theorem mapM_eq_ok_of_forall₂ {ε α β γ : Type} {f : β → Except ε γ} {g : α → γ} {as : List α}
    {bs : List β} (h : List.Forall₂ (fun a b => f b = .ok (g a)) as bs) :
    bs.mapM f = .ok (as.map g) := by
  induction h with
  | nil => rfl
  | cons hhead _ ih =>
    rw [List.mapM_cons, hhead, ih]
    rfl

theorem ofFlags_of_setAt {memoized : PositionSet} {flags : List Bool} (h : SetAt memoized flags) :
    PositionSet.ofFlags flags = .ok memoized := by
  refine PositionSet.ofFlags_of_setIndices fun index => ?_
  rw [PositionSet.mem_setIndices, Nat.sub_zero, h, PositionSet.contains_iff]
  exact and_iff_right (Nat.zero_le index)

theorem take_of_rendersFuzzyTest (room : Nat) (test : FuzzyTest) (value : Value)
    (h : RendersFuzzyTest test value) :
    ∃ t, fuzzyTestSchema.take {} (room + 1) value = .ok t ∧ test = t := by
  refine take_of_renders fuzzyTestSchema_lawful rfl ?_ h
  apply Reads.text rfl
  apply Reads.text rfl
  apply Reads.optionalText rfl
  apply Reads.flag rfl
  apply Reads.text rfl
  exact .nil rfl

theorem take_of_rendersUnitTest (room : Nat) (test : UnitTest) (value : Value)
    (h : RendersUnitTest test value) :
    ∃ t, unitTestSchema.take {} (room + 1) value = .ok t ∧ test = t := by
  refine take_of_renders unitTestSchema_lawful rfl ?_ h
  apply Reads.text rfl
  apply Reads.optionalText rfl
  apply Reads.flag rfl
  apply Reads.text rfl
  exact .nil rfl

theorem take_of_rendersAttempt (room : Nat) (attempt : Attempt) (value : Value)
    (h : RendersAttempt attempt value) :
    ∃ draft, attemptSchema.take {} (room + 3) value = .ok draft ∧ draft.finish = attempt.canonical := by
  refine take_of_renders attemptSchema_lawful rfl ?_ h
  simp only [attemptSchema, attemptEntries]
  apply Reads.id
  apply Reads.id
  -- A default is compared with the draft so far, which is computed here and before later defaults.
  dsimp only [AttemptDraft.update]
  apply Reads.text rfl
  apply Reads.text rfl
  dsimp only [AttemptDraft.update]
  apply Reads.int rfl
  apply Reads.text rfl
  dsimp only [AttemptDraft.update]
  apply Reads.text rfl
  apply Reads.text rfl
  dsimp only [AttemptDraft.update]
  apply Reads.list rfl (take_of_rendersFuzzyTest room)
  intro fuzzyTests hfuzzy
  apply Reads.list rfl (take_of_rendersUnitTest room)
  intro unitTests hunit
  apply Reads.text rfl
  apply Reads.text rfl
  dsimp only [AttemptDraft.update]
  apply Reads.flag rfl
  apply Reads.int rfl
  dsimp only [AttemptDraft.update]
  apply Reads.int rfl
  apply Reads.flag rfl
  apply Reads.nil
  have hfuzzyTests : attempt.tests.fuzzyTests = fuzzyTests := List.forall₂_eq_eq_eq ▸ hfuzzy
  have hunitTests : attempt.tests.unitTests = unitTests := List.forall₂_eq_eq_eq ▸ hunit
  rw [← hfuzzyTests, ← hunitTests]
  rfl

theorem take_of_rendersChain (room : Nat) (chain : Chain) (value : Value)
    (h : RendersChain chain value) :
    ∃ draft, chainSchema.take {} (room + 5) value = .ok draft ∧ draft.finish = .ok chain.canonical := by
  refine take_of_renders chainSchema_lawful rfl ?_ h
  apply Reads.list rfl (take_of_rendersAttempt room)
  intro drafts hdrafts
  have hattempts : drafts.map AttemptDraft.finish = chain.attempts.map Attempt.canonical :=
    map_eq_of_forall₂ hdrafts
  have hfinish : ∀ flags, PositionSet.ofFlags flags = .ok chain.memoized →
      (ChainDraft.mk drafts flags).finish = .ok chain.canonical := by
    intro flags hflags
    rw [ChainDraft.finish, hflags]
    dsimp only
    rw [hattempts]
    rfl
  refine Reads.optional rfl ?_ ?_
  · intro hempty
    refine .nil (hfinish [] ?_)
    rw [hempty, PositionSet.ofFlags_nil]
  · rintro value ⟨flags, hset, hvalue⟩
    have hflag : ∀ flag value, RendersFlag flag value →
        ∃ b, Take.memoFlag (room + 3) value = .ok b ∧ flag = b :=
      fun flag _ hvalue => ⟨flag, take_of_rendersFlag hvalue _, rfl⟩
    obtain ⟨read, htake, hsame⟩ := take_of_rendersList hflag hvalue
    have hread : flags = read := List.forall₂_eq_eq_eq ▸ hsame
    subst hread
    refine ⟨flags, ?_, .nil (hfinish flags (ofFlags_of_setAt hset))⟩
    rw [← htake]
    cases hvalue
    rfl

theorem take_of_rendersRequest (room : Nat) (request : Request) (value : Value)
    (h : RendersRequest request value) :
    ∃ t, requestSchema.take {} (room + 1) value = .ok t ∧ request = t := by
  refine take_of_renders requestSchema_lawful rfl ?_ h
  apply Reads.text rfl
  apply Reads.text rfl
  apply Reads.text rfl
  apply Reads.text rfl
  exact .nil rfl

theorem take_of_rendersResponse (room : Nat) (response : Response) (value : Value)
    (h : RendersResponse response value) :
    ∃ draft, responseSchema.take {} (room + 7) value = .ok draft
      ∧ draft.finish = .ok response.canonical := by
  refine take_of_renders responseSchema_lawful rfl ?_ h
  apply Reads.required
  intro value hvalue
  obtain ⟨request, htake, rfl⟩ := take_of_rendersRequest (room + 5) _ _ hvalue
  refine ⟨_, htake, ?_⟩
  apply Reads.list rfl (take_of_rendersChain room)
  intro drafts hdrafts
  refine .nil ?_
  rw [ResponseDraft.finish, mapM_eq_ok_of_forall₂ hdrafts]
  rfl

theorem toBatch_of_rendersBatch {batch : Batch} {value : Value} (h : RendersBatch batch value) :
    (Document.mk value false).toBatch = .ok batch.canonical := by
  have htake : ∃ drafts, batchSchema.take [] (118 + 9) value = .ok drafts
      ∧ drafts.mapM ResponseDraft.finish = .ok (batch.responses.map Response.canonical) := by
    refine take_of_renders batchSchema_lawful rfl ?_ h
    apply Reads.list rfl (take_of_rendersResponse 118)
    intro drafts hdrafts
    exact .nil (mapM_eq_ok_of_forall₂ hdrafts)
  obtain ⟨drafts, htake, hfinish⟩ := htake
  have hdrafts : batchSchema.take [] maxDepth value = .ok drafts := htake
  rw [Document.toBatch, hdrafts]
  show (drafts.mapM ResponseDraft.finish).map _ = _
  rw [hfinish]
  rfl

/-- However a batch is rendered and spelled, its text is read back as the batch's canonical form. -/
theorem decode_of_renders {batch : Batch} {value : Value} {text : String}
    (hvalue : RendersBatch batch value) (htext : Layout value.tokens text.toList) :
    decode text = .ok batch.canonical := by
  rw [decode, ofText_of_layout (whole_of_rendersBatch hvalue) htext, toBatch_of_rendersBatch hvalue]

/-- Keys of both kinds in an order of their own, a null, an integer as a text, a number for a flag, an
escape, a member that is no field and a space in front. -/
theorem decode_of_renders_mixed :
    let batch : Batch :=
      ⟨[⟨{ id := "r" }, [⟨[{ id := 7, parentId := -1 }], ⟨[0], by decide⟩⟩]⟩]⟩
    let attempt : Value := .object [(some "x", .array [.number ⟨false, 1, [5], none⟩] true),
      (some "level", .null), (some "parentEdgeId", .number (.ofInt (-1))),
      (some "edge_id", .text (some " +7"))] true
    let chain : Value := .object [(some "edge_index_memoized", .array [.number (.ofInt 3)] true),
      (some "translationEdges", .array [attempt] true)] true
    let response : Value := .object [(some "paths", .array [chain] true),
      (some "translationRequest", .object [(some "id", .text (some "r"))] true)] true
    let value : Value := .object [(some "translation_responses", .array [response] true)] true
    let text := " \x7b\"translation_responses\":[\x7b\"paths\":[\x7b\"edge_index_memoized\":[3],"
      ++ "\"translationEdges\":[\x7b\"x\":[1.5],\"level\":null,\"parentEdgeId\":-1,"
      ++ "\"edge_id\":\" +7\"\x7d]\x7d],\"translationRequest\":\x7b\"id\":\"\\u0072\"\x7d\x7d]\x7d"
    RendersBatch batch value ∧ Layout value.tokens text.toList
      ∧ decode text = .ok batch.canonical := by
  intro batch attempt chain response value text
  have hid : RendersInt 7 (.text (some " +7")) := by
    have hspelled := @RendersInt.text 7 [' '] ['+'] [] (List.forall_mem_singleton.2 rfl) (by decide)
    have htext : String.ofList ([' '] ++ (['+'] ++ (Nat.toDigits 10 (7 : Int64).toInt.natAbs ++ [])))
        = " +7" := by decide +kernel
    rwa [htext] at hspelled
  have hkey : ∀ {name key : String} {value : Value}, key ∈ keys name →
      Respelled (some name, value) (some key, value) := fun hmem => ⟨_, rfl, ⟨_, hmem, rfl⟩, rfl⟩
  have hattempt : RendersAttempt { id := 7, parentId := -1 } attempt := by
    have hlevel : (Entry.int "level" 0).renders .null := .inr ⟨rfl, rfl⟩
    have hlisted : Listed (attemptEntries { id := 7, parentId := -1 })
        [(some "edge_id", .text (some " +7")), (some "parent_edge_id", .number (.ofInt (-1))),
          (some "level", .null)] :=
      .written hid (.written .literal (.omitted rfl (.omitted rfl (.written hlevel (.omitted rfl
        (.omitted rfl (.omitted rfl (.omitted rfl (.omitted rfl (.omitted rfl (.omitted rfl
        (.omitted rfl (.omitted rfl (.omitted rfl (.omitted rfl .nil)))))))))))))))
    have hforeign : Foreign (attemptEntries { id := 7, parentId := -1 })
        (some "x", .array [.number ⟨false, 1, [5], none⟩] true) :=
      ⟨⟨"x", rfl, by decide +kernel⟩, .array (List.forall_mem_singleton.2 (.number _))⟩
    exact .intro hlisted
      (.cons (hkey (by decide)) (.cons (hkey (by decide)) (.cons (hkey (by decide)) .nil)))
      (List.forall_mem_singleton.2 hforeign) (List.reverse_perm [_, _, _, _])
  have hnone : ∀ entries other, other ∈ ([] : List Member) → Foreign entries other :=
    fun _ _ hother => absurd hother List.not_mem_nil
  have hchain : RendersChain ⟨[{ id := 7, parentId := -1 }], ⟨[0], by decide⟩⟩ chain := by
    have hflags : SetAt ⟨[0], by decide⟩ [true] := by
      intro index
      cases index <;> simp
    have hlisted : Listed (chainEntries ⟨[{ id := 7, parentId := -1 }], ⟨[0], by decide⟩⟩)
        [(some "translation_edges", .array [attempt] true),
          (some "edge_index_memoized", .array [.number (.ofInt 3)] true)] :=
      .written (.inl ⟨.cons hattempt .nil⟩) (.written (.inl ⟨[true], hflags,
        ⟨.cons (@RendersFlag.number true 3 (by decide) (by decide)) .nil⟩⟩) .nil)
    exact .intro hlisted (.cons (hkey (by decide)) (.cons (hkey (by decide)) .nil)) (hnone _)
      (List.reverse_perm [_, _])
  have hrequest : RendersRequest { id := "r" } (.object [(some "id", .text (some "r"))] true) :=
    .intro (.written (.inl rfl) (.omitted rfl (.omitted rfl (.omitted rfl .nil))))
      (.cons (hkey (by decide)) .nil) (hnone _) (.refl _)
  have hresponse : RendersResponse
      ⟨{ id := "r" }, [⟨[{ id := 7, parentId := -1 }], ⟨[0], by decide⟩⟩]⟩ response :=
    .intro (.written hrequest (.written (.inl ⟨.cons hchain .nil⟩) .nil))
      (.cons (hkey (by decide)) (.cons (hkey (by decide)) .nil)) (hnone _) (List.reverse_perm [_, _])
  have hvalue : RendersBatch batch value :=
    .intro (.written (.inl ⟨.cons hresponse .nil⟩) .nil) (.cons (hkey (by decide)) .nil) (hnone _)
      (.refl _)
  have hdecimal : Number.Spelled ⟨false, 1, [5], none⟩ ['1', '.', '5'] := by
    have hdigits : AreDigits ['5'] := ⟨List.cons_ne_nil _ _, List.forall_mem_singleton.2 rfl⟩
    have hfraction : FractionSpelled [5] ['.', '5'] := .digits hdigits
    exact @Number.Spelled.intro false 1 _ _ _ _ hfraction .none
  have hescaped : Token.Spelled (.text (some "r")) ['"', '\\', 'u', '0', '0', '7', '2', '"'] := by
    have hunit : Piece.Spelled (.unit 0x72) ['\\', 'u', '0', '0', '7', '2'] :=
      .unit (w := 0) (x := 0) (y := 7) (z := 2) (by decide) (by decide) (by decide) (by decide)
    exact .text (.cons hunit .nil) (.unit (.inl (by decide)) .nil)
  let texts : List (List Char) :=
    [['\x7b'], escaped "translation_responses", [':'], ['['], ['\x7b'], escaped "paths", [':'], ['['],
      ['\x7b'], escaped "edge_index_memoized", [':'], ['['], (Number.ofInt 3).print, [']'], [','],
      escaped "translationEdges", [':'], ['['], ['\x7b'], escaped "x", [':'], ['['],
      ['1', '.', '5'], [']'], [','], escaped "level", [':'], ['n', 'u', 'l', 'l'], [','],
      escaped "parentEdgeId", [':'], (Number.ofInt (-1)).print, [','], escaped "edge_id", [':'],
      escaped " +7", ['\x7d'], [']'], ['\x7d'], [']'], [','], escaped "translationRequest", [':'],
      ['\x7b'], escaped "id", [':'], ['"', '\\', 'u', '0', '0', '7', '2', '"'], ['\x7d'], ['\x7d'],
      [']'], ['\x7d']]
  have hspelled : List.Forall₂ Token.Spelled value.tokens texts := by
    simp only [texts, value, response, chain, attempt, Value.tokens, itemTokens, memberTokens,
      List.cons_append, List.nil_append]
    -- All tokens are as they are printed but the escaped text and the number with a fraction.
    repeat' first
      | exact .nil
      | refine .cons ?_ ?_
      | exact hescaped
      | exact .number hdecimal
      | exact spelled_escaped _
      | exact .number (spelled_ofInt _)
      | constructor
  have hchars : text.toList = ' ' :: texts.flatten := by
    simp only [text, texts, escaped, String.toList_append, String.reduceToList]
    rfl
  have htext : Layout value.tokens text.toList := by
    rw [hchars]
    exact .blank (by decide) (layout_of_spelled hspelled)
  exact ⟨hvalue, htext, decode_of_renders hvalue htext⟩

end AttemptLedger.Json
