import AttemptLedger.Json.Decode
import AttemptLedger.Proofs.Json.Canonicity
import AttemptLedger.Proofs.Json.RoundTrip

/-!
# Documents end where their outermost container is closed

The tokens of a text are those of its beginning and then more, if the beginning ends with the mark that
closes a container. A batch is only read from a document whose outermost container was closed, so when
a text that a batch is read from is continued, a batch is read from the longer text only if nothing but
blanks was added. What is printed ends with such a mark; so no part of it that is cut off in front of the
end is read.
-/

namespace AttemptLedger.Json

/-! ### Tokens of a continued text -/

theorem pieces?_append {cs rest : List Char} {pieces : List Piece} (h : pieces? cs = some (pieces, rest))
    (more : List Char) : pieces? (cs ++ more) = some (pieces, rest ++ more) := by
  fun_induction pieces? cs generalizing pieces rest with
  | case2 tail =>
    cases h
    rw [List.cons_append, pieces?]
  | case3 a b c d tail code pieces' rest' hrest hcode ih =>
    cases h
    exact pieces?_unit hcode (ih hrest)
  | case5 letter tail _ c pieces' rest' hrest hc ih =>
    cases h
    have hletter : letter ≠ 'u' := by
      intro hu
      rw [hu] at hc
      cases hc
    exact pieces?_letter hletter hc (ih hrest)
  | case8 c tail hquote _ _ hplain pieces' rest' hrest ih =>
    cases h
    exact pieces?_plain (by omega) hquote (fun heq => hplain (.inr heq)) (ih hrest)
  | _ => cases h

theorem digits_of_append {cs rest : List Char} {ds : List Nat} (h : digits cs = (ds, rest))
    (hrest : rest ≠ []) (more : List Char) : digits (cs ++ more) = (ds, rest ++ more) := by
  have hhead : ∀ c ∈ (rest ++ more).head?, c.isDigit = false := by
    intro c hc
    cases rest with
    | nil => exact absurd rfl hrest
    | cons d rest =>
      cases hc
      have hstop := List.head?_dropWhile_not Char.isDigit cs
      have hdrop : cs.dropWhile Char.isDigit = c :: rest := congrArg Prod.snd h
      rw [hdrop] at hstop
      simpa using hstop
  have hdigits : ∀ c ∈ cs.takeWhile Char.isDigit, c.isDigit = true :=
    fun c hc => List.mem_takeWhile_imp hc
  have hsplit : cs ++ more = cs.takeWhile Char.isDigit ++ (rest ++ more) := by
    have hdrop : cs.dropWhile Char.isDigit = rest := congrArg Prod.snd h
    rw [← List.append_assoc, ← hdrop, List.takeWhile_append_dropWhile]
  have hvalues : (cs.takeWhile Char.isDigit).map Text.digitValue = ds := congrArg Prod.fst h
  rw [hsplit, digits_append hdigits hhead, hvalues]

theorem whole?_append {cs rest : List Char} {whole : Nat} (h : whole? cs = some (whole, rest))
    (hrest : rest ≠ []) (more : List Char) : whole? (cs ++ more) = some (whole, rest ++ more) := by
  unfold whole? at h
  split at h
  · cases h
  · cases h
  · next ds tail hnil hzero heq =>
    cases h
    rw [whole?, digits_of_append heq hrest]
    split
    · next heq' =>
      cases heq'
      exact (hnil rfl).elim
    · next heq' =>
      cases heq'
      exact (hzero _ _ rfl).elim
    · next heq' =>
      cases heq'
      rfl

theorem fraction?_append {cs rest : List Char} {fraction : List Nat}
    (h : fraction? cs = some (fraction, rest)) (hrest : rest ≠ []) (more : List Char) :
    fraction? (cs ++ more) = some (fraction, rest ++ more) := by
  unfold fraction? at h
  split at h
  · next tail =>
    split at h
    · cases h
    · next ds after hnil heq =>
      cases h
      rw [List.cons_append, fraction?, digits_of_append heq hrest]
      split
      · next heq' =>
        cases heq'
        exact (hnil rfl).elim
      · next heq' =>
        cases heq'
        rfl
  · next hpoint =>
    cases h
    cases cs with
    | nil => exact absurd rfl hrest
    | cons c cs =>
      rw [List.cons_append, fraction?]
      intro tail heq
      cases heq
      exact (hpoint _ rfl).elim

theorem signedExponent?_append {negative : Bool} {cs rest : List Char} {exponent : Option Int}
    (h : signedExponent? negative cs = some (exponent, rest)) (hrest : rest ≠ []) (more : List Char) :
    signedExponent? negative (cs ++ more) = some (exponent, rest ++ more) := by
  unfold signedExponent? at h
  split at h
  · cases h
  · next ds after hnil heq =>
    cases h
    rw [signedExponent?, digits_of_append heq hrest]
    split
    · next heq' =>
      cases heq'
      exact (hnil rfl).elim
    · next heq' =>
      cases heq'
      rfl

theorem exponent?_append {cs rest : List Char} {exponent : Option Int}
    (h : exponent? cs = some (exponent, rest)) (hrest : rest ≠ []) (more : List Char) :
    exponent? (cs ++ more) = some (exponent, rest ++ more) := by
  unfold exponent? at h
  split at h
  · next c tail =>
    split at h
    · next hletter =>
      split at h
      · have hread := signedExponent?_append h hrest more
        rw [List.cons_append, List.cons_append, exponent?, if_pos hletter]
        exact hread
      · have hread := signedExponent?_append h hrest more
        rw [List.cons_append, List.cons_append, exponent?, if_pos hletter]
        exact hread
      · next hplus hminus =>
        have hread := signedExponent?_append h hrest more
        cases tail with
        | nil => cases h
        | cons d tail =>
          rw [List.cons_append, exponent?, if_pos hletter]
          · exact hread
          · intro after heq
            cases heq
            exact hplus _ rfl
          · intro after heq
            cases heq
            exact hminus _ rfl
    · next hletter =>
      cases h
      exact if_neg hletter
  · cases h
    exact absurd rfl hrest

theorem number?_append {negative : Bool} {cs rest : List Char} {literal : Number}
    (h : number? negative cs = some (literal, rest)) (hrest : rest ≠ []) (more : List Char) :
    number? negative (cs ++ more) = some (literal, rest ++ more) := by
  have hlonger : ∀ {front back : List Char}, back.length ≤ front.length → back ≠ [] → front ≠ [] := by
    intro front back hle hback hfront
    rw [hfront] at hle
    exact hback (List.length_eq_zero_iff.1 (Nat.le_zero.1 hle))
  unfold number? at h
  split at h
  · cases h
  · next whole afterWhole hwhole =>
    split at h
    · cases h
    · next fraction afterFraction hfraction =>
      split at h
      · cases h
      · next exponent afterExponent hexponent =>
        cases h
        -- Characters are left behind each part, since some are left behind the last one.
        have hafterFraction := hlonger (exponent?_length_le hexponent) hrest
        have hafterWhole := hlonger (fraction?_length_le hfraction) hafterFraction
        rw [number?, whole?_append hwhole hafterWhole]
        dsimp only
        rw [fraction?_append hfraction hafterFraction]
        dsimp only
        rw [exponent?_append hexponent hrest]

theorem exists_isDigit_of_number? {negative : Bool} {cs rest : List Char} {literal : Number}
    (h : number? negative cs = some (literal, rest)) :
    ∃ c tail, cs = c :: tail ∧ c.isDigit = true := by
  unfold number? whole? at h
  split at h
  · cases h
  · next hwhole =>
    split at hwhole
    · cases hwhole
    · cases hwhole
    · next ds tail hnil _ heq =>
      cases cs with
      | nil =>
        cases heq
        exact (hnil rfl).elim
      | cons c cs =>
        refine ⟨c, cs, rfl, ?_⟩
        by_contra hc
        simp only [digits, List.takeWhile_cons, hc] at heq
        cases heq
        exact hnil rfl

/-- A token is still the first one when the text goes on; a number has to be followed by something
else. -/
theorem token?_append {cs rest : List Char} {token : Token} (h : token? cs = some (token, rest))
    (hrest : token.IsNumber → rest ≠ []) (more : List Char) :
    token? (cs ++ more) = some (token, rest ++ more) := by
  unfold token? at h
  split at h
  case h_10 =>
    split at h
    · next hpieces =>
      cases h
      rw [List.cons_append, token?, pieces?_append hpieces]
    · cases h
  case h_11 =>
    obtain ⟨⟨literal, tail⟩, hnumber, hread⟩ := Option.map_eq_some_iff.1 h
    cases hread
    rw [List.cons_append, token?, number?_append hnumber (hrest trivial), Option.map_some]
  case h_12 =>
    obtain ⟨⟨literal, tail⟩, hnumber, hread⟩ := Option.map_eq_some_iff.1 h
    cases hread
    obtain ⟨c, cs, rfl, hc⟩ := exists_isDigit_of_number? hnumber
    have hmore := number?_append hnumber (hrest trivial) more
    rw [List.cons_append] at hmore ⊢
    rw [token?_of_isDigit hc, hmore, Option.map_some]
  all_goals
    cases h
    rfl

theorem isSpace_of_tokens_eq_nil {cs : List Char} (h : tokens cs = []) :
    ∀ c ∈ cs, isSpace c = true := by
  fun_induction tokens cs with
  | case1 => exact List.forall_mem_nil _
  | case2 c cs hspace ih => exact List.forall_mem_cons.2 ⟨hspace, ih h⟩
  | _ => cases h

theorem tokens_blank_append {cs : List Char} (h : ∀ c ∈ cs, isSpace c = true) (more : List Char) :
    tokens (cs ++ more) = tokens more := by
  induction cs with
  | nil => rfl
  | cons c cs ih =>
    obtain ⟨hc, hcs⟩ := List.forall_mem_cons.1 h
    rw [List.cons_append, tokens, if_pos hc, ih hcs]

/-- The mark that closes a container. -/
def Token.IsClosing (token : Token) : Prop := token = .closeArray ∨ token = .closeObject

theorem tokens_append {cs : List Char} {front : List Token} {mark : Token} (hmark : mark.IsClosing)
    (h : tokens cs = front ++ [mark]) (more : List Char) :
    tokens (cs ++ more) = tokens cs ++ tokens more := by
  -- Along the tokens of `cs`: behind each but the last there is text, and the last is no number.
  fun_induction tokens cs generalizing front with
  | case1 => simp at h
  | case2 c cs hspace ih =>
    rw [List.cons_append, tokens, if_pos hspace]
    exact ih h
  | case3 c cs _ token rest htoken ih =>
    cases front with
    | nil =>
      obtain ⟨rfl, hrest⟩ := List.cons.inj h
      have hnumber : ¬token.IsNumber := by
        rcases hmark with rfl | rfl <;> exact id
      have hread := token?_append htoken (fun hyes => absurd hyes hnumber) more
      rw [tokens_of_token? hread, hrest, tokens_blank_append (isSpace_of_tokens_eq_nil hrest)]
      rfl
    | cons first front =>
      obtain ⟨rfl, hrest⟩ := List.cons.inj h
      have hmore : rest ≠ [] := by
        rintro rfl
        rw [tokens] at hrest
        simp at hrest
      have hread := token?_append htoken (fun _ => hmore) more
      rw [tokens_of_token? hread, ih hrest, List.cons_append]
  | case4 =>
    have hinvalid : mark = .invalid := by
      cases front with
      | nil => exact (List.cons.inj h).1.symm
      | cons first front => simp at h
    rw [hinvalid] at hmark
    rcases hmark with hmark | hmark <;> cases hmark

/-! ### Closed documents -/

/-- A container that was read up to the mark that closes it. -/
def Value.IsClosed : Value → Prop
  | .array _ closed | .object _ closed => closed = true
  | _ => False

theorem not_isClosed_unclosed (frames : List Frame) {inner : Option Value}
    (h : ∀ value ∈ inner, ¬value.IsClosed) : ¬(Progress.unclosed inner frames).IsClosed := by
  induction frames generalizing inner with
  | nil =>
    cases inner with
    | none => exact id
    | some value => exact h value rfl
  | cons frame frames ih =>
    have hopen : ∀ {value : Value}, ¬value.IsClosed → ¬(Progress.unclosed (some value) frames).IsClosed := by
      intro value hvalue
      refine ih fun other hother => ?_
      cases hother
      exact hvalue
    cases frame <;> exact hopen Bool.false_ne_true

namespace Progress

/-- A document that is settled too early does not pass for one that was read to its end. -/
def Honest : Progress → Prop
  | .settled document => document.trailing = true ∨ ¬document.value.IsClosed
  | _ => True

theorem honest_halt (frames : List Frame) : (halt frames).Honest :=
  .inr (not_isClosed_unclosed frames fun _ hvalue => by cases hvalue)

theorem honest_receive (value : Value) (frames : List Frame) : (receive value frames).Honest := by
  unfold receive
  split
  · trivial
  · trivial
  · trivial
  · exact honest_halt _

theorem honest_startValue (frames : List Frame) (token : Token) :
    (startValue frames token).Honest := by
  cases token with
  | openArray | openObject => trivial
  | null | bool | number | text => exact honest_receive _ frames
  | _ => exact honest_halt frames

theorem honest_step {progress : Progress} (h : progress.Honest) (token : Token) :
    (progress.step token).Honest := by
  unfold step
  split
  · exact h
  · exact .inl rfl
  · exact honest_startValue _ _
  · split
    · exact honest_receive _ _
    · exact honest_startValue _ _
  · split
    · trivial
    · exact honest_receive _ _
    · exact honest_halt _
  · split
    · trivial
    · exact honest_halt _
  · split
    · trivial
    · exact honest_halt _
  · split
    · trivial
    · exact honest_receive _ _
    · trivial
    · exact honest_receive _ _
    · exact honest_halt _

theorem honest_foldl (tokens : List Token) {progress : Progress} (h : progress.Honest) :
    (tokens.foldl step progress).Honest := by
  induction tokens generalizing progress with
  | nil => exact h
  | cons token tokens ih => exact ih (honest_step h token)

theorem eq_of_receive_eq_complete {value whole : Value} {frames : List Frame}
    (h : receive value frames = .complete whole) : value = whole := by
  unfold receive at h
  split at h
  · cases h
    rfl
  · cases h
  · cases h
  · cases h

theorem not_isClosed_of_startValue {frames : List Frame} {token : Token} {value : Value}
    (h : startValue frames token = .complete value) : ¬value.IsClosed := by
  cases token with
  | null | bool | number | text =>
    rw [← eq_of_receive_eq_complete h]
    exact id
  | _ => cases h

/-- The last token of a document that is a closed container closes it. -/
theorem isClosing_of_step {progress : Progress} {token : Token} {value : Value}
    (h : progress.step token = .complete value) (hclosed : value.IsClosed) : token.IsClosing := by
  unfold step at h
  split at h
  · cases h
  · cases h
  · exact absurd hclosed (not_isClosed_of_startValue h)
  · split at h
    · exact .inl rfl
    · exact absurd hclosed (not_isClosed_of_startValue h)
  · split at h
    · cases h
    · exact .inr rfl
    · cases h
  · split at h
    · cases h
    · cases h
  · split at h
    · cases h
    · cases h
  · split at h
    · cases h
    · exact .inl rfl
    · cases h
    · exact .inr rfl
    · cases h

theorem foldl_settled (tokens : List Token) (document : Document) :
    tokens.foldl step (.settled document) = .settled document := by
  induction tokens with
  | nil => rfl
  | cons token tokens ih => exact ih

theorem finish_eq_complete {progress : Progress} {value : Value} (h : progress.Honest)
    (hfinish : progress.finish = ⟨value, false⟩) (hclosed : value.IsClosed) :
    progress = .complete value := by
  cases progress with
  | reading frames expected =>
    have hvalue : unclosed none frames = value := congrArg Document.value hfinish
    rw [← hvalue] at hclosed
    exact absurd hclosed (not_isClosed_unclosed frames fun _ hnone => by cases hnone)
  | settled document =>
    have hdocument : document = ⟨value, false⟩ := hfinish
    rw [hdocument] at h
    rcases h with htrailing | hopen
    · cases htrailing
    · exact absurd hclosed hopen
  | complete whole =>
    have hvalue : whole = value := congrArg Document.value hfinish
    rw [hvalue]

end Progress

/-- A text whose document is a closed container has a document that goes on behind the container as
soon as anything but blanks is added. -/
theorem ofText_append {front back : String} {value : Value}
    (h : Document.ofText front = ⟨value, false⟩) (hclosed : value.IsClosed)
    (hback : tokens back.toList ≠ []) : Document.ofText (front ++ back) = ⟨value, true⟩ := by
  have hstart : (Progress.reading [] .value).Honest := trivial
  have hcomplete := Progress.finish_eq_complete
    (Progress.honest_foldl (tokens front.toList) hstart) h hclosed
  obtain ⟨before, mark, hsplit⟩ : ∃ before mark, tokens front.toList = before ++ [mark] := by
    rcases List.eq_nil_or_concat (tokens front.toList) with hnil | ⟨before, mark, hconcat⟩
    · rw [hnil] at hcomplete
      cases hcomplete
    · exact ⟨before, mark, by rw [hconcat, List.concat_eq_append]⟩
  have hmark : mark.IsClosing := by
    rw [hsplit, List.foldl_append] at hcomplete
    exact Progress.isClosing_of_step hcomplete hclosed
  rw [Document.ofText, String.toList_append, tokens_append hmark hsplit, Document.ofTokens,
    List.foldl_append, hcomplete]
  cases hmore : tokens back.toList with
  | nil => exact absurd hmore hback
  | cons token more =>
    rw [List.foldl_cons, Progress.step, Progress.foldl_settled]
    rfl

/-! ### Batches -/

section

variable {σ : Type} {schema : Schema σ}

theorem closed_of_takeItems {room index : Nat} {closed : Bool} {fields : List (Field σ)}
    {items : List Value} {s t : σ} (h : schema.takeItems room closed index fields items s = .ok t) :
    closed = true := by
  fun_induction Schema.takeItems schema room closed index fields items s with
  | case1 => assumption
  | case6 _ _ _ _ _ _ ih => exact ih h
  | case8 _ _ _ _ _ _ _ _ ih => exact ih h
  | _ => cases h

/-- A record is only taken from a container that was closed. -/
theorem isClosed_of_take {start t : σ} {room : Nat} {value : Value}
    (h : schema.take start room value = .ok t) : value.IsClosed := by
  cases value with
  | object members closed =>
    rw [Schema.take] at h
    cases closed with
    | true => rfl
    | false =>
      split at h
      · cases h
      · split at h
        · cases h
        · cases h
  | array items closed =>
    rw [Schema.take] at h
    split at h
    · cases h
    · exact closed_of_takeItems h
  | _ => exact absurd h refuse_ne_ok

end

/-- When a text that a batch is read from goes on, a batch is read again only if it goes on with
blanks. -/
theorem isSpace_of_decode_append {front back : String} {batch other : Batch}
    (hfront : decode front = .ok batch) (hall : decode (front ++ back) = .ok other) :
    ∀ c ∈ back.toList, isSpace c = true := by
  refine isSpace_of_tokens_eq_nil ?_
  by_contra hback
  cases hdocument : Document.ofText front with
  | mk value trailing =>
    rw [decode, hdocument, Document.toBatch] at hfront
    split at hfront
    · cases hfront
    · next drafts hdrafts =>
      have hclosed := isClosed_of_take hdrafts
      cases trailing with
      | true => cases hfront
      | false =>
        rw [decode, ofText_append hdocument hclosed hback, Document.toBatch] at hall
        split at hall
        · cases hall
        · cases hall

theorem getLast?_encode (batch : Batch) : (encode batch).toList.getLast? = some '\x7d' := by
  obtain ⟨body, hbody⟩ : ∃ body, (encode batch).toList = body ++ ['\x7d'] := by
    rw [encode, String.toList_ofList, ofBatch, member, Value.print]
    exact ⟨_, rfl⟩
  rw [hbody, List.getLast?_concat]

/-- No text that was cut off from the text of a batch is read. -/
theorem decode_front_ne_ok {batch : Batch} {front back : String}
    (h : encode batch = front ++ back) (hback : back ≠ "") (other : Batch) :
    decode front ≠ .ok other := by
  intro hfront
  have hall : decode (front ++ back) = .ok batch.canonical := by
    rw [← h]
    exact decode_printed batch
  have hspace := isSpace_of_decode_append hfront hall
  have hlast : back.toList.getLast? = some '\x7d' := by
    have hend := getLast?_encode batch
    have hnil : back.toList ≠ [] := by simpa using hback
    rw [h, String.toList_append, List.getLast?_append_of_ne_nil _ hnil] at hend
    exact hend
  have hclose := hspace _ (List.mem_of_getLast? hlast)
  cases hclose

end AttemptLedger.Json
