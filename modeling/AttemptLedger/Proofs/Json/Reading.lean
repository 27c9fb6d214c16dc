import AttemptLedger.Json.Document
import AttemptLedger.Proofs.Json.Lexing

/-!
# Documents are read back from their texts

A document is whole if its containers are closed and every value that is due is there. From each text
of its tokens the same document is built again. What is printed for a plain document, whose texts and
keys are texts and whose numbers are integers, is one of these texts.
-/

namespace AttemptLedger.Json

/-- The documents that are printed. -/
inductive Value.Plain : Value → Prop
  | null : Plain .null
  | bool (value : Bool) : Plain (.bool value)
  | number (n : Int) : Plain (.number (.ofInt n))
  | text (content : String) : Plain (.text (some content))
  | array {items : List Value} : (∀ item ∈ items, Plain item) → Plain (.array items true)
  | object {members : List (Option String × Value)} : (∀ member ∈ members, member.1.isSome = true) →
      (∀ member ∈ members, Plain member.2) → Plain (.object members true)

/-- The documents whose containers are closed and that have every value that is due. -/
inductive Value.Whole : Value → Prop
  | null : Whole .null
  | bool (value : Bool) : Whole (.bool value)
  | number (literal : Number) : Whole (.number literal)
  | text (content : Option String) : Whole (.text content)
  | array {items : List Value} : (∀ item ∈ items, Whole item) → Whole (.array items true)
  | object {members : List (Option String × Value)} : (∀ member ∈ members, Whole member.2) →
      Whole (.object members true)

theorem Value.Plain.whole {value : Value} (h : value.Plain) : value.Whole := by
  induction h with
  | null => exact .null
  | bool flag => exact .bool flag
  | number n => exact .number (.ofInt n)
  | text content => exact .text (some content)
  | array _ ih => exact .array ih
  | object _ _ ih => exact .object ih

mutual

def Value.tokens : Value → List Token
  | .null => [.null]
  | .bool value => [.bool value]
  | .number literal => [.number literal]
  | .text content => [.text content]
  | .array [] _ => [.openArray, .closeArray]
  | .array (item :: items) _ =>
    .openArray :: (item.tokens ++ (itemTokens items ++ [.closeArray]))
  | .object [] _ => [.openObject, .closeObject]
  | .object ((key, value) :: members) _ =>
    .openObject :: .text key :: .colon ::
      (value.tokens ++ (memberTokens members ++ [.closeObject]))
  | .broken => []

def itemTokens : List Value → List Token
  | [] => []
  | item :: items => .comma :: (item.tokens ++ itemTokens items)

def memberTokens : List (Option String × Value) → List Token
  | [] => []
  | (key, value) :: members => .comma :: .text key :: .colon :: (value.tokens ++ memberTokens members)

end

/-! ### From the text to the tokens -/

theorem numbersApart_append {front back : List Token} {token : Token}
    (hfront : NumbersApart front) (hback : NumbersApart back)
    (htoken : ¬token.IsNumber := by exact id) : NumbersApart (front ++ token :: back) := by
  refine List.isChain_append.2 ⟨hfront, List.isChain_cons.2 ⟨?_, hback⟩, ?_⟩
  · intro _ _ hnumber
    exact absurd hnumber htoken
  · intro first _ second hsecond _
    cases hsecond
    exact htoken

theorem numbersApart_itemTokens {items : List Value}
    (h : ∀ item ∈ items, NumbersApart item.tokens) {front : List Token}
    (hfront : NumbersApart front) : NumbersApart (front ++ (itemTokens items ++ [.closeArray])) := by
  induction items generalizing front with
  | nil => exact numbersApart_append hfront .nil
  | cons item items ih =>
    obtain ⟨hitem, hitems⟩ := List.forall_mem_cons.1 h
    have hfirst : NumbersApart (front ++ .comma :: item.tokens) :=
      numbersApart_append hfront hitem
    rw [itemTokens]
    simpa using ih hitems hfirst

theorem numbersApart_member {value : Value} (h : NumbersApart value.tokens) (key : Option String)
    {front : List Token} {token : Token} (hfront : NumbersApart front)
    (htoken : ¬token.IsNumber := by exact id) :
    NumbersApart (front ++ token :: .text key :: .colon :: value.tokens) := by
  have hkey : NumbersApart ([.text key] ++ .colon :: value.tokens) :=
    numbersApart_append (.singleton _) h
  exact numbersApart_append hfront hkey htoken

theorem numbersApart_memberTokens {members : List (Option String × Value)}
    (h : ∀ member ∈ members, NumbersApart member.2.tokens) {front : List Token}
    (hfront : NumbersApart front) :
    NumbersApart (front ++ (memberTokens members ++ [.closeObject])) := by
  induction members generalizing front with
  | nil => exact numbersApart_append hfront .nil
  | cons member members ih =>
    obtain ⟨key, value⟩ := member
    obtain ⟨hvalue, hmembers⟩ := List.forall_mem_cons.1 h
    have hfirst : NumbersApart (front ++ .comma :: .text key :: .colon :: value.tokens) :=
      numbersApart_member hvalue key hfront
    rw [memberTokens]
    simpa using ih hmembers hfirst

theorem numbersApart_tokens {value : Value} (h : value.Whole) : NumbersApart value.tokens := by
  induction h with
  | @array items _ ih =>
    cases items with
    | nil =>
      have hempty : NumbersApart ([.openArray] ++ [.closeArray]) :=
        numbersApart_append (.singleton _) .nil
      exact hempty
    | cons item items =>
      obtain ⟨hitem, hitems⟩ := List.forall_mem_cons.1 ih
      have hfirst : NumbersApart ([] ++ .openArray :: item.tokens) := numbersApart_append .nil hitem
      rw [Value.tokens]
      simpa using numbersApart_itemTokens hitems hfirst
  | @object members _ ih =>
    cases members with
    | nil =>
      have hempty : NumbersApart ([.openObject] ++ [.closeObject]) :=
        numbersApart_append (.singleton _) .nil
      exact hempty
    | cons member members =>
      obtain ⟨key, value⟩ := member
      obtain ⟨hvalue, hmembers⟩ := List.forall_mem_cons.1 ih
      have hfirst : NumbersApart ([] ++ .openObject :: .text key :: .colon :: value.tokens) :=
        numbersApart_member hvalue key .nil
      rw [Value.tokens]
      simpa using numbersApart_memberTokens hmembers hfirst
  | _ => exact .singleton _

theorem layout_newLine (level : Nat) {tokens : List Token} {cs : List Char} (h : Layout tokens cs) :
    Layout tokens (newLine level ++ cs) := by
  have hspaces : ∀ n, Layout tokens (List.replicate n ' ' ++ cs) := by
    intro n
    induction n with
    | zero => exact h
    | succ n ih =>
      rw [List.replicate_succ, List.cons_append]
      exact .blank (by decide) ih
  rw [newLine, List.cons_append]
  exact .blank (by decide) (hspaces (2 * level))

/-- What is printed for the value is one of the texts of its tokens, whatever text follows. -/
def Prints (value : Value) : Prop :=
  ∀ level tokens rest, Layout tokens rest → Layout (value.tokens ++ tokens) (value.print level ++ rest)

theorem layout_printItems {items : List Value} (h : ∀ item ∈ items, Prints item) (level : Nat)
    {tokens : List Token} {rest : List Char} (hrest : Layout tokens rest) :
    Layout (itemTokens items ++ tokens) (Value.printItems level items ++ rest) := by
  induction items with
  | nil => exact hrest
  | cons item items ih =>
    obtain ⟨hitem, hitems⟩ := List.forall_mem_cons.1 h
    simp only [itemTokens, Value.printItems, List.cons_append, List.append_assoc]
    exact .mark .comma (layout_newLine level (hitem level _ _ (ih hitems)))

theorem layout_member {key : Option String} {value : Value} (hkey : key.isSome = true)
    (hvalue : Prints value) (level : Nat) {tokens : List Token} {rest : List Char}
    (hrest : Layout tokens rest) :
    Layout (.text key :: .colon :: (value.tokens ++ tokens))
      (escaped (key.getD "") ++ ':' :: ' ' :: (value.print level ++ rest)) := by
  obtain ⟨name, rfl⟩ := Option.isSome_iff_exists.1 hkey
  exact .token (spelled_escaped name)
    (.mark .colon (.blank (by decide) (hvalue level tokens rest hrest)))

theorem layout_printMembers {members : List (Option String × Value)}
    (hkeys : ∀ member ∈ members, member.1.isSome = true)
    (hvalues : ∀ member ∈ members, Prints member.2) (level : Nat) {tokens : List Token}
    {rest : List Char} (hrest : Layout tokens rest) :
    Layout (memberTokens members ++ tokens) (Value.printMembers level members ++ rest) := by
  induction members with
  | nil => exact hrest
  | cons member members ih =>
    obtain ⟨key, value⟩ := member
    obtain ⟨hkey, hkeys⟩ := List.forall_mem_cons.1 hkeys
    obtain ⟨hvalue, hvalues⟩ := List.forall_mem_cons.1 hvalues
    have hmember := layout_member hkey hvalue level (ih hkeys hvalues)
    simp only [memberTokens, Value.printMembers, List.cons_append, List.append_assoc,
      List.nil_append]
    exact .mark .comma (layout_newLine level hmember)

theorem prints_of_plain {value : Value} (h : value.Plain) : Prints value := by
  induction h with
  | null => exact fun _ _ _ hrest => .token .null hrest
  | bool flag =>
    intro level tokens rest hrest
    cases flag with
    | true => exact .token .set hrest
    | false => exact .token .unset hrest
  | number n => exact fun _ _ _ hrest => .token (.number (spelled_ofInt n)) hrest
  | text content => exact fun _ _ _ hrest => .token (spelled_escaped content) hrest
  | @array items _ ih =>
    intro level tokens rest hrest
    have hclose := layout_newLine level (.mark .closeArray hrest)
    cases items with
    | nil => exact .mark .openArray (.mark .closeArray hrest)
    | cons item items =>
      obtain ⟨hitem, hitems⟩ := List.forall_mem_cons.1 ih
      have hitems := layout_printItems hitems (level + 1) hclose
      simp only [Value.tokens, Value.print, List.cons_append, List.append_assoc, List.nil_append]
      exact .mark .openArray (layout_newLine _ (hitem _ _ _ hitems))
  | @object members hkeys _ ih =>
    intro level tokens rest hrest
    have hclose := layout_newLine level (.mark .closeObject hrest)
    cases members with
    | nil => exact .mark .openObject (.mark .closeObject hrest)
    | cons member members =>
      obtain ⟨key, value⟩ := member
      obtain ⟨hkey, hkeys⟩ := List.forall_mem_cons.1 hkeys
      obtain ⟨hvalue, hvalues⟩ := List.forall_mem_cons.1 ih
      have hmembers := layout_printMembers hkeys hvalues (level + 1) hclose
      simp only [Value.tokens, Value.print, List.cons_append, List.append_assoc, List.nil_append]
      exact .mark .openObject (layout_newLine _ (layout_member hkey hvalue _ hmembers))

/-! ### From the tokens to the document -/

/-- Where a value is due, its tokens are taken in as the value. -/
def Parses (value : Value) : Prop :=
  ∀ frames, value.tokens.foldl Progress.step (.reading frames .value) = .receive value frames

/-- No value starts with the end of a container, so a first item is taken in as any value is. -/
theorem foldl_tokens_itemOrEnd {value : Value} (h : value.Whole) (frames : List Frame) :
    value.tokens.foldl Progress.step (.reading (.array [] :: frames) .itemOrEnd)
      = value.tokens.foldl Progress.step (.reading (.array [] :: frames) .value) := by
  cases h with
  | @array items _ => cases items <;> rfl
  | @object members _ => cases members <;> rfl
  | _ => rfl

theorem foldl_itemTokens {items : List Value} (h : ∀ item ∈ items, Parses item)
    (before : List Value) (frames : List Frame) :
    (itemTokens items).foldl Progress.step (.reading (.array before :: frames) .separator)
      = .reading (.array (items.reverse ++ before) :: frames) .separator := by
  -- The open frame holds the items that were taken in, the latest first.
  induction items generalizing before with
  | nil => rfl
  | cons item items ih =>
    obtain ⟨hitem, hitems⟩ := List.forall_mem_cons.1 h
    have hcomma : Progress.step (.reading (.array before :: frames) .separator) .comma
        = .reading (.array before :: frames) .value := rfl
    rw [itemTokens, List.foldl_cons, hcomma, List.foldl_append, hitem, Progress.receive, ih hitems]
    simp

theorem foldl_member {value : Value} (h : Parses value) (key : Option String)
    (before : List (Option String × Value)) (frames : List Frame) :
    value.tokens.foldl Progress.step
        (.step (.step (.reading (.object before :: frames) .key) (.text key)) .colon)
      = .reading (.object ((key, value) :: before) :: frames) .separator :=
  h (.member before key :: frames)

theorem foldl_memberTokens {members : List (Option String × Value)}
    (h : ∀ member ∈ members, Parses member.2) (before : List (Option String × Value))
    (frames : List Frame) :
    (memberTokens members).foldl Progress.step (.reading (.object before :: frames) .separator)
      = .reading (.object (members.reverse ++ before) :: frames) .separator := by
  induction members generalizing before with
  | nil => rfl
  | cons member members ih =>
    obtain ⟨key, value⟩ := member
    obtain ⟨hvalue, hmembers⟩ := List.forall_mem_cons.1 h
    have hcomma : Progress.step (.reading (.object before :: frames) .separator) .comma
        = .reading (.object before :: frames) .key := rfl
    rw [memberTokens, List.foldl_cons, hcomma, List.foldl_cons, List.foldl_cons, List.foldl_append,
      foldl_member hvalue, ih hmembers]
    simp

theorem parses_array {items : List Value} (hwhole : ∀ item ∈ items, item.Whole)
    (h : ∀ item ∈ items, Parses item) : Parses (.array items true) := by
  intro frames
  cases items with
  | nil => rfl
  | cons item items =>
    obtain ⟨hfirst, _⟩ := List.forall_mem_cons.1 hwhole
    obtain ⟨hitem, hitems⟩ := List.forall_mem_cons.1 h
    have hopen : Progress.step (.reading frames .value) .openArray
        = .reading (.array [] :: frames) .itemOrEnd := rfl
    have hclose : ∀ before, Progress.step (.reading (.array before :: frames) .separator) .closeArray
        = .receive (.array before.reverse true) frames := fun _ => rfl
    rw [Value.tokens, List.foldl_cons, hopen, List.foldl_append, foldl_tokens_itemOrEnd hfirst,
      hitem, Progress.receive, List.foldl_append, foldl_itemTokens hitems, List.foldl_cons,
      List.foldl_nil, hclose]
    simp

theorem parses_object {members : List (Option String × Value)}
    (h : ∀ member ∈ members, Parses member.2) : Parses (.object members true) := by
  intro frames
  cases members with
  | nil => rfl
  | cons member members =>
    obtain ⟨key, value⟩ := member
    obtain ⟨hvalue, hmembers⟩ := List.forall_mem_cons.1 h
    have hfirst : ∀ key, Progress.step (.step (.reading frames .value) .openObject) (.text key)
        = .step (.reading (.object [] :: frames) .key) (.text key) := fun _ => rfl
    have hclose : ∀ before,
        Progress.step (.reading (.object before :: frames) .separator) .closeObject
          = .receive (.object before.reverse true) frames := fun _ => rfl
    rw [Value.tokens, List.foldl_cons, List.foldl_cons, hfirst, List.foldl_cons, List.foldl_append,
      foldl_member hvalue, List.foldl_append, foldl_memberTokens hmembers, List.foldl_cons,
      List.foldl_nil, hclose]
    simp

theorem parses_of_whole {value : Value} (h : value.Whole) : Parses value := by
  induction h with
  | array hitems ih => exact parses_array hitems ih
  | object _ ih => exact parses_object ih
  | _ =>
    intro frames
    rfl

/-- A document is built again from each of its texts, and nothing follows it there. -/
theorem ofText_of_layout {value : Value} (h : value.Whole) {text : String}
    (hlayout : Layout value.tokens text.toList) : Document.ofText text = ⟨value, false⟩ := by
  rw [Document.ofText, tokens_of_layout hlayout (numbersApart_tokens h), Document.ofTokens,
    parses_of_whole h []]
  rfl

theorem layout_print {value : Value} (h : value.Plain) :
    Layout value.tokens (String.ofList (value.print 0)).toList := by
  have hlayout := prints_of_plain h 0 [] [] .nil
  rwa [List.append_nil, List.append_nil, ← @String.toList_ofList (value.print 0)] at hlayout

/-- A plain document is read back from the text that is printed for it. -/
theorem ofText_print {value : Value} (h : value.Plain) :
    Document.ofText (String.ofList (value.print 0)) = ⟨value, false⟩ :=
  ofText_of_layout h.whole (layout_print h)

end AttemptLedger.Json
