import AttemptLedger.Json.Printer
import AttemptLedger.Json.Token
import Mathlib.Data.List.Chain
import Mathlib.Data.List.Forall2
import Mathlib.Data.List.TakeWhile

/-!
# The texts of tokens

All texts of a token by the grammar of RFC 8259: every character of a text may be written as it is, by a
short escape or by its code units, and numbers may have any fraction and exponent. However tokens are
spelled and whatever blanks stand between them, the same tokens are read, as long as no two numbers
stand side by side. What is printed is one of the spellings.
-/

namespace AttemptLedger.Json

/-! ### Texts -/

/-- Escapes of one letter, and the characters that they stand for. -/
def shortEscapes : List (Char × Char) :=
  [('"', '"'), ('\\', '\\'), ('/', '/'), ('b', '\x08'), ('f', '\x0c'), ('n', '\n'), ('r', '\r'),
    ('t', '\t')]

def hexDigits : List (Char × Nat) :=
  "0123456789abcdef".toList.zipIdx ++ "ABCDEF".toList.zipIdx 10

inductive Piece.Spelled : Piece → List Char → Prop
  | plain {c : Char} : 0x20 ≤ c.toNat → c ≠ '"' → c ≠ '\\' → Spelled (.char c) [c]
  | short {letter c : Char} : (letter, c) ∈ shortEscapes → Spelled (.char c) ['\\', letter]
  | unit {a b c d : Char} {w x y z : Nat} : (a, w) ∈ hexDigits → (b, x) ∈ hexDigits →
      (c, y) ∈ hexDigits → (d, z) ∈ hexDigits →
      Spelled (.unit (((w * 16 + x) * 16 + y) * 16 + z)) ['\\', 'u', a, b, c, d]

/-- What stands between quotes, cut into pieces. -/
inductive PiecesSpelled : List Piece → List Char → Prop
  | nil : PiecesSpelled [] []
  | cons {piece : Piece} {pieces : List Piece} {cs rest : List Char} : piece.Spelled cs →
      PiecesSpelled pieces rest → PiecesSpelled (piece :: pieces) (cs ++ rest)

/-- The characters that pieces stand for: a code unit stands for one unless it is a surrogate, and a
high surrogate stands for one together with the low one behind it. -/
inductive Denotes : List Piece → List Char → Prop
  | nil : Denotes [] []
  | char {c : Char} {pieces : List Piece} {cs : List Char} : Denotes pieces cs →
      Denotes (.char c :: pieces) (c :: cs)
  | unit {code : Nat} {pieces : List Piece} {cs : List Char} : code < 0xd800 ∨ 0xe000 ≤ code →
      Denotes pieces cs → Denotes (.unit code :: pieces) (Char.ofNat code :: cs)
  | pair {high low : Nat} {pieces : List Piece} {cs : List Char} : 0xd800 ≤ high → high < 0xdc00 →
      0xdc00 ≤ low → low < 0xe000 → Denotes pieces cs →
      Denotes (.unit high :: .unit low :: pieces)
        (Char.ofNat (0x10000 + (high - 0xd800) * 0x400 + (low - 0xdc00)) :: cs)

theorem hexValue?_of_mem {c : Char} {value : Nat} (h : (c, value) ∈ hexDigits) :
    hexValue? c = some value := by
  have hall : ∀ digit ∈ hexDigits, hexValue? digit.1 = some digit.2 := by decide
  exact hall _ h

theorem codeUnit?_of_mem {a b c d : Char} {w x y z : Nat} (ha : (a, w) ∈ hexDigits)
    (hb : (b, x) ∈ hexDigits) (hc : (c, y) ∈ hexDigits) (hd : (d, z) ∈ hexDigits) :
    codeUnit? a b c d = some (((w * 16 + x) * 16 + y) * 16 + z) := by
  rw [codeUnit?, hexValue?_of_mem ha, hexValue?_of_mem hb, hexValue?_of_mem hc, hexValue?_of_mem hd]

theorem escaped?_of_mem {letter c : Char} (h : (letter, c) ∈ shortEscapes) :
    letter ≠ 'u' ∧ escaped? letter = some c := by
  have hall : ∀ escape ∈ shortEscapes,
      escape.1 ≠ 'u' ∧ escaped? escape.1 = some escape.2 := by decide
  exact hall _ h

theorem pieces?_letter {letter c : Char} (hletter : letter ≠ 'u') (hc : escaped? letter = some c)
    {rest after : List Char} {pieces : List Piece} (h : pieces? rest = some (pieces, after)) :
    pieces? ('\\' :: letter :: rest) = some (.char c :: pieces, after) := by
  rw [pieces?]
  · rw [hc, h]
  · intro a b c d tail hu
    exact absurd hu hletter

theorem pieces?_plain {c : Char} (hcontrol : 0x20 ≤ c.toNat) (hquote : c ≠ '"')
    (hbackslash : c ≠ '\\') {rest after : List Char} {pieces : List Piece}
    (h : pieces? rest = some (pieces, after)) :
    pieces? (c :: rest) = some (.char c :: pieces, after) := by
  rw [pieces?, if_neg, h]
  · rintro (hlt | heq)
    · omega
    · exact hbackslash heq
  · exact hquote
  · intro _ _ _ _ _ heq
    exact absurd heq hbackslash
  · intro _ _ heq
    exact absurd heq hbackslash

theorem pieces?_unit {a b c d : Char} {code : Nat} (hcode : codeUnit? a b c d = some code)
    {rest after : List Char} {pieces : List Piece} (h : pieces? rest = some (pieces, after)) :
    pieces? ('\\' :: 'u' :: a :: b :: c :: d :: rest) = some (.unit code :: pieces, after) := by
  rw [pieces?, hcode, h]

theorem pieces?_of_spelled {pieces : List Piece} {cs : List Char} (h : PiecesSpelled pieces cs)
    (rest : List Char) : pieces? (cs ++ '"' :: rest) = some (pieces, rest) := by
  induction h with
  | nil => rw [List.nil_append, pieces?]
  | cons hpiece _ ih =>
    rw [List.append_assoc]
    cases hpiece with
    | plain hcontrol hquote hbackslash => exact pieces?_plain hcontrol hquote hbackslash ih
    | short hmem =>
      obtain ⟨hletter, hc⟩ := escaped?_of_mem hmem
      exact pieces?_letter hletter hc ih
    | unit ha hb hc hd =>
      exact pieces?_unit (codeUnit?_of_mem ha hb hc hd) ih

theorem denotes_of_characters? {pieces : List Piece} {cs : List Char}
    (h : characters? pieces = some cs) : Denotes pieces cs := by
  fun_induction characters? pieces generalizing cs with
  | case1 =>
    cases h
    exact .nil
  | case2 c rest ih =>
    obtain ⟨tail, htail, rfl⟩ := Option.map_eq_some_iff.1 h
    exact .char (ih htail)
  | case3 high low rest hhigh hlow ih =>
    obtain ⟨tail, htail, rfl⟩ := Option.map_eq_some_iff.1 h
    exact .pair hhigh.1 hhigh.2 hlow.1 hlow.2 (ih htail)
  | case4 => cases h
  | case5 => cases h
  | case6 high low rest hhigh hlow ih =>
    obtain ⟨tail, htail, rfl⟩ := Option.map_eq_some_iff.1 h
    exact .unit (by omega) (ih htail)
  | case7 => cases h
  | case8 code rest _ hcode ih =>
    obtain ⟨tail, htail, rfl⟩ := Option.map_eq_some_iff.1 h
    exact .unit (by omega) (ih htail)

theorem characters?_unit {code : Nat} (h : code < 0xd800 ∨ 0xe000 ≤ code) (pieces : List Piece) :
    characters? (.unit code :: pieces) = (characters? pieces).map (Char.ofNat code :: ·) := by
  have hlow : ¬(0xd800 ≤ code ∧ code < 0xdc00) := by omega
  have hhigh : ¬(0xdc00 ≤ code ∧ code < 0xe000) := by omega
  have hsurrogate : ¬(0xd800 ≤ code ∧ code < 0xe000) := by omega
  cases pieces with
  | nil => simp [characters?, hsurrogate]
  | cons piece pieces =>
    cases piece with
    | char c => simp [characters?, hsurrogate]
    | unit low => rw [characters?, if_neg hlow, if_neg hhigh]

theorem characters?_of_denotes {pieces : List Piece} {cs : List Char} (h : Denotes pieces cs) :
    characters? pieces = some cs := by
  induction h with
  | nil => rw [characters?]
  | char _ ih => rw [characters?, ih, Option.map_some]
  | unit hcode _ ih => rw [characters?_unit hcode, ih, Option.map_some]
  | pair hhigh hhigh' hlow hlow' _ ih =>
    rw [characters?, if_pos ⟨hhigh, hhigh'⟩, if_pos ⟨hlow, hlow'⟩, ih, Option.map_some]

/-- The characters read are the ones that the pieces stand for. -/
theorem characters?_eq_some_iff {pieces : List Piece} {cs : List Char} :
    characters? pieces = some cs ↔ Denotes pieces cs :=
  ⟨denotes_of_characters?, characters?_of_denotes⟩

/-! ### Numbers -/

def AreDigits (cs : List Char) : Prop := cs ≠ [] ∧ ∀ c ∈ cs, c.isDigit = true

inductive FractionSpelled : List Nat → List Char → Prop
  | none : FractionSpelled [] []
  | digits {cs : List Char} : AreDigits cs →
      FractionSpelled (cs.map Text.digitValue) ('.' :: cs)

inductive ExponentSpelled : Option Int → List Char → Prop
  | none : ExponentSpelled none []
  | positive {letter : Char} {plus cs : List Char} : letter = 'e' ∨ letter = 'E' →
      plus = [] ∨ plus = ['+'] → AreDigits cs →
      ExponentSpelled (some (valueOfDigits (cs.map Text.digitValue))) (letter :: (plus ++ cs))
  | negative {letter : Char} {cs : List Char} : letter = 'e' ∨ letter = 'E' → AreDigits cs →
      ExponentSpelled (some (-(valueOfDigits (cs.map Text.digitValue) : Int))) (letter :: '-' :: cs)

/-- The texts of a number: its digits before the point have no zeros in front. -/
inductive Number.Spelled : Number → List Char → Prop
  | intro {negative : Bool} {whole : Nat} {fraction : List Nat} {exponent : Option Int}
      {fractionText exponentText : List Char} : FractionSpelled fraction fractionText →
      ExponentSpelled exponent exponentText →
      Spelled ⟨negative, whole, fraction, exponent⟩
        ((if negative then ['-'] else [])
          ++ (Nat.toDigits 10 whole ++ (fractionText ++ exponentText)))

/-- No character follows that a number literal could go on with. -/
def NumberEnds (rest : List Char) : Prop :=
  ∀ c ∈ rest.head?, c.isDigit = false ∧ c ≠ '.' ∧ c ≠ 'e' ∧ c ≠ 'E'

theorem isDigit_of_mem_toDigits {n : Nat} {c : Char} (h : c ∈ Nat.toDigits 10 n) :
    c.isDigit = true :=
  Nat.isDigit_of_mem_toDigits (by decide) (by decide) h

theorem digits_append {cs rest : List Char} (hcs : ∀ c ∈ cs, c.isDigit = true)
    (hrest : ∀ c ∈ rest.head?, c.isDigit = false) :
    digits (cs ++ rest) = (cs.map Text.digitValue, rest) := by
  have htake : rest.takeWhile Char.isDigit = [] := by
    cases rest with
    | nil => rfl
    | cons c rest => simp [hrest c rfl]
  have hdrop : rest.dropWhile Char.isDigit = rest := by
    cases rest with
    | nil => rfl
    | cons c rest => simp [hrest c rfl]
  rw [digits, List.takeWhile_append_of_pos hcs, List.dropWhile_append_of_pos hcs, htake, hdrop,
    List.append_nil]

theorem valueOfDigits_toDigits (n : Nat) :
    valueOfDigits ((Nat.toDigits 10 n).map Text.digitValue) = n := by
  rw [valueOfDigits, List.foldl_map]
  exact Nat.ofDigitChars_ten_toDigits

theorem head_toDigits_ne_zero {n : Nat} (h : 0 < n) :
    ∃ d ds, (Nat.toDigits 10 n).map Text.digitValue = d :: ds ∧ d ≠ 0 := by
  induction n using Nat.strongRecOn with
  | ind n ih =>
    by_cases hsmall : n < 10
    · refine ⟨n, [], ?_, Nat.ne_of_gt h⟩
      have hvalue : Text.digitValue n.digitChar = n := Nat.toNat_digitChar_sub_48_of_lt_ten hsmall
      rw [Nat.toDigits_of_lt_base hsmall, List.map_singleton, hvalue]
    · obtain ⟨d, ds, hhead, hd⟩ := ih (n / 10) (by omega) (by omega)
      refine ⟨d, ds ++ [Text.digitValue (n % 10).digitChar], ?_, hd⟩
      rw [Nat.toDigits_of_base_le (by decide) (by omega), List.map_append, hhead]
      rfl

theorem whole?_toDigits (n : Nat) {rest : List Char} (hrest : ∀ c ∈ rest.head?, c.isDigit = false) :
    whole? (Nat.toDigits 10 n ++ rest) = some (n, rest) := by
  have hdigits : digits (Nat.toDigits 10 n ++ rest) = _ :=
    digits_append (fun _ hc => isDigit_of_mem_toDigits hc) hrest
  have hvalue := valueOfDigits_toDigits n
  unfold whole?
  rw [hdigits]
  rcases Nat.eq_zero_or_pos n with rfl | hpos
  · rfl
  · obtain ⟨d, ds, hhead, hd⟩ := head_toDigits_ne_zero hpos
    rw [hhead] at hvalue ⊢
    split
    · next heq => cases heq
    · next heq =>
      cases heq
      exact absurd rfl hd
    · next heq =>
      cases heq
      rw [hvalue]

theorem digits_of_areDigits {cs rest : List Char} (hcs : AreDigits cs)
    (hrest : ∀ c ∈ rest.head?, c.isDigit = false) :
    ∃ d ds, cs.map Text.digitValue = d :: ds ∧ digits (cs ++ rest) = (d :: ds, rest) := by
  obtain ⟨hne, hdigits⟩ := hcs
  rw [digits_append hdigits hrest]
  cases cs with
  | nil => exact absurd rfl hne
  | cons c cs => exact ⟨_, _, rfl, rfl⟩

theorem signedExponent?_of_areDigits (negative : Bool) {cs rest : List Char} (hcs : AreDigits cs)
    (hrest : NumberEnds rest) :
    signedExponent? negative (cs ++ rest)
      = some (some (if negative then -(valueOfDigits (cs.map Text.digitValue) : Int)
          else valueOfDigits (cs.map Text.digitValue)), rest) := by
  obtain ⟨d, ds, hvalues, hdigits⟩ := digits_of_areDigits hcs fun c hc => (hrest c hc).1
  rw [signedExponent?, hdigits, hvalues]

theorem cons_ne_of_areDigits {cs : List Char} (h : AreDigits cs) {c : Char}
    (hc : c.isDigit = false) (rest after : List Char) : cs ++ rest ≠ c :: after := by
  obtain ⟨hne, hdigits⟩ := h
  cases cs with
  | nil => exact absurd rfl hne
  | cons d cs =>
    intro heq
    cases heq
    rw [hdigits c (List.mem_cons_self ..)] at hc
    cases hc

theorem exponent?_of_spelled {exponent : Option Int} {cs rest : List Char}
    (h : ExponentSpelled exponent cs) (hrest : NumberEnds rest) :
    exponent? (cs ++ rest) = some (exponent, rest) := by
  cases h with
  | none =>
    cases rest with
    | nil => rfl
    | cons c rest =>
      obtain ⟨_, _, he, hE⟩ := hrest c rfl
      exact if_neg (not_or.2 ⟨he, hE⟩)
  | @positive letter plus cs hletter hplus hcs =>
    have hsigned := signedExponent?_of_areDigits false hcs hrest
    rcases hplus with rfl | rfl
    · rw [List.nil_append, List.cons_append, exponent?, if_pos hletter]
      · exact hsigned
      · exact cons_ne_of_areDigits hcs (by decide) rest
      · exact cons_ne_of_areDigits hcs (by decide) rest
    · rw [List.cons_append, List.singleton_append, List.cons_append, exponent?, if_pos hletter]
      exact hsigned
  | @negative letter cs hletter hcs =>
    have hsigned := signedExponent?_of_areDigits true hcs hrest
    rw [List.cons_append, List.cons_append, exponent?, if_pos hletter]
    exact hsigned

theorem fraction?_of_spelled {fraction : List Nat} {cs rest : List Char}
    (h : FractionSpelled fraction cs) (hrest : ∀ c ∈ rest.head?, c.isDigit = false ∧ c ≠ '.') :
    fraction? (cs ++ rest) = some (fraction, rest) := by
  cases h with
  | none =>
    cases rest with
    | nil => rfl
    | cons c rest =>
      rw [List.nil_append]
      unfold fraction?
      split
      · next heq =>
        cases heq
        exact absurd rfl (hrest '.' rfl).2
      · rfl
  | digits hcs =>
    obtain ⟨d, ds, hvalues, hdigits⟩ := digits_of_areDigits hcs fun c hc => (hrest c hc).1
    rw [List.cons_append, fraction?, hdigits, hvalues]

theorem head?_exponent {exponent : Option Int} {cs rest : List Char}
    (h : ExponentSpelled exponent cs) (hrest : NumberEnds rest) :
    ∀ c ∈ (cs ++ rest).head?, c.isDigit = false ∧ c ≠ '.' := by
  have hmark : ∀ letter : Char, letter = 'e' ∨ letter = 'E' →
      letter.isDigit = false ∧ letter ≠ '.' := by
    rintro letter (rfl | rfl) <;> decide
  intro c hc
  cases h with
  | none => exact ⟨(hrest c hc).1, (hrest c hc).2.1⟩
  | positive hletter _ _ =>
    cases hc
    exact hmark _ hletter
  | negative hletter _ =>
    cases hc
    exact hmark _ hletter

theorem head?_fraction {fraction : List Nat} {cs rest : List Char}
    (h : FractionSpelled fraction cs) (hrest : ∀ c ∈ rest.head?, c.isDigit = false) :
    ∀ c ∈ (cs ++ rest).head?, c.isDigit = false := by
  intro c hc
  cases h with
  | none => exact hrest c hc
  | digits _ =>
    cases hc
    rfl

theorem token?_of_isDigit {c : Char} (hc : c.isDigit = true) (cs : List Char) :
    token? (c :: cs)
      = (number? false (c :: cs)).map fun (literal, rest) => (.number literal, rest) := by
  unfold token?
  split
  case h_12 => rfl
  all_goals
    next heq =>
      cases heq
      exact absurd hc (by decide)

theorem token?_of_number {literal : Number} {cs rest : List Char} (h : literal.Spelled cs)
    (hrest : NumberEnds rest) : token? (cs ++ rest) = some (.number literal, rest) := by
  obtain @⟨negative, whole, fraction, exponent, fractionText, exponentText, hfraction, hexponent⟩ := h
  have hafter := head?_exponent hexponent hrest
  have hbehind := head?_fraction hfraction fun c hc => (hafter c hc).1
  have hnumber : number? negative
      (Nat.toDigits 10 whole ++ (fractionText ++ (exponentText ++ rest)))
        = some (⟨negative, whole, fraction, exponent⟩, rest) := by
    rw [number?, whole?_toDigits whole hbehind]
    dsimp only
    rw [fraction?_of_spelled hfraction hafter]
    dsimp only
    rw [exponent?_of_spelled hexponent hrest]
  simp only [List.append_assoc]
  cases negative with
  | true =>
    rw [if_pos rfl, List.singleton_append, token?, hnumber]
    rfl
  | false =>
    rw [if_neg Bool.false_ne_true, List.nil_append]
    cases hdigits : Nat.toDigits 10 whole with
    | nil => exact absurd hdigits Nat.toDigits_ne_nil
    | cons c cs =>
      have hc : c.isDigit = true := by
        refine isDigit_of_mem_toDigits (n := whole) ?_
        rw [hdigits]
        exact List.mem_cons_self ..
      rw [hdigits, List.cons_append] at hnumber
      rw [List.cons_append, token?_of_isDigit hc, hnumber]
      rfl

/-! ### Tokens -/

inductive Token.Spelled : Token → List Char → Prop
  | openArray : Spelled .openArray ['[']
  | closeArray : Spelled .closeArray [']']
  | openObject : Spelled .openObject ['\x7b']
  | closeObject : Spelled .closeObject ['\x7d']
  | comma : Spelled .comma [',']
  | colon : Spelled .colon [':']
  | null : Spelled .null ['n', 'u', 'l', 'l']
  | set : Spelled (.bool true) ['t', 'r', 'u', 'e']
  | unset : Spelled (.bool false) ['f', 'a', 'l', 's', 'e']
  | number {literal : Number} {cs : List Char} : literal.Spelled cs → Spelled (.number literal) cs
  | text {pieces : List Piece} {body content : List Char} : PiecesSpelled pieces body →
      Denotes pieces content → Spelled (.text (some (.ofList content))) ('"' :: (body ++ ['"']))
  /-- A text with surrogates of which some stand alone. -/
  | noText {pieces : List Piece} {body : List Char} : PiecesSpelled pieces body →
      (∀ content, ¬Denotes pieces content) → Spelled (.text none) ('"' :: (body ++ ['"']))

/-- The texts of tokens, with any blanks before, between and behind them. -/
inductive Layout : List Token → List Char → Prop
  | nil : Layout [] []
  | blank {c : Char} {tokens : List Token} {cs : List Char} : c ∈ [' ', '\t', '\n', '\r'] →
      Layout tokens cs → Layout tokens (c :: cs)
  | token {token : Token} {tokens : List Token} {cs rest : List Char} : token.Spelled cs →
      Layout tokens rest → Layout (token :: tokens) (cs ++ rest)

theorem Layout.mark {token : Token} {c : Char} {tokens : List Token} {rest : List Char}
    (h : token.Spelled [c]) (hrest : Layout tokens rest) : Layout (token :: tokens) (c :: rest) :=
  .token h hrest

def Token.IsNumber : Token → Prop
  | .number _ => True
  | _ => False

/-- No numbers stand side by side: the second could be read as more digits of the first. -/
def NumbersApart (tokens : List Token) : Prop :=
  tokens.IsChain fun first second => first.IsNumber → ¬second.IsNumber

theorem token?_of_spelled {token : Token} {cs rest : List Char} (h : token.Spelled cs)
    (hrest : token.IsNumber → NumberEnds rest) : token? (cs ++ rest) = some (token, rest) := by
  cases h with
  | number hnumber => exact token?_of_number hnumber (hrest True.intro)
  | @text pieces body content hpieces hdenotes =>
    rw [List.cons_append, List.append_assoc, List.singleton_append, token?,
      pieces?_of_spelled hpieces]
    dsimp only
    rw [characters?_eq_some_iff.2 hdenotes, Option.map_some]
  | @noText pieces body hpieces hnone =>
    have hcharacters : characters? pieces = none :=
      Option.eq_none_iff_forall_not_mem.2 fun content hcontent =>
        hnone content (characters?_eq_some_iff.1 hcontent)
    rw [List.cons_append, List.append_assoc, List.singleton_append, token?,
      pieces?_of_spelled hpieces]
    dsimp only
    rw [hcharacters, Option.map_none]
  | _ => rfl

theorem numberEnds_cons {c : Char} (h : c.isDigit = false ∧ c ≠ '.' ∧ c ≠ 'e' ∧ c ≠ 'E')
    (rest : List Char) : NumberEnds (c :: rest) := by
  intro d hd
  cases hd
  exact h

/-- A number ends where blanks or another token follow it. -/
theorem numberEnds_of_layout {tokens : List Token} {cs : List Char} (h : Layout tokens cs)
    (hhead : ∀ token ∈ tokens.head?, ¬token.IsNumber) : NumberEnds cs := by
  cases h with
  | nil =>
    intro c hc
    cases hc
  | blank hc _ =>
    have hall : ∀ c ∈ [' ', '\t', '\n', '\r'],
        c.isDigit = false ∧ c ≠ '.' ∧ c ≠ 'e' ∧ c ≠ 'E' := by simp
    exact numberEnds_cons (hall _ hc) _
  | token hspelled _ =>
    cases hspelled with
    | number => exact absurd True.intro (hhead _ rfl)
    | _ => exact numberEnds_cons (by decide) _

theorem isSpace_eq_false_of_token? {c : Char} {cs : List Char} {read : Token × List Char}
    (h : token? (c :: cs) = some read) : isSpace c = false := by
  rw [← Bool.not_eq_true]
  intro hspace
  simp only [isSpace, Bool.or_eq_true, beq_iff_eq] at hspace
  have hnone : token? (c :: cs) = none := by
    rcases hspace with ((rfl | rfl) | rfl) | rfl <;> rfl
  rw [hnone] at h
  cases h

theorem tokens_of_token? {cs rest : List Char} {token : Token}
    (h : token? cs = some (token, rest)) : tokens cs = token :: tokens rest := by
  cases cs with
  | nil => cases h
  | cons c cs =>
    have hspace := isSpace_eq_false_of_token? h
    rw [tokens, hspace, if_neg Bool.false_ne_true]
    split
    · next heq =>
      rw [h] at heq
      cases heq
      rfl
    · next heq =>
      rw [h] at heq
      cases heq

theorem tokens_of_layout {ts : List Token} {cs : List Char} (h : Layout ts cs)
    (hapart : NumbersApart ts) : tokens cs = ts := by
  induction h with
  | nil => rw [tokens]
  | blank hc _ ih =>
    have hall : ∀ c ∈ [' ', '\t', '\n', '\r'], isSpace c = true := by simp [isSpace]
    rw [tokens, if_pos (hall _ hc)]
    exact ih hapart
  | token hspelled hlayout ih =>
    obtain ⟨hhead, htail⟩ := List.isChain_cons.1 hapart
    have hend := fun hnumber => numberEnds_of_layout hlayout fun t ht => hhead t ht hnumber
    rw [tokens_of_token? (token?_of_spelled hspelled hend), ih htail]

theorem layout_of_spelled {tokens : List Token} {texts : List (List Char)}
    (h : List.Forall₂ Token.Spelled tokens texts) : Layout tokens texts.flatten := by
  induction h with
  | nil => exact .nil
  | cons hspelled _ ih => exact .token hspelled ih

/-! ### Printed texts and numbers -/

theorem mem_hexDigits {n : Nat} (h : n < 16) : (Nat.digitChar n, n) ∈ hexDigits := by
  have hall : ∀ n < 16, (Nat.digitChar n, n) ∈ hexDigits := by decide
  exact hall n h

/-- The characters that one character is printed as are a piece that stands for it. -/
theorem spelled_escapedChar (c : Char) :
    ∃ piece : Piece, piece.Spelled (escapedChar c)
      ∧ ∀ pieces cs, Denotes pieces cs → Denotes (piece :: pieces) (c :: cs) := by
  unfold escapedChar
  split
  case h_8 _ hquote hbackslash _ _ _ _ _ =>
    split
    · next hcontrol =>
      have hzero : ('0', 0) ∈ hexDigits := by decide
      have hunit := Piece.Spelled.unit hzero hzero
        (mem_hexDigits (n := c.toNat / 16) (by omega)) (mem_hexDigits (n := c.toNat % 16) (by omega))
      have hsum : ((0 * 16 + 0) * 16 + c.toNat / 16) * 16 + c.toNat % 16 = c.toNat := by omega
      rw [hsum] at hunit
      refine ⟨.unit c.toNat, hunit, fun pieces cs h => ?_⟩
      have hdenotes : Denotes (.unit c.toNat :: pieces) (Char.ofNat c.toNat :: cs) :=
        .unit (.inl (by omega)) h
      rwa [Char.ofNat_toNat] at hdenotes
    · next hcontrol =>
      exact ⟨.char c, .plain (Nat.le_of_not_lt hcontrol) hquote hbackslash, fun _ _ => .char⟩
  all_goals exact ⟨.char _, .short (by decide), fun _ _ => .char⟩

theorem spelled_escaped (text : String) : Token.Spelled (.text (some text)) (escaped text) := by
  have hpieces : ∀ cs : List Char,
      ∃ pieces, PiecesSpelled pieces (cs.flatMap escapedChar) ∧ Denotes pieces cs := by
    intro cs
    induction cs with
    | nil => exact ⟨[], .nil, .nil⟩
    | cons c cs ih =>
      obtain ⟨pieces, hspelled, hdenotes⟩ := ih
      obtain ⟨piece, hpiece, hcons⟩ := spelled_escapedChar c
      exact ⟨piece :: pieces, .cons hpiece hspelled, hcons pieces cs hdenotes⟩
  obtain ⟨pieces, hspelled, hdenotes⟩ := hpieces text.toList
  have htext := Token.Spelled.text hspelled hdenotes
  rwa [String.ofList_toList] at htext

theorem spelled_ofInt (n : Int) : (Number.ofInt n).Spelled (Number.ofInt n).print := by
  have hspelled : (Number.ofInt n).Spelled _ := .intro .none .none
  simpa [Number.print, Number.ofInt] using hspelled

end AttemptLedger.Json
