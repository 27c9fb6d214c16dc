import AttemptLedger.Json.Number

/-!
# Tokens

The lexical grammar of RFC 8259: punctuation, three literal names, numbers and texts, with spaces,
tabs, line feeds and carriage returns between them. Reading stops at the first place where no token
starts, which is kept as a token of its own. Main statement: every token takes at least one character.
-/

namespace AttemptLedger.Json

inductive Token
  | openArray
  | closeArray
  | openObject
  | closeObject
  | comma
  | colon
  | null
  | bool (value : Bool)
  | number (literal : Number)
  | text (content : Option String)
  | invalid
  deriving DecidableEq, Repr

/-- A part of a text between quotes: a character, or a code unit of four hexadecimal digits. -/
inductive Piece
  | char (c : Char)
  | unit (code : Nat)
  deriving DecidableEq, Repr

def isSpace (c : Char) : Bool := c == ' ' || c == '\t' || c == '\n' || c == '\r'

def hexValue? (c : Char) : Option Nat :=
  if '0' ≤ c ∧ c ≤ '9' then some (c.toNat - '0'.toNat)
  else if 'a' ≤ c ∧ c ≤ 'f' then some (c.toNat - 'a'.toNat + 10)
  else if 'A' ≤ c ∧ c ≤ 'F' then some (c.toNat - 'A'.toNat + 10)
  else none

def codeUnit? (a b c d : Char) : Option Nat :=
  match hexValue? a, hexValue? b, hexValue? c, hexValue? d with
  | some a, some b, some c, some d => some (((a * 16 + b) * 16 + c) * 16 + d)
  | _, _, _, _ => none

def escaped? : Char → Option Char
  | '"' => some '"'
  | '\\' => some '\\'
  | '/' => some '/'
  | 'b' => some '\x08'
  | 'f' => some '\x0c'
  | 'n' => some '\n'
  | 'r' => some '\r'
  | 't' => some '\t'
  | _ => none

/-- The pieces up to the closing quote, and what follows it. -/
def pieces? : List Char → Option (List Piece × List Char)
  | [] => none
  | '"' :: rest => some ([], rest)
  | '\\' :: 'u' :: a :: b :: c :: d :: rest =>
    match codeUnit? a b c d, pieces? rest with
    | some code, some (pieces, rest) => some (.unit code :: pieces, rest)
    | _, _ => none
  | '\\' :: letter :: rest =>
    match escaped? letter, pieces? rest with
    | some c, some (pieces, rest) => some (.char c :: pieces, rest)
    | _, _ => none
  | c :: rest =>
    if c.toNat < 0x20 ∨ c = '\\' then none
    else
      match pieces? rest with
      | some (pieces, rest) => some (.char c :: pieces, rest)
      | none => none

/-- The characters of pieces; a high surrogate needs a low one behind it and a low one a high one
before it. -/
def characters? : List Piece → Option (List Char)
  | [] => some []
  | .char c :: rest => (characters? rest).map (c :: ·)
  | .unit high :: .unit low :: rest =>
    if 0xd800 ≤ high ∧ high < 0xdc00 then
      if 0xdc00 ≤ low ∧ low < 0xe000 then
        (characters? rest).map
          (Char.ofNat (0x10000 + (high - 0xd800) * 0x400 + (low - 0xdc00)) :: ·)
      else none
    else if 0xdc00 ≤ high ∧ high < 0xe000 then none
    else (characters? (.unit low :: rest)).map (Char.ofNat high :: ·)
  | .unit code :: rest =>
    if 0xd800 ≤ code ∧ code < 0xe000 then none
    else (characters? rest).map (Char.ofNat code :: ·)

def digits (cs : List Char) : List Nat × List Char :=
  ((cs.takeWhile Char.isDigit).map Text.digitValue, cs.dropWhile Char.isDigit)

def valueOfDigits (digits : List Nat) : Nat := digits.foldl (fun value digit => 10 * value + digit) 0

/-- The digits before the point: a single zero, or digits that start with another one. -/
def whole? (cs : List Char) : Option (Nat × List Char) :=
  match digits cs with
  | ([], _) => none
  | (0 :: _ :: _, _) => none
  | (ds, rest) => some (valueOfDigits ds, rest)

def fraction? : List Char → Option (List Nat × List Char)
  | '.' :: cs =>
    match digits cs with
    | ([], _) => none
    | (ds, rest) => some (ds, rest)
  | cs => some ([], cs)

def signedExponent? (negative : Bool) (cs : List Char) : Option (Option Int × List Char) :=
  match digits cs with
  | ([], _) => none
  | (ds, rest) =>
    some (some (if negative then -(valueOfDigits ds : Int) else valueOfDigits ds), rest)

def exponent? : List Char → Option (Option Int × List Char)
  | c :: cs =>
    if c = 'e' ∨ c = 'E' then
      match cs with
      | '+' :: cs => signedExponent? false cs
      | '-' :: cs => signedExponent? true cs
      | cs => signedExponent? false cs
    else some (none, c :: cs)
  | [] => some (none, [])

def number? (negative : Bool) (cs : List Char) : Option (Number × List Char) :=
  match whole? cs with
  | none => none
  | some (whole, cs) =>
    match fraction? cs with
    | none => none
    | some (fraction, cs) =>
      match exponent? cs with
      | none => none
      | some (exponent, rest) => some (⟨negative, whole, fraction, exponent⟩, rest)

def token? : List Char → Option (Token × List Char)
  | '[' :: rest => some (.openArray, rest)
  | ']' :: rest => some (.closeArray, rest)
  | '\x7b' :: rest => some (.openObject, rest)
  | '\x7d' :: rest => some (.closeObject, rest)
  | ',' :: rest => some (.comma, rest)
  | ':' :: rest => some (.colon, rest)
  | 'n' :: 'u' :: 'l' :: 'l' :: rest => some (.null, rest)
  | 't' :: 'r' :: 'u' :: 'e' :: rest => some (.bool true, rest)
  | 'f' :: 'a' :: 'l' :: 's' :: 'e' :: rest => some (.bool false, rest)
  | '"' :: rest =>
    match pieces? rest with
    | some (pieces, rest) => some (.text ((characters? pieces).map String.ofList), rest)
    | none => none
  | '-' :: rest => (number? true rest).map fun (literal, rest) => (.number literal, rest)
  | cs => (number? false cs).map fun (literal, rest) => (.number literal, rest)

theorem pieces?_length_lt {cs rest : List Char} {pieces : List Piece}
    (h : pieces? cs = some (pieces, rest)) : rest.length < cs.length := by
  fun_induction pieces? cs generalizing pieces rest with
  | case1 => simp at h
  | case2 tail => simp only [Option.some.injEq, Prod.mk.injEq] at h; simp [h.2]
  | case3 a b c d tail code pieces' rest' hRest hCode ih =>
    simp only [Option.some.injEq, Prod.mk.injEq] at h
    have := ih hRest
    rw [← h.2]
    simp only [List.length_cons]
    omega
  | case4 => simp at h
  | case5 letter tail _ c pieces' rest' hRest hc ih =>
    simp only [Option.some.injEq, Prod.mk.injEq] at h
    have := ih hRest
    rw [← h.2]
    simp only [List.length_cons]
    omega
  | case6 => simp at h
  | case7 => simp at h
  | case8 c tail _ _ _ _ pieces' rest' hRest ih =>
    simp only [Option.some.injEq, Prod.mk.injEq] at h
    have := ih hRest
    rw [← h.2]
    simp only [List.length_cons]
    omega
  | case9 => simp at h

theorem length_digits (cs : List Char) : (digits cs).1.length + (digits cs).2.length = cs.length := by
  simp only [digits, List.length_map]
  rw [← List.length_append, List.takeWhile_append_dropWhile]

theorem length_digits_le (cs : List Char) : (digits cs).2.length ≤ cs.length := by
  have := length_digits cs
  omega

theorem whole?_length_lt {cs rest : List Char} {whole : Nat} (h : whole? cs = some (whole, rest)) :
    rest.length < cs.length := by
  have hLength := length_digits cs
  unfold whole? at h
  split at h
  · simp at h
  · simp at h
  · next ds rest' hNil hZero heq =>
    rw [heq] at hLength
    simp only [Option.some.injEq, Prod.mk.injEq] at h
    rw [← h.2]
    cases ds with
    | nil => exact absurd rfl hNil
    | cons d ds => simp only [List.length_cons] at hLength; omega

theorem fraction?_length_le {cs rest : List Char} {fraction : List Nat}
    (h : fraction? cs = some (fraction, rest)) : rest.length ≤ cs.length := by
  unfold fraction? at h
  split at h
  · next tail =>
    have hLength := length_digits_le tail
    split at h
    · simp at h
    · next heq =>
      rw [heq] at hLength
      simp only [Option.some.injEq, Prod.mk.injEq] at h
      rw [← h.2]
      exact Nat.le_succ_of_le hLength
  · simp only [Option.some.injEq, Prod.mk.injEq] at h
    exact Nat.le_of_eq (congrArg List.length h.2.symm)

theorem signedExponent?_length_le {negative : Bool} {cs rest : List Char} {exponent : Option Int}
    (h : signedExponent? negative cs = some (exponent, rest)) : rest.length ≤ cs.length := by
  have hLength := length_digits_le cs
  unfold signedExponent? at h
  split at h
  · simp at h
  · next heq =>
    rw [heq] at hLength
    simp only [Option.some.injEq, Prod.mk.injEq] at h
    rw [← h.2]
    exact hLength

theorem exponent?_length_le {cs rest : List Char} {exponent : Option Int}
    (h : exponent? cs = some (exponent, rest)) : rest.length ≤ cs.length := by
  unfold exponent? at h
  split at h
  · split at h
    · split at h
      all_goals
        have hLength := signedExponent?_length_le h
        simp only [List.length_cons] at hLength ⊢
        omega
    · simp only [Option.some.injEq, Prod.mk.injEq] at h
      exact Nat.le_of_eq (congrArg List.length h.2.symm)
  · simp only [Option.some.injEq, Prod.mk.injEq] at h
    exact Nat.le_of_eq (congrArg List.length h.2.symm)

theorem number?_length_lt {negative : Bool} {cs rest : List Char} {literal : Number}
    (h : number? negative cs = some (literal, rest)) : rest.length < cs.length := by
  unfold number? at h
  split at h
  · simp at h
  · next hWhole =>
    have h1 := whole?_length_lt hWhole
    split at h
    · simp at h
    · next hFraction =>
      have h2 := fraction?_length_le hFraction
      split at h
      · simp at h
      · next hExponent =>
        have h3 := exponent?_length_le hExponent
        simp only [Option.some.injEq, Prod.mk.injEq] at h
        rw [← h.2]
        omega

theorem token?_length_lt {cs rest : List Char} {token : Token}
    (h : token? cs = some (token, rest)) : rest.length < cs.length := by
  unfold token? at h
  split at h
  case h_10 =>
    split at h
    · next hPieces =>
      have := pieces?_length_lt hPieces
      simp only [Option.some.injEq, Prod.mk.injEq] at h
      rw [← h.2]
      simp only [List.length_cons]
      omega
    · simp at h
  case h_11 =>
    simp only [Option.map_eq_some_iff, Prod.mk.injEq, Prod.exists] at h
    obtain ⟨literal, rest', hNumber, _, rfl⟩ := h
    have := number?_length_lt hNumber
    simp only [List.length_cons]
    omega
  case h_12 =>
    simp only [Option.map_eq_some_iff, Prod.mk.injEq, Prod.exists] at h
    obtain ⟨literal, rest', hNumber, _, rfl⟩ := h
    exact number?_length_lt hNumber
  all_goals
    simp only [Option.some.injEq, Prod.mk.injEq] at h
    rw [← h.2]
    simp only [List.length_cons]
    omega

/-- The tokens of a text; where none starts, the rest of the text is one invalid token. -/
def tokens : List Char → List Token
  | [] => []
  | c :: cs =>
    if isSpace c then tokens cs
    else
      match _h : token? (c :: cs) with
      | some (token, rest) => token :: tokens rest
      | none => [.invalid]
termination_by cs => cs.length
decreasing_by
  · simp
  · exact token?_length_lt _h

end AttemptLedger.Json
