import AttemptLedger.Forest.Dot

/-!
# Reading graph descriptions

A reader of the DOT language as far as directed graphs with attributes need it. Between quotes a backslash
makes the next character literal and any other character stands for itself, so what is quoted is one name
whatever it looks like; names without quotes are made of letters, digits and underscores. A graph is a list
of statements, one for each node or edge, with attributes in brackets.
-/

namespace AttemptLedger.Dot

inductive Token
  | name (text : String)
  | equals
  | arrow
  | openBracket
  | closeBracket
  | openBrace
  | closeBrace
  deriving DecidableEq, Repr

/-! ### Characters to tokens -/

inductive Place
  | between
  | inName
  | inQuotes
  | behindBackslash
  | behindDash
  deriving DecidableEq

/-- What was read so far, backwards: the name that has begun and the tokens in front of it. -/
structure Lexer where
  place : Place := .between
  name : List Char := []
  tokens : List Token := []

namespace Lexer

def isNameChar (c : Char) : Bool := c.isAlphanum || c == '_'

def push (lexer : Lexer) (place : Place) (c : Char) : Lexer :=
  { lexer with place := place, name := c :: lexer.name }

def emit (lexer : Lexer) (token : Token) : Lexer := { tokens := token :: lexer.tokens }

def endName (lexer : Lexer) : Lexer := lexer.emit (.name (String.ofList lexer.name.reverse))

/-- Takes in a character that stands outside of names. -/
def begin? (lexer : Lexer) (c : Char) : Option Lexer :=
  if isNameChar c then some (lexer.push .inName c)
  else match c with
    | ' ' | '\t' | '\n' | '\r' => some lexer
    | '"' => some { lexer with place := .inQuotes }
    | '-' => some { lexer with place := .behindDash }
    | '=' => some (lexer.emit .equals)
    | '[' => some (lexer.emit .openBracket)
    | ']' => some (lexer.emit .closeBracket)
    | '\x7b' => some (lexer.emit .openBrace)
    | '\x7d' => some (lexer.emit .closeBrace)
    | _ => none

def step (lexer : Lexer) (c : Char) : Option Lexer :=
  match lexer.place with
  | .between => lexer.begin? c
  | .inName => if isNameChar c then some (lexer.push .inName c) else lexer.endName.begin? c
  | .inQuotes =>
    if c = '"' then some lexer.endName
    else if c = '\\' then some { lexer with place := .behindBackslash }
    else some (lexer.push .inQuotes c)
  | .behindBackslash => some (lexer.push .inQuotes c)
  | .behindDash => if c = '>' then some (lexer.emit .arrow) else none

/-- The tokens of a text, which may not end inside one. -/
def finish (lexer : Lexer) : Option (List Token) :=
  if lexer.place = .between then some lexer.tokens.reverse else none

end Lexer

def tokens (text : List Char) : Option (List Token) := (text.foldlM Lexer.step {}).bind Lexer.finish

/-! ### Tokens to statements -/

/-- What a statement is about: a node, or an edge from one node to another. -/
inductive Subject
  | node (name : String)
  | edge (tail head : String)
  deriving DecidableEq, Repr

structure Statement where
  subject : Subject
  attributes : List (String × String) := []
  deriving DecidableEq, Repr

def Statement.add (statement : Statement) (added : String × String) : Statement :=
  { statement with attributes := statement.attributes ++ [added] }

/-- The statements up to the brace that closes the graph; `unfinished` is the one that has begun. -/
def statements : (unfinished : Option Statement) → List Token → Option (List Statement)
  | none, [.closeBrace] => some []
  | none, .name name :: .openBracket :: tokens => statements (some ⟨.node name, []⟩) tokens
  | none, .name tail :: .arrow :: .name head :: .openBracket :: tokens =>
    statements (some ⟨.edge tail head, []⟩) tokens
  | some statement, .name name :: .equals :: .name value :: tokens =>
    statements (some (statement.add (name, value))) tokens
  | some statement, .closeBracket :: tokens => (statements none tokens).map (statement :: ·)
  | _, _ => none

def graph : List Token → Option (List Statement)
  | .name "digraph" :: .openBrace :: tokens => statements none tokens
  | _ => none

/-- The statements of a text that describes a directed graph. -/
def read (text : String) : Option (List Statement) := (tokens text.toList).bind graph

/-! ### Escapes -/

/-- The characters of a text with one of them replaced wherever it stands. -/
def replaced (old : Char) (new cs : List Char) : List Char :=
  cs.flatMap fun c => if c = old then new else [c]

/-- The escapes of `to_dot`, which doubles the backslashes of a label and then puts one in front of each
quote: the second step adds nothing to the backslashes of the first. -/
theorem flatMap_labelChar (cs : List Char) :
    cs.flatMap labelChar = replaced '"' ['\\', '"'] (replaced '\\' ['\\', '\\'] cs) := by
  rw [replaced, replaced, List.flatMap_assoc]
  congr 1
  funext c
  by_cases hbackslash : c = '\\'
  · rw [hbackslash]
    rfl
  · by_cases hquote : c = '"'
    · rw [hquote]
      rfl
    · simp [labelChar, hbackslash, hquote]

/-! ### What a text spells -/

/-- Whether characters that stand outside of names spell tokens, whatever was read before. -/
def Spells (text : List Char) (ts : List Token) : Prop :=
  ∀ before, text.foldlM Lexer.step { tokens := before } = some { tokens := ts.reverse ++ before }

theorem read_of_spells {text : List Char} {ts : List Token} (h : Spells text ts) :
    read (String.ofList text) = graph ts := by
  have htokens : tokens text = some ts := by
    rw [tokens, h, List.append_nil, Option.bind_some, Lexer.finish, if_pos rfl, List.reverse_reverse]
  rw [read, String.toList_ofList, htokens, Option.bind_some]

theorem spells_nil : Spells [] [] := fun _ => rfl

theorem Spells.append {a b : List Char} {as bs : List Token} (ha : Spells a as) (hb : Spells b bs) :
    Spells (a ++ b) (as ++ bs) := by
  intro before
  rw [List.foldlM_append, ha, Option.bind_eq_bind, Option.bind_some, hb, List.reverse_append,
    List.append_assoc]

namespace Lexer

variable {front : List Char} {before : List Token}

theorem foldlM_name {cs : List Char} (h : ∀ c ∈ cs, isNameChar c = true) :
    cs.foldlM step ⟨.inName, front, before⟩ = some ⟨.inName, cs.reverse ++ front, before⟩ := by
  induction cs generalizing front with
  | nil => rfl
  | cons c cs ih =>
    obtain ⟨hc, hcs⟩ := List.forall_mem_cons.1 h
    have hstep : step ⟨.inName, front, before⟩ c = some ⟨.inName, c :: front, before⟩ := if_pos hc
    rw [List.foldlM_cons, hstep, Option.bind_eq_bind, Option.bind_some, ih hcs, List.reverse_cons,
      List.append_assoc]
    rfl

theorem foldlM_labelChars (cs : List Char) :
    (cs.flatMap labelChar).foldlM step ⟨.inQuotes, front, before⟩
      = some ⟨.inQuotes, cs.reverse ++ front, before⟩ := by
  induction cs generalizing front with
  | nil => rfl
  | cons c cs ih =>
    have hc : (labelChar c).foldlM step ⟨.inQuotes, front, before⟩
        = some ⟨.inQuotes, c :: front, before⟩ := by
      unfold labelChar
      split
      · rfl
      · next hplain =>
        obtain ⟨hbackslash, hquote⟩ := not_or.1 hplain
        simp [step, push, hquote, hbackslash]
    rw [List.flatMap_cons, List.foldlM_append, hc, Option.bind_eq_bind, Option.bind_some, ih,
      List.reverse_cons, List.append_assoc]
    rfl

end Lexer

/-- A label is one name, its text, whatever characters it has. -/
theorem spells_label (text : String) : Spells (label text) [.name text] := by
  intro before
  have hopen : Lexer.step { tokens := before } '"' = some ⟨.inQuotes, [], before⟩ := rfl
  have hclose : ∀ front, Lexer.step ⟨.inQuotes, front, before⟩ '"'
      = some { tokens := .name (String.ofList front.reverse) :: before } := fun _ => rfl
  rw [label, List.cons_append, List.foldlM_cons, hopen, Option.bind_eq_bind, Option.bind_some,
    List.foldlM_append, Lexer.foldlM_labelChars, Option.bind_eq_bind, Option.bind_some,
    List.foldlM_cons, hclose, List.append_nil, List.reverse_reverse, String.ofList_toList]
  rfl

example : tokens (label "a\" ] \\") = some [.name "a\" ] \\"] := by rfl

/-- A name without quotes ends in front of the first character that cannot be part of it. -/
theorem spells_name {cs rest : List Char} {c : Char} {ts : List Token} (hne : cs ≠ [])
    (hcs : ∀ x ∈ cs, Lexer.isNameChar x = true) (hc : Lexer.isNameChar c = false)
    (h : Spells (c :: rest) ts) : Spells (cs ++ c :: rest) (.name (String.ofList cs) :: ts) := by
  intro before
  obtain ⟨first, cs, rfl⟩ := List.exists_cons_of_ne_nil hne
  obtain ⟨hfirst, hcs⟩ := List.forall_mem_cons.1 hcs
  have hbegin : Lexer.step { tokens := before } first = some ⟨.inName, [first], before⟩ := if_pos hfirst
  have hend : Lexer.step ⟨.inName, cs.reverse ++ [first], before⟩ c
      = Lexer.step { tokens := .name (String.ofList (first :: cs)) :: before } c := by
    have hstop : Lexer.step ⟨.inName, cs.reverse ++ [first], before⟩ c
        = (Lexer.endName ⟨.inName, cs.reverse ++ [first], before⟩).begin? c := by
      rw [Lexer.step, hc]
      rfl
    rw [hstop, Lexer.endName, List.reverse_append, List.reverse_reverse]
    rfl
  have hrest := h (.name (String.ofList (first :: cs)) :: before)
  rw [List.foldlM_cons] at hrest
  rw [List.cons_append, List.foldlM_cons, hbegin, Option.bind_eq_bind, Option.bind_some,
    List.foldlM_append, Lexer.foldlM_name hcs, Option.bind_eq_bind, Option.bind_some, List.foldlM_cons,
    hend, hrest, List.reverse_cons, List.append_assoc]
  rfl

/-! ### What tokens state -/

def Subject.tokens : Subject → List Token
  | node name => [.name name]
  | edge tail head => [.name tail, .arrow, .name head]

def attributeTokens (attributes : List (String × String)) : List Token :=
  attributes.flatMap fun (name, value) => [.name name, .equals, .name value]

def Statement.tokens (statement : Statement) : List Token :=
  statement.subject.tokens ++ .openBracket :: attributeTokens statement.attributes ++ [.closeBracket]

theorem statements_attributeTokens (statement : Statement) (attributes : List (String × String))
    (rest : List Token) :
    statements (some statement) (attributeTokens attributes ++ .closeBracket :: rest)
      = (statements none rest).map
        (({ statement with attributes := statement.attributes ++ attributes } : Statement) :: ·) := by
  induction attributes generalizing statement with
  | nil => rw [List.append_nil]; rfl
  | cons first attributes ih =>
    have hfirst := ih (statement.add first)
    rw [Statement.add, List.append_assoc] at hfirst
    exact hfirst

theorem statements_cons (statement : Statement) (rest : List Token) :
    statements none (statement.tokens ++ rest) = (statements none rest).map (statement :: ·) := by
  obtain ⟨subject, attributes⟩ := statement
  have hread := statements_attributeTokens ⟨subject, []⟩ attributes rest
  rw [List.nil_append] at hread
  rw [← hread, Statement.tokens, List.append_assoc, List.append_assoc]
  cases subject <;> rfl

/-- The tokens of statements in braces state these statements and nothing else. -/
theorem graph_tokens (all : List Statement) :
    graph (.name "digraph" :: .openBrace :: (all.flatMap Statement.tokens ++ [.closeBrace])) = some all := by
  have hgraph : ∀ ts, graph (.name "digraph" :: .openBrace :: ts) = statements none ts := fun _ => rfl
  rw [hgraph]
  induction all with
  | nil => rfl
  | cons statement all ih =>
    rw [List.flatMap_cons, List.append_assoc, statements_cons, ih]
    rfl

end AttemptLedger.Dot
