import ControlFlow.Form.Basic
/-!
# Tokens

A text is cut into brackets, words and quoted texts; blanks and comments stand between them. A
comment runs from a semicolon to the end of its line. In a quoted text a backslash stands before a
quote, a backslash, `n` for a line feed or `t` for a tab, and before nothing else.
-/

namespace ControlFlow

/-- What a token is. -/
inductive Lexeme where
  | opening
  | closing
  | word (text : String)
  | quoted (value : String)
deriving DecidableEq, Repr, Inhabited

/-- A token and its place in the text. -/
structure Token where
  lexeme : Lexeme
  extent : Extent
deriving DecidableEq, Repr, Inhabited

/-- How the tokens of a text end. -/
inductive Ending where
  /-- The text ends at a position, with all blanks and comments skipped. -/
  | clean (finish : Position)
  /-- The quoted text that opens at a position has no end, or an unknown escape. -/
  | broken (start : Position)
deriving DecidableEq, Repr, Inhabited

/-- The tokens of a text. -/
structure Tokens where
  items : List Token
  ending : Ending
deriving DecidableEq, Repr, Inhabited

namespace Tokens

/-- Where in a token, or between tokens, a text has been read to. The characters of an unfinished
token are kept in reverse. -/
inductive Mode where
  | gap
  | comment
  | word (start : Position) (reversed : List Char)
  | quoted (start : Position) (reversed : List Char)
  | escape (start : Position) (reversed : List Char)
deriving DecidableEq, Repr, Inhabited

/-- What one character does: it may complete tokens, and it leads to another mode or breaks off. -/
inductive Step where
  | go (completed : List Token) (next : Mode)
  | broken (start : Position)
deriving DecidableEq, Repr, Inhabited

/-- The character that a letter stands for after a backslash. -/
def escaped? : Char → Option Char
  | '"' => some '"'
  | '\\' => some '\\'
  | 'n' => some '\n'
  | 't' => some '\t'
  | _ => none

/-- A character between tokens, at position `p`. -/
def stepGap (p : Position) (c : Char) : List Token × Mode :=
  if Word.isGap c then ([], .gap)
  else if c = ';' then ([], .comment)
  else if c = '(' then ([⟨.opening, ⟨p, p.advance c⟩⟩], .gap)
  else if c = ')' then ([⟨.closing, ⟨p, p.advance c⟩⟩], .gap)
  else if c = '"' then ([], .quoted p [])
  else ([], .word p [c])

/-- The word that ends before position `p`. -/
def wordToken (start p : Position) (reversed : List Char) : Token :=
  ⟨.word (String.ofList reversed.reverse), ⟨start, p⟩⟩

/-- A character at position `p`. -/
def step (mode : Mode) (p : Position) (c : Char) : Step :=
  match mode with
  | .gap => let (done, next) := stepGap p c; .go done next
  | .comment => .go [] (if c = '\n' then .gap else .comment)
  | .word start reversed =>
    if Word.isWordChar c then .go [] (.word start (c :: reversed))
    else
      let (done, next) := stepGap p c
      .go (wordToken start p reversed :: done) next
  | .quoted start reversed =>
    if c = '"' then
      .go [⟨.quoted (String.ofList reversed.reverse), ⟨start, p.advance c⟩⟩] .gap
    else if c = '\\' then .go [] (.escape start reversed)
    else .go [] (.quoted start (c :: reversed))
  | .escape start reversed =>
    match escaped? c with
    | some d => .go [] (.quoted start (d :: reversed))
    | none => .broken start

/-- The tokens that the end of the text at position `p` completes, and how the text ends. -/
def finish (mode : Mode) (p : Position) : List Token × Ending :=
  match mode with
  | .gap | .comment => ([], .clean p)
  | .word start reversed => ([wordToken start p reversed], .clean p)
  | .quoted start _ | .escape start _ => ([], .broken start)

/-- The tokens of the rest of a text, behind those already read, which are kept in reverse. -/
def scan (mode : Mode) (p : Position) (done : List Token) : List Char → Tokens
  | [] =>
    let (last, ending) := finish mode p
    ⟨(last.reverse ++ done).reverse, ending⟩
  | c :: cs =>
    match step mode p c with
    | .go completed next => scan next (p.advance c) (completed.reverse ++ done) cs
    | .broken start => ⟨done.reverse, .broken start⟩

/-- The tokens of a text. -/
def ofText (text : String) : Tokens := scan .gap .origin [] text.toList

end Tokens

end ControlFlow
