import ControlFlow.Form.Token
/-!
# From tokens to forms

The brackets of a text are matched with a stack of the lists that are still open. Matching fails at
the first token that no form can go on with: a closing bracket outside of all lists, a broken quoted
text, or the end of the text inside a list.
-/

namespace ControlFlow

/-- A list that is still open: where it starts, and the forms before it in the list around it, in
reverse. -/
structure OpenList where
  start : Position
  before : List Form
deriving Inhabited, Repr

/-- Where the forms of a text cannot go on. -/
structure Unmatched where
  position : Position
  /-- Whether a list is open there. -/
  inList : Bool
deriving DecidableEq, Repr, Inhabited

namespace Form

/-- The forms of the tokens that are left. `stack` holds the open lists, the innermost first, and
`items` the forms of the innermost one, in reverse. -/
def assemble (ending : Ending) :
    List Token → List OpenList → List Form → Except Unmatched (List Form)
  | [], stack, items =>
    match ending with
    | .broken start => .error ⟨start, !stack.isEmpty⟩
    | .clean finish => if stack.isEmpty then .ok items.reverse else .error ⟨finish, true⟩
  | token :: rest, stack, items =>
    match token.lexeme with
    | .opening => assemble ending rest (⟨token.extent.start, items⟩ :: stack) []
    | .closing =>
      match stack with
      | [] => .error ⟨token.extent.start, false⟩
      | frame :: outer =>
        let closed := Form.list ⟨frame.start, token.extent.stop⟩ items.reverse
        assemble ending rest outer (closed :: frame.before)
    | .word text => assemble ending rest stack (.atom token.extent (.ofWord text) :: items)
    | .quoted value => assemble ending rest stack (.atom token.extent (.text value) :: items)

/-- The forms of a text. -/
def ofTokens (tokens : Tokens) : Except Unmatched (List Form) :=
  assemble tokens.ending tokens.items [] []

end Form

/-- The word of a token that spells an integer out of range. -/
def Token.oversized? (t : Token) : Option String :=
  match t.lexeme with
  | .word text =>
    match Word.integer? text.toList with
    | some n => if Word.inRange n then none else some text
    | none => none
  | _ => none

end ControlFlow
