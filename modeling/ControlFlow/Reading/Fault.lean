import ControlFlow.Diagnostic
import ControlFlow.Options
/-!
# Faults of a text

The causes for which a text cannot be read, with the message, the class and the issuer of each.
-/

namespace ControlFlow

/-- The number of arguments that a form takes. -/
structure Arity where
  least : Nat
  /-- No bound if absent. -/
  most : Option Nat
deriving DecidableEq, Repr, Inhabited

namespace Arity

/-- Exactly `n` arguments. -/
def exactly (n : Nat) : Arity := ⟨n, some n⟩

/-- From `m` to `n` arguments. -/
def between (m n : Nat) : Arity := ⟨m, some n⟩

/-- At least `n` arguments. -/
def atLeast (n : Nat) : Arity := ⟨n, none⟩

/-- The text of an arity. -/
def render (a : Arity) : String :=
  match a.most with
  | some m => if m = a.least then toString a.least else s!"{a.least} to {m}"
  | none => s!"at least {a.least}"

end Arity

/-- What is wanted where the forms of a text cannot go on. -/
inductive Wanted where
  /-- Another form of the list. -/
  | item
  /-- A text of forms from the start. -/
  | document
  /-- Another form, or the end of the text. -/
  | formOrEnd
deriving DecidableEq, Repr, Inhabited

/-- The text of what is wanted. -/
def Wanted.render : Wanted → String
  | .item => "expected list, string, float, integer, or symbol"
  | .document => "expected document"
  | .formOrEnd => "expected EOI, list, string, float, integer, or symbol"

/-- The causes for which a text cannot be read. -/
inductive ReadFault where
  | emptySource (name : String)
  | nesting (limit : Nat)
  | noStack (options : Options) (reason : String)
  | unmatched (wanted : Wanted)
  | integerRange (word : String)
  | topLevel (count : Nat)
  | untagged
  | emptyForm
  | atomForForm
  | arity (tag : String) (expected : Arity) (found : Nat)
  | noName
  | noText
  | notSeq (tag : String)
  | notDef (tag : String)
  | parameterKind (tag : String)
  | notTarget (tag : String)
  | notAlternative (tag : String)
  | notElse (tag : String)
  | notParams
  | bareSymbol (name : String)
  | notNumber (tag : String)
  | notEnsure (tag : String)
  | binaryOperator (word : String)
  | unaryOperator (word : String)
  | caseClause
  | unknownForm (tag : String)
deriving DecidableEq, Repr, Inhabited

namespace ReadFault

/-- The message of a fault. -/
def message : ReadFault → String
  | emptySource name => s!"{name} contains no forms"
  | nesting limit => s!"lists nest deeper than the limit of {limit} levels"
  | noStack options reason => options.noStackMessage reason
  | unmatched wanted => s!"Malformed s-expression: {wanted.render}"
  | integerRange word => s!"Integer literal {word} is out of range."
  | topLevel count => s!"Expected exactly one top-level form, found {count}."
  | untagged => "Form must start with a symbol tag."
  | emptyForm => "Empty form."
  | atomForForm => "Expected a form, found an atom."
  | arity tag expected found =>
    s!"Form `{tag}` expects {expected.render} argument(s), found {found}."
  | noName => "Expected a name."
  | noText => "Expected a string atom."
  | notSeq tag => s!"Expected a `seq` form, found `{tag}`."
  | notDef tag => s!"Expected a `def` form, found `{tag}`."
  | parameterKind tag => s!"Unknown parameter kind `{tag}`."
  | notTarget tag => s!"`{tag}` is not an assignable target."
  | notAlternative tag => s!"Expected `elsif` or `else`, found `{tag}`."
  | notElse tag => s!"Expected an `else` form, found `{tag}`."
  | notParams => "A `do-block` starts with a `params` form."
  | bareSymbol name => s!"Bare symbol `{name}` is not an expression."
  | notNumber tag => s!"Form `{tag}` expects a number."
  | notEnsure tag => s!"Expected an `ensure` form, found `{tag}`."
  | binaryOperator word => s!"Unknown binary operator `{word}`."
  | unaryOperator word => s!"Unknown unary operator `{word}`."
  | caseClause => "Expected a `when` clause or a final `else`."
  | unknownForm tag => s!"Unknown or misplaced form `{tag}`."

/-- The class of a fault. -/
def kind : ReadFault → ReadClass
  | emptySource _ => .emptySource
  | nesting _ | noStack .. => .tooDeep
  | unmatched _ | integerRange _ => .malformed
  | _ => .unknownForm

/-- The last part of the path of the issuer of a fault. -/
def routine : ReadFault → String
  | emptySource _ | noStack .. | topLevel _ => "read_source"
  | nesting _ => "check_nesting"
  | unmatched _ => "read_forms"
  | integerRange _ => "lower_pair"
  | untagged | emptyForm | atomForForm => "form"
  | arity .. => "arity"
  | noName => "name"
  | noText => "string"
  | notSeq _ => "seq"
  | notDef _ => "scope_header"
  | parameterKind _ => "param"
  | notTarget _ => "target"
  | notAlternative _ => "alternative"
  | notElse _ => "else_body"
  | notParams => "block_literal"
  | bareSymbol _ | notNumber _ | notEnsure _ | binaryOperator _ | unaryOperator _ | caseClause
  | unknownForm _ => "expr"

/-- The issuer of a fault. -/
def issuer (f : ReadFault) : String := "flowgraph.ast.sexp." ++ f.routine

end ReadFault

/-- A fault and its place in the text. -/
structure ReadError where
  fault : ReadFault
  location : Option Location := none
  span : Option Span := none
deriving DecidableEq, Repr, Inhabited

namespace ReadError

/-- What is told about an error. -/
def diagnostic (e : ReadError) : Diagnostic where
  category := .read e.fault.kind
  message := e.fault.message
  issuer := e.fault.issuer
  location := e.location
  span := e.span

end ReadError

end ControlFlow
