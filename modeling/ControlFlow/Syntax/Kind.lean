import ControlFlow.Syntax.Binding
import ControlFlow.Syntax.Constant
import ControlFlow.Syntax.Operator
/-!
# Kinds of syntax nodes

What a node of the syntax tree says, over a type `α` of child nodes. `tag` names the kind, and
`fields` lists the children in the order of the program text, each with the role it plays.
-/

namespace ControlFlow

/-- Whether a loop runs while its condition holds or until it holds. -/
inductive LoopSense where
  | whileTrue
  | untilTrue
deriving DecidableEq, Repr, Inhabited

/-- What a node says, with children of type `α`. -/
inductive Kind (α : Type) where
  /-- The statements of one build. -/
  | program (body : List α)
  | literal (value : Constant)
  /-- Plain text inside a string, a command or a regular expression. -/
  | content (text : String)
  | str (parts : List α)
  /-- An expression inside a string. -/
  | embed (body : List α)
  /-- A string in backticks, which is run as a command. -/
  | command (parts : List α)
  | regexp (parts : List α) (options : String)
  | array (elements : List α)
  /-- A value that is spliced into the list around it. -/
  | splat (value : α)
  | void
  | selfRef
  | begin (body : α)
  | paren (body : List α)
  /-- Statements with an optional clause that runs however they end. -/
  | guarded (body : List α) (ensure : Option (List α))
  /-- A variable that is read; without a binding, a call on `self`. -/
  | varRef (name : String)
  /-- A variable that is assigned. -/
  | varTarget (name : String)
  /-- An attribute that is assigned. -/
  | fieldTarget (receiver : α) (name : String)
  | multiTarget (targets : List α)
  | assign (target value : α)
  | opAssign (target : α) (op : BinaryOp) (value : α)
  | binary (left : α) (op : BinaryOp) (right : α)
  | unary (op : UnaryOp) (operand : α)
  | ifThen (condition : α) (body : List α) (alternative : Option α)
  | elsif (condition : α) (body : List α) (alternative : Option α)
  | elseThen (body : List α)
  | ifMod (condition body : α)
  | unlessThen (condition : α) (body : List α) (otherwise : Option (List α))
  | unlessMod (condition body : α)
  | loop (sense : LoopSense) (condition : α) (body : List α)
  | loopMod (sense : LoopSense) (condition body : α)
  | forIn (target iterable : α) (body : List α)
  | case (subject : α) (clauses : List α) (otherwise : Option (List α))
  | whenThen (candidates body : List α)
  | returnWith (args : List α)
  | breakWith (args : List α)
  | nextWith (args : List α)
  | redo
  | call (receiver : Option α) (method : String) (args : List α) (blockPass block : Option α)
  /-- A block literal. -/
  | doBlock (params : List Parameter) (body : List α)
  | super (args : List α) (blockPass block : Option α)
  /-- A `super` that passes the parameters of the enclosing method on. -/
  | zsuper (block : Option α)
deriving Repr, Inhabited

/-- The part that a child plays in its parent. -/
inductive Role where
  | body
  | part
  | element
  | value
  | ensure
  | receiver
  | target
  | left
  | right
  | operand
  | condition
  | alternative
  | otherwise
  | iterable
  | subject
  | clause
  | candidate
  | arg
  | blockPass
  | block
deriving DecidableEq, Repr, Inhabited

namespace Kind

variable {α : Type}

/-- The short name of a kind. -/
def tag : Kind α → String
  | program .. => "program"
  | literal .. => "literal"
  | content .. => "string-content"
  | str .. => "str"
  | embed .. => "embed"
  | command .. => "xstr"
  | regexp .. => "regexp"
  | array .. => "array"
  | splat .. => "splat"
  | void => "void"
  | selfRef => "self"
  | begin .. => "begin"
  | paren .. => "paren"
  | guarded .. => "bodystmt"
  | varRef .. => "var-ref"
  | varTarget .. => "var-field"
  | fieldTarget .. => "field"
  | multiTarget .. => "mlhs"
  | assign .. => "assign"
  | opAssign .. => "opassign"
  | binary .. => "binary"
  | unary .. => "unary"
  | ifThen .. => "if"
  | elsif .. => "elsif"
  | elseThen .. => "else"
  | ifMod .. => "if-mod"
  | unlessThen .. => "unless"
  | unlessMod .. => "unless-mod"
  | loop .whileTrue .. => "while"
  | loop .untilTrue .. => "until"
  | loopMod .whileTrue .. => "while-mod"
  | loopMod .untilTrue .. => "until-mod"
  | forIn .. => "for"
  | case .. => "case"
  | whenThen .. => "when"
  | returnWith .. => "return"
  | breakWith .. => "break"
  | nextWith .. => "next"
  | redo => "redo"
  | call .. => "call"
  | doBlock .. => "do-block"
  | super .. => "super"
  | zsuper .. => "zsuper"

/-- Children that play one role. -/
def inRole (role : Role) (children : List α) : List (Role × α) := children.map fun c => (role, c)

/-- The children of a node in the order of the program text, each with its role. -/
def fields : Kind α → List (Role × α)
  | program body | embed body | paren body | elseThen body => inRole .body body
  | literal _ | content _ | void | selfRef | varRef _ | varTarget _ | redo => []
  | str parts | command parts | regexp parts _ => inRole .part parts
  | array elements => inRole .element elements
  | splat value => [(.value, value)]
  | begin body => [(.body, body)]
  | guarded body ensure => inRole .body body ++ inRole .ensure (ensure.getD [])
  | fieldTarget receiver _ => [(.receiver, receiver)]
  | multiTarget targets => inRole .target targets
  | assign target value | opAssign target _ value => [(.target, target), (.value, value)]
  | binary left _ right => [(.left, left), (.right, right)]
  | unary _ operand => [(.operand, operand)]
  | ifThen condition body alternative | elsif condition body alternative =>
    (.condition, condition) :: inRole .body body ++ inRole .alternative alternative.toList
  | ifMod condition body | unlessMod condition body | loopMod _ condition body =>
    [(.condition, condition), (.body, body)]
  | unlessThen condition body otherwise =>
    (.condition, condition) :: inRole .body body ++ inRole .otherwise (otherwise.getD [])
  | loop _ condition body => (.condition, condition) :: inRole .body body
  | forIn target iterable body => (.target, target) :: (.iterable, iterable) :: inRole .body body
  | case subject clauses otherwise =>
    (.subject, subject) :: inRole .clause clauses ++ inRole .otherwise (otherwise.getD [])
  | whenThen candidates body => inRole .candidate candidates ++ inRole .body body
  | returnWith args | breakWith args | nextWith args => inRole .arg args
  | call receiver _ args blockPass block =>
    inRole .receiver receiver.toList ++ inRole .arg args ++
      inRole .blockPass blockPass.toList ++ inRole .block block.toList
  | doBlock _ body => inRole .body body
  | super args blockPass block =>
    inRole .arg args ++ inRole .blockPass blockPass.toList ++ inRole .block block.toList
  | zsuper block => inRole .block block.toList

/-- The children of a node in the order of the program text. -/
def children (k : Kind α) : List α := k.fields.map (·.2)

end Kind

end ControlFlow
