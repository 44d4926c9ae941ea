import ControlFlow.Diagnostic
import ControlFlow.Lowering.Jump
import ControlFlow.Options
import ControlFlow.Syntax.Node
/-!
# Faults of a syntax tree

The causes for which a syntax tree cannot be lowered, with the message, the class and the issuer of
each.
-/

namespace ControlFlow

/-- Where a node stands. -/
inductive Place where
  | expression
  | statement
  | assignmentTarget
  | conditionalClause
  | caseClause
  | loopTarget
  | block
deriving DecidableEq, Repr, Inhabited

/-- The text of a place. -/
def Place.render : Place → String
  | .expression => "expression"
  | .statement => "statement"
  | .assignmentTarget => "assignment target"
  | .conditionalClause => "conditional clause"
  | .caseClause => "case clause"
  | .loopTarget => "loop target"
  | .block => "block"

/-- The causes for which a syntax tree cannot be lowered. -/
inductive LowerFault where
  | depth (limit : Nat)
  /-- The host refuses the stack. -/
  | noStack (options : Options) (reason : String)
  /-- A node without a scope needs `self`. -/
  | noScope (tag : String)
  | noBinding (tag : String)
  | unregistered (name : String)
  | noMethod
  /-- A node stands where no node of its kind may. -/
  | misplaced (tag : String) (place : Place)
  | noTarget (kind : JumpKind)
  /-- A call has both a block value and a block literal. -/
  | twoBlocks
  | multipleAssign (place : Place)
  | multipleOpAssign
  | forField
  | forMultiple
deriving DecidableEq, Repr, Inhabited

namespace LowerFault

/-- The message of a fault. -/
def message : LowerFault → String
  | depth limit => s!"AST nesting exceeds the limit of {limit} levels"
  | noStack options reason => options.noStackMessage reason
  | noScope tag => s!"`{tag}` has no enclosing scope to resolve `self`"
  | noBinding tag => s!"`{tag}` has no resolved binding"
  | unregistered name => s!"well-known type `{name}` is not registered"
  | noMethod => "implicit `super` outside of a method definition"
  | misplaced tag place => s!"`{tag}` cannot appear in {place.render} position"
  | noTarget kind => s!"`{kind.keyword}` has no enclosing target"
  | twoBlocks => "a call cannot take both a block argument and a block literal"
  | multipleAssign _ => "multiple assignment is not supported yet"
  | multipleOpAssign => "compound assignment to multiple targets is not supported yet"
  | forField => "`for` loops assigning to a field are not supported yet"
  | forMultiple => "`for` loops with multiple targets are not supported yet"

/-- The class of a fault. -/
def kind : LowerFault → LowerClass
  | depth _ | noStack .. => .depthLimitExceeded
  | noScope _ | noBinding _ | unregistered _ | noMethod => .unannotated
  | misplaced .. | twoBlocks => .unsupportedConstruct
  | noTarget _ => .invalidJumpContext
  | multipleAssign _ | multipleOpAssign | forField | forMultiple => .notYetImplemented

/-- The last part of the path of the issuer of a fault. -/
def routine : LowerFault → String
  | depth _ => "descend"
  | noStack .. => "build"
  | noScope _ => "self_binding"
  | noBinding _ => "resolved_binding"
  | unregistered _ => "well_known"
  | noMethod => "lower_zsuper"
  | misplaced .. => "unsupported"
  | noTarget _ => "jump_target"
  | twoBlocks => "send"
  | multipleAssign .statement => "novalue_walk"
  | multipleAssign _ => "lower_assign"
  | multipleOpAssign => "lower_opassign"
  | forField | forMultiple => "lower_for"

/-- The issuer of a fault. -/
def issuer (f : LowerFault) : String := "flowgraph.lower." ++ f.routine

end LowerFault

/-- A fault and the place of the node that has it. -/
structure LowerError where
  fault : LowerFault
  location : Option Location := none
  span : Option Span := none
deriving DecidableEq, Repr, Inhabited

namespace LowerError

/-- The error of a fault at a node. -/
def atNode (info : Info) (fault : LowerFault) : LowerError := ⟨fault, info.location, info.span⟩

/-- What is told about an error. -/
def diagnostic (e : LowerError) : Diagnostic where
  category := .lower e.fault.kind
  message := e.fault.message
  issuer := e.fault.issuer
  location := e.location
  span := e.span

end LowerError

end ControlFlow
