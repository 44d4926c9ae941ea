/-!
# Operators

The binary and unary operators, the words that spell them, and the methods they send. Two binary
operators decide from their left operand alone whether the right one is evaluated.
-/

namespace ControlFlow

/-- The binary operators. -/
inductive BinaryOp where
  | and
  | or
  | plus
  | minus
  | times
  | divide
  | modulo
  | power
  | eq
  | notEq
  | lt
  | le
  | gt
  | ge
  | cmp
  | caseEq
  | regexpMatch
  | noRegexpMatch
  | shl
  | shr
  | bitAnd
  | bitOr
  | bitXor
deriving DecidableEq, Repr, Inhabited

namespace BinaryOp

/-- The method that an operator sends to its left operand. -/
def method : BinaryOp → String
  | .and => "&&"
  | .or => "||"
  | .plus => "+"
  | .minus => "-"
  | .times => "*"
  | .divide => "/"
  | .modulo => "%"
  | .power => "**"
  | .eq => "=="
  | .notEq => "!="
  | .lt => "<"
  | .le => "<="
  | .gt => ">"
  | .ge => ">="
  | .cmp => "<=>"
  | .caseEq => "==="
  | .regexpMatch => "=~"
  | .noRegexpMatch => "!~"
  | .shl => "<<"
  | .shr => ">>"
  | .bitAnd => "&"
  | .bitOr => "|"
  | .bitXor => "^"

/-- The operator that a word spells. -/
def ofWord? : String → Option BinaryOp
  | "&&" => some .and
  | "and" => some .and
  | "||" => some .or
  | "or" => some .or
  | "+" => some .plus
  | "-" => some .minus
  | "*" => some .times
  | "/" => some .divide
  | "%" => some .modulo
  | "**" => some .power
  | "==" => some .eq
  | "!=" => some .notEq
  | "<" => some .lt
  | "<=" => some .le
  | ">" => some .gt
  | ">=" => some .ge
  | "<=>" => some .cmp
  | "===" => some .caseEq
  | "=~" => some .regexpMatch
  | "!~" => some .noRegexpMatch
  | "<<" => some .shl
  | ">>" => some .shr
  | "&" => some .bitAnd
  | "|" => some .bitOr
  | "^" => some .bitXor
  | _ => none

/-- Whether the left operand decides if the right one is evaluated. -/
def shortCircuits : BinaryOp → Bool
  | .and | .or => true
  | _ => false

end BinaryOp

/-- The unary operators. -/
inductive UnaryOp where
  | not
  | minus
  | plus
  | bitNot
deriving DecidableEq, Repr, Inhabited

namespace UnaryOp

/-- The method that an operator sends to its operand. -/
def method : UnaryOp → String
  | .not => "!"
  | .minus => "-@"
  | .plus => "+@"
  | .bitNot => "~"

/-- The operator that a word spells. -/
def ofWord? : String → Option UnaryOp
  | "!" => some .not
  | "not" => some .not
  | "-@" => some .minus
  | "-" => some .minus
  | "+@" => some .plus
  | "+" => some .plus
  | "~" => some .bitNot
  | _ => none

end UnaryOp

end ControlFlow
