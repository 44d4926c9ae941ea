import ControlFlow.Syntax.Kind
/-!
# Tags of expressions

The symbols that expressions start with. Symbols that mean the same stand for one tag.
-/

namespace ControlFlow

/-- What the first symbol of an expression stands for. -/
inductive Tag where
  | constant (value : Constant)
  | int
  | float
  | symbol
  | char
  | str
  | command
  | regexp
  | embed
  | array
  | splat
  | void
  | selfRef
  | begin
  | paren
  | guarded
  | varRef (kind : BindingKind)
  | vcall
  | field
  | multi
  | assign
  | opAssign
  | binary
  | unary
  | ifThen
  | elsif
  | elseThen
  | unlessThen
  | ifMod
  | unlessMod
  | loop (sense : LoopSense)
  | loopMod (sense : LoopSense)
  | forIn
  | case
  | whenThen
  | returnWith
  | returnNothing
  | breakWith
  | nextWith
  | redo
  | call
  | doBlock
  | super
  | zsuper
deriving DecidableEq, Repr, Inhabited

namespace Tag

/-- The kind of variable that a symbol stands for. -/
def variableKind? : String → Option BindingKind
  | "lvar" => some .localVar
  | "ivar" => some .instanceVar
  | "gvar" => some .globalVar
  | "const" => some .constant
  | _ => none

/-- The tag that a symbol spells. -/
def ofSymbol? (s : String) : Option Tag :=
  match variableKind? s with
  | some kind => some (.varRef kind)
  | none =>
    match s with
    | "nil" => some (.constant .nil)
    | "true" => some (.constant (.bool true))
    | "false" => some (.constant (.bool false))
    | "int" => some .int
    | "float" => some .float
    | "sym" => some .symbol
    | "label" => some .symbol
    | "char" => some .char
    | "str" => some .str
    | "xstr" => some .command
    | "regexp" => some .regexp
    | "embed" => some .embed
    | "array" => some .array
    | "splat" => some .splat
    | "void" => some .void
    | "self" => some .selfRef
    | "begin" => some .begin
    | "paren" => some .paren
    | "bodystmt" => some .guarded
    | "vcall" => some .vcall
    | "field" => some .field
    | "mlhs" => some .multi
    | "assign" => some .assign
    | "opassign" => some .opAssign
    | "binary" => some .binary
    | "unary" => some .unary
    | "if" => some .ifThen
    | "elsif" => some .elsif
    | "else" => some .elseThen
    | "unless" => some .unlessThen
    | "if-mod" => some .ifMod
    | "unless-mod" => some .unlessMod
    | "while" => some (.loop .whileTrue)
    | "until" => some (.loop .untilTrue)
    | "while-mod" => some (.loopMod .whileTrue)
    | "until-mod" => some (.loopMod .untilTrue)
    | "for" => some .forIn
    | "case" => some .case
    | "when" => some .whenThen
    | "return" => some .returnWith
    | "return0" => some .returnNothing
    | "break" => some .breakWith
    | "next" => some .nextWith
    | "redo" => some .redo
    | "call" => some .call
    | "do-block" => some .doBlock
    | "super" => some .super
    | "zsuper" => some .zsuper
    | _ => none

end Tag

end ControlFlow
