import ControlFlow.Syntax.Binding
import ControlFlow.Syntax.Constant
/-!
# Instructions

The instructions of the lowered code. Only `branch` and `jump` end a block; all others go on to the
next instruction. For every instruction it is known which bindings it reads (`reads`), which one it
writes (`dest?`) and where it leads (`targets`).
-/

namespace ControlFlow

/-- The name of a block: the entry, the exit, or a number. -/
inductive BlockName where
  | enter
  | exit
  | numbered (n : Nat)
deriving DecidableEq, Repr, Inhabited

namespace BlockName

/-- The text of a block name. -/
def render : BlockName → String
  | enter => "Enter"
  | exit => "Exit"
  | numbered n => s!"B{n}"

/-- The text of a block name that spells its shape out. -/
def detailed : BlockName → String
  | enter => "Enter"
  | exit => "Exit"
  | numbered n => s!"Numbered({n})"

/-- The place of a name in the sorted order: the entry, the exit, the numbers. -/
def rank : BlockName → Nat
  | enter => 0
  | exit => 1
  | numbered n => n + 2

/-- The texts of block names, with commas between them. -/
def renderAll (names : List BlockName) : String := ", ".intercalate (names.map render)

end BlockName

/-- What an assignment copies. -/
inductive Operand where
  | binding (b : Binding)
  | constant (c : Constant)
deriving DecidableEq, Repr, Inhabited

/-- The text of an operand. -/
def Operand.render : Operand → String
  | .binding b => b.render
  | .constant c => c.render

/-- The block that a call passes. -/
inductive BlockOperand where
  | absent
  /-- A value, which the callee turns into a block. -/
  | value (b : Binding)
  /-- The block literal whose body starts at a block. -/
  | body (name : BlockName)
deriving DecidableEq, Repr, Inhabited

/-- The bindings that a block operand reads. -/
def BlockOperand.bindings : BlockOperand → List Binding
  | .value b => [b]
  | _ => []

/-- The text of a block operand, as it follows a call. -/
def BlockOperand.render : BlockOperand → String
  | .absent => ""
  | .value b => s!" &{b.render}"
  | .body name => s!" do {name.render}"

/-- Who a call is sent to. -/
inductive Callee where
  | method (receiver : Binding) (name : String)
  | super
deriving DecidableEq, Repr, Inhabited

/-- The bindings that a call reads to find its callee. -/
def Callee.bindings : Callee → List Binding
  | .method receiver _ => [receiver]
  | .super => []

/-- The arguments of a call: one binding each, or all in one array. -/
inductive Arguments where
  | positional (args : List Binding)
  | vararg (array : Binding)
deriving DecidableEq, Repr, Inhabited

/-- The bindings that hold arguments. -/
def Arguments.bindings : Arguments → List Binding
  | .positional args => args
  | .vararg array => [array]

/-- The instructions. -/
inductive Instruction where
  | assign (dest : Binding) (src : Operand)
  /-- A call; without a destination its result is dropped. -/
  | send (dest : Option Binding) (callee : Callee) (args : Arguments) (block : BlockOperand)
  /-- Leads two ways; without a condition either way may be taken. -/
  | branch (condition : Option Binding) (ifTrue ifFalse : BlockName)
  | jump (target : BlockName)
  /-- Records the value that is returned; a jump follows. -/
  | ret (value : Binding)
  /-- A block literal with its parameters and the block where its body starts. -/
  | closure (dest : Binding) (params : List Parameter) (body : BlockName)
  /-- The end of one run of the body of a block literal. -/
  | resume (value : Binding)
deriving DecidableEq, Repr, Inhabited

namespace Instruction

/-- Whether an instruction ends its block. -/
def isTerminator : Instruction → Bool
  | branch .. | jump _ => true
  | _ => false

/-- The blocks that an instruction leads to. -/
def targets : Instruction → List BlockName
  | branch _ ifTrue ifFalse => [ifTrue, ifFalse]
  | jump target => [target]
  | _ => []

/-- The binding that an instruction writes. -/
def dest? : Instruction → Option Binding
  | assign dest _ => some dest
  | closure dest _ _ => some dest
  | send dest _ _ _ => dest
  | _ => none

/-- The bindings that an instruction reads. -/
def reads : Instruction → List Binding
  | assign _ (.binding b) => [b]
  | assign _ (.constant _) => []
  | send _ callee args block => callee.bindings ++ args.bindings ++ block.bindings
  | branch condition _ _ => condition.toList
  | jump _ => []
  | ret value => [value]
  | closure .. => []
  | resume value => [value]

/-- The texts of bindings, with commas between them. -/
def renderBindings (bs : List Binding) : String := ", ".intercalate (bs.map (·.render))

/-- The text of a call without its destination and its block. -/
def renderSend : Callee → Arguments → String
  | .method receiver name, .positional args =>
    s!"call {receiver.render}.{name}({renderBindings args})"
  | .method receiver name, .vararg array =>
    s!"call_vararg {receiver.render}.{name}(*{array.render})"
  | .super, .positional args => s!"super({renderBindings args})"
  | .super, .vararg array => s!"super_vararg(*{array.render})"

/-- The text of an instruction. -/
def render : Instruction → String
  | assign dest src => s!"{dest.render} <- {src.render}"
  | send dest callee args block =>
    (match dest with
      | some d => s!"{d.render} <- "
      | none => "") ++ renderSend callee args ++ block.render
  | branch (some c) ifTrue ifFalse => s!"branch {c.render} ? {ifTrue.render} : {ifFalse.render}"
  | branch none ifTrue ifFalse => s!"branch * {ifTrue.render} : {ifFalse.render}"
  | jump target => s!"jump {target.render}"
  | ret value => s!"return {value.render}"
  | closure dest params body =>
    s!"{dest.render} <- closure |{renderBindings (params.map (·.binding))}| {body.render}"
  | resume value => s!"resume {value.render}"

end Instruction

end ControlFlow
