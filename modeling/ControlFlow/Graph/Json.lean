import ControlFlow.Graph.Basic
import ControlFlow.Json.Value
/-!
# Graphs in JSON

Every instruction is an object whose first field names it; its other fields follow in a fixed order.
-/

namespace ControlFlow

/-- A block name in JSON. -/
def BlockName.toJson (n : BlockName) : Json := .str n.render

/-- A binding in JSON. -/
def Binding.toJson (b : Binding) : Json := .obj [("name", .str b.name), ("kind", .str b.kind.name)]

/-- A binding that may be absent in JSON. -/
def Binding.optionToJson (b : Option Binding) : Json := (b.map toJson).getD .null

/-- A constant in JSON. -/
def Constant.toJson : Constant → Json
  | .nil => .str "Nil"
  | .bool b => .obj [("Bool", .bool b)]
  | .integer n => .obj [("Integer", .integer n)]
  | .float x => .obj [("Float", .float x)]
  | .str s => .obj [("Str", .str s)]
  | .symbol s => .obj [("Symbol", .str s)]

/-- An operand in JSON. -/
def Operand.toJson : Operand → Json
  | .binding b => b.toJson
  | .constant c => c.toJson

/-- A block operand in JSON. -/
def BlockOperand.toJson : BlockOperand → Json
  | .absent => .str "None"
  | .value b => .obj [("Value", b.toJson)]
  | .body name => .obj [("Body", name.toJson)]

/-- A parameter in JSON. -/
def Parameter.toJson (p : Parameter) : Json :=
  .obj [("binding", p.binding.toJson), ("kind", .str p.kind.name)]

/-- Arguments in JSON. -/
def Arguments.toJson : Arguments → Json
  | .positional args => .arr (args.map (·.toJson))
  | .vararg array => array.toJson

/-- The name of a call in JSON. -/
def Callee.operation : Callee → Arguments → String
  | .method .., .positional _ => "call"
  | .method .., .vararg _ => "call_vararg"
  | .super, .positional _ => "super"
  | .super, .vararg _ => "super_vararg"

/-- The fields of a callee in JSON. -/
def Callee.toFields : Callee → List (String × Json)
  | .method receiver name => [("receiver", receiver.toJson), ("method", .str name)]
  | .super => []

/-- An instruction in JSON. -/
def Instruction.toJson : Instruction → Json
  | assign dest src => .obj [("op", .str "assign"), ("dest", dest.toJson), ("src", src.toJson)]
  | send dest callee args block =>
    .obj ([("op", .str (callee.operation args)), ("dest", Binding.optionToJson dest)] ++
      callee.toFields ++ [("args", args.toJson), ("block", block.toJson)])
  | branch condition ifTrue ifFalse =>
    .obj [("op", .str "branch"), ("condition", Binding.optionToJson condition),
      ("if_true", ifTrue.toJson), ("if_false", ifFalse.toJson)]
  | jump target => .obj [("op", .str "jump"), ("target", target.toJson)]
  | ret value => .obj [("op", .str "return"), ("value", value.toJson)]
  | closure dest params body =>
    .obj [("op", .str "closure"), ("dest", dest.toJson),
      ("params", .arr (params.map (·.toJson))), ("body", body.toJson)]
  | resume value => .obj [("op", .str "resume"), ("value", value.toJson)]

/-- A block in JSON. -/
def Block.toJson (b : Block) : Json :=
  .obj [("name", b.name.toJson), ("instructions", .arr (b.instructions.map (·.toJson)))]

/-- An edge in JSON. -/
def Edge.toJson (e : Edge) : Json := .obj [("from", e.source.toJson), ("to", e.target.toJson)]

/-- A graph in JSON. -/
def Graph.toJson (g : Graph) : Json :=
  .obj [("blocks", .arr (g.blocks.map (·.toJson))), ("edges", .arr (g.edges.map (·.toJson)))]

end ControlFlow
