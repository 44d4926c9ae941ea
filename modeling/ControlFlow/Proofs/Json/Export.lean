import ControlFlow.Graph.Json
import ControlFlow.Proofs.Json.Decoding
/-!
# Graphs from JSON texts

What is written of a graph in JSON tells the graph: for every part of a graph there is a reader
(`ofJson?`) that gives the part back from its JSON value. With the reader of JSON texts this gives
back the blocks and the edges of every graph without floating-point constants (`Graph.decode`).
-/

namespace ControlFlow

/-! ## Readers -/

/-- The block name of a text. -/
def BlockName.ofText? (text : String) : Option BlockName :=
  match text.toList with
  | ['E', 'n', 't', 'e', 'r'] => some .enter
  | ['E', 'x', 'i', 't'] => some .exit
  | 'B' :: digits =>
    match Word.integer? digits with
    | some (.ofNat n) => some (.numbered n)
    | _ => none
  | _ => none

/-- The block name in a JSON value. -/
def BlockName.ofJson? : Json → Option BlockName
  | .str text => BlockName.ofText? text
  | _ => none

/-- The kind of a binding by its name. -/
def BindingKind.ofName? (name : String) : Option BindingKind :=
  [localVar, instanceVar, globalVar, constant, selfRef, temporary].find? (·.name = name)

/-- The kind of a parameter by its name. -/
def ParameterKind.ofName? (name : String) : Option ParameterKind :=
  [required, optional, rest, post, block].find? (·.name = name)

/-- The binding in a JSON value. -/
def Binding.ofJson? : Json → Option Binding
  | .obj [("name", .str name), ("kind", .str kind)] => (BindingKind.ofName? kind).map (⟨name, ·⟩)
  | _ => none

/-- The binding in a JSON value, which may be absent. -/
def Binding.optionOfJson? : Json → Option (Option Binding)
  | .null => some none
  | v => (Binding.ofJson? v).map some

/-- The constant in a JSON value. -/
def Constant.ofJson? : Json → Option Constant
  | .str "Nil" => some .nil
  | .obj [("Bool", .bool b)] => some (.bool b)
  | .obj [("Integer", .integer n)] => some (.integer n)
  | .obj [("Float", .float x)] => some (.float x)
  | .obj [("Str", .str s)] => some (.str s)
  | .obj [("Symbol", .str s)] => some (.symbol s)
  | _ => none

/-- The operand in a JSON value: a constant, or else a binding. -/
def Operand.ofJson? (v : Json) : Option Operand :=
  ((Constant.ofJson? v).map .constant).or ((Binding.ofJson? v).map .binding)

/-- The block operand in a JSON value. -/
def BlockOperand.ofJson? : Json → Option BlockOperand
  | .str "None" => some .absent
  | .obj [("Value", v)] => (Binding.ofJson? v).map .value
  | .obj [("Body", v)] => (BlockName.ofJson? v).map .body
  | _ => none

/-- The parameter in a JSON value. -/
def Parameter.ofJson? : Json → Option Parameter
  | .obj [("binding", b), ("kind", .str kind)] => do
    return ⟨← Binding.ofJson? b, ← ParameterKind.ofName? kind⟩
  | _ => none

/-- The arguments in a JSON value. -/
def Arguments.ofJson? : Json → Option Arguments
  | .arr args => (args.mapM Binding.ofJson?).map .positional
  | v => (Binding.ofJson? v).map .vararg

/-- The instruction of a name with the given fields. -/
def Instruction.ofFields? : String → List (String × Json) → Option Instruction
  | "assign", [("dest", dest), ("src", src)] => do
    return .assign (← Binding.ofJson? dest) (← Operand.ofJson? src)
  | "branch", [("condition", condition), ("if_true", ifTrue), ("if_false", ifFalse)] => do
    return .branch (← Binding.optionOfJson? condition) (← BlockName.ofJson? ifTrue)
      (← BlockName.ofJson? ifFalse)
  | "jump", [("target", target)] => (BlockName.ofJson? target).map .jump
  | "return", [("value", value)] => (Binding.ofJson? value).map .ret
  | "resume", [("value", value)] => (Binding.ofJson? value).map .resume
  | "closure", [("dest", dest), ("params", .arr params), ("body", body)] => do
    return .closure (← Binding.ofJson? dest) (← params.mapM Parameter.ofJson?)
      (← BlockName.ofJson? body)
  -- only calls are left, and their fields tell which one it is
  | _, [("dest", dest), ("receiver", receiver), ("method", .str name), ("args", args),
      ("block", block)] => do
    return .send (← Binding.optionOfJson? dest) (.method (← Binding.ofJson? receiver) name)
      (← Arguments.ofJson? args) (← BlockOperand.ofJson? block)
  | _, [("dest", dest), ("args", args), ("block", block)] => do
    return .send (← Binding.optionOfJson? dest) .super (← Arguments.ofJson? args)
      (← BlockOperand.ofJson? block)
  | _, _ => none

/-- The instruction in a JSON value. -/
def Instruction.ofJson? : Json → Option Instruction
  | .obj (("op", .str op) :: fields) => Instruction.ofFields? op fields
  | _ => none

/-- The block in a JSON value. -/
def Block.ofJson? : Json → Option Block
  | .obj [("name", name), ("instructions", .arr instructions)] => do
    return ⟨← BlockName.ofJson? name, ← instructions.mapM Instruction.ofJson?⟩
  | _ => none

/-- The edge in a JSON value. -/
def Edge.ofJson? : Json → Option Edge
  | .obj [("from", source), ("to", target)] => do
    return ⟨← BlockName.ofJson? source, ← BlockName.ofJson? target⟩
  | _ => none

/-- The blocks and the edges in a JSON value. -/
def Graph.ofJson? : Json → Option (List Block × List Edge)
  | .obj [("blocks", .arr blocks), ("edges", .arr edges)] => do
    return (← blocks.mapM Block.ofJson?, ← edges.mapM Edge.ofJson?)
  | _ => none

/-- The blocks and the edges in a JSON text. -/
def Graph.decode (text : String) : Option (List Block × List Edge) :=
  Json.parse? text >>= Graph.ofJson?

/-! ## Every part is read back -/

/-- If every item is read back, then so is a list of them. -/
lemma mapM_map_toJson {α : Type} {ofJson? : Json → Option α} {toJson : α → Json}
    (h : ∀ a, ofJson? (toJson a) = some a) (as : List α) :
    (as.map toJson).mapM ofJson? = some as := by
  induction as with
  | nil => rfl
  | cons a as ih => simp [h, ih]

@[simp] lemma BlockName.ofJson?_toJson (n : BlockName) : ofJson? n.toJson = some n := by
  cases n with
  | enter => rfl
  | exit => rfl
  | numbered n =>
    have text : (numbered n).render.toList = 'B' :: Nat.toDigits 10 n := by
      simp [render, Nat.repr_eq_ofList_toDigits, toString]
    have spells : Word.Spells (Nat.toDigits 10 n) n :=
      .inl ⟨Word.digits_toDigits n, by rw [Word.value_toDigits]⟩
    rw [toJson, ofJson?, ofText?, text]
    simp [Word.integer?_eq_some.2 spells]

@[simp] lemma BindingKind.ofName?_name (k : BindingKind) : ofName? k.name = some k := by
  cases k <;> rfl

@[simp] lemma ParameterKind.ofName?_name (k : ParameterKind) : ofName? k.name = some k := by
  cases k <;> rfl

@[simp] lemma Binding.ofJson?_toJson (b : Binding) : ofJson? b.toJson = some b := by
  simp [toJson, ofJson?]

@[simp] lemma Binding.optionOfJson?_optionToJson (b : Option Binding) :
    optionOfJson? (optionToJson b) = some b := by
  cases b with
  | none => rfl
  | some b => exact congrArg (Option.map some) b.ofJson?_toJson

@[simp] lemma Constant.ofJson?_toJson (c : Constant) : ofJson? c.toJson = some c := by
  cases c <;> simp [toJson, ofJson?]

/-- No constant is written as a binding is. -/
lemma Constant.ofJson?_binding (b : Binding) : ofJson? b.toJson = none := by
  simp [Binding.toJson, ofJson?]

@[simp] lemma Operand.ofJson?_toJson (o : Operand) : ofJson? o.toJson = some o := by
  cases o <;> simp [toJson, ofJson?, Constant.ofJson?_binding]

@[simp] lemma BlockOperand.ofJson?_toJson (o : BlockOperand) : ofJson? o.toJson = some o := by
  cases o <;> simp [toJson, ofJson?]

@[simp] lemma Parameter.ofJson?_toJson (p : Parameter) : ofJson? p.toJson = some p := by
  simp [toJson, ofJson?]

@[simp] lemma Arguments.ofJson?_toJson (args : Arguments) : ofJson? args.toJson = some args := by
  cases args with
  | positional args => simp [toJson, ofJson?, mapM_map_toJson Binding.ofJson?_toJson]
  | vararg array => exact congrArg (Option.map vararg) array.ofJson?_toJson

@[simp] lemma Instruction.ofJson?_toJson (i : Instruction) : ofJson? i.toJson = some i := by
  cases i with
  | send dest callee args block =>
    rcases callee with ⟨receiver, name⟩ | _ <;> rcases args with args | array <;>
      simp [toJson, ofJson?, ofFields?, Callee.operation, Callee.toFields]
  | closure dest params body =>
    simp [toJson, ofJson?, ofFields?, mapM_map_toJson Parameter.ofJson?_toJson]
  | _ => simp [toJson, ofJson?, ofFields?]

@[simp] lemma Block.ofJson?_toJson (b : Block) : ofJson? b.toJson = some b := by
  simp [toJson, ofJson?, mapM_map_toJson Instruction.ofJson?_toJson]

@[simp] lemma Edge.ofJson?_toJson (e : Edge) : ofJson? e.toJson = some e := by
  simp [toJson, ofJson?]

lemma Graph.ofJson?_toJson (g : Graph) : ofJson? g.toJson = some (g.blocks, g.edges) := by
  simp [toJson, ofJson?, mapM_map_toJson Block.ofJson?_toJson, mapM_map_toJson Edge.ofJson?_toJson]

/-! ## Graphs without floating-point constants -/

namespace Json

@[simp] lemma exact_null : null.Exact := .null

@[simp] lemma exact_bool (b : Bool) : (bool b).Exact := .bool b

@[simp] lemma exact_integer (n : Int) : (integer n).Exact := .integer n

@[simp] lemma exact_str (s : String) : (str s).Exact := .str s

@[simp] lemma exact_arr {items : List Json} : (arr items).Exact ↔ ∀ v ∈ items, v.Exact :=
  ⟨fun | .arr h => h, .arr⟩

@[simp] lemma exact_obj {fields : List (String × Json)} :
    (obj fields).Exact ↔ ∀ f ∈ fields, f.2.Exact :=
  ⟨fun | .obj h => h, .obj⟩

end Json

/-- No instruction of the graph assigns a floating-point number. -/
def Graph.FloatFree (g : Graph) : Prop :=
  ∀ b ∈ g.blocks, ∀ i ∈ b.instructions, ∀ dest x, i ≠ .assign dest (.constant (.float x))

@[simp] lemma BlockName.exact_toJson (n : BlockName) : n.toJson.Exact := .str _

@[simp] lemma Binding.exact_toJson (b : Binding) : b.toJson.Exact := by simp [toJson]

@[simp] lemma Binding.exact_optionToJson (b : Option Binding) : (optionToJson b).Exact := by
  cases b <;> simp [optionToJson]

@[simp] lemma BlockOperand.exact_toJson (o : BlockOperand) : o.toJson.Exact := by
  cases o <;> simp [toJson]

@[simp] lemma Parameter.exact_toJson (p : Parameter) : p.toJson.Exact := by simp [toJson]

@[simp] lemma Arguments.exact_toJson (args : Arguments) : args.toJson.Exact := by
  cases args <;> simp [toJson]

lemma Instruction.exact_toJson {i : Instruction}
    (h : ∀ dest x, i ≠ .assign dest (.constant (.float x))) : i.toJson.Exact := by
  cases i with
  | assign dest src =>
    rcases src with b | c
    · simp [toJson, Operand.toJson]
    · cases c with
      | float x => exact absurd rfl (h dest x)
      | _ => simp [toJson, Operand.toJson, Constant.toJson]
  | send dest callee args block => cases callee <;> simp [toJson, Callee.toFields]
  | _ => simp [toJson]

lemma Graph.FloatFree.exact_toJson {g : Graph} (h : g.FloatFree) : g.toJson.Exact := by
  have blocks : ∀ b ∈ g.blocks, b.toJson.Exact := fun b hb => by
    simpa [Block.toJson] using fun i hi => Instruction.exact_toJson (h b hb i hi)
  simpa [toJson, Edge.toJson] using blocks

/-- The text of a graph without floating-point constants gives back its blocks and its edges. -/
lemma Graph.FloatFree.decode {g : Graph} (h : g.FloatFree) :
    Graph.decode g.toJson.pretty = some (g.blocks, g.edges) := by
  rw [Graph.decode, Json.parse?_pretty h.exact_toJson]
  exact g.ofJson?_toJson

/-- The JSON text of a graph loses nothing: it can be read back, so that two graphs have the same
text just if they have the same blocks, with all their instructions, and the same edges. -/
theorem Graph.decode_pretty (g : Graph) (h : g.FloatFree) :
    Graph.decode g.toJson.pretty = some (g.blocks, g.edges) ∧
      ∀ g' : Graph, g'.FloatFree →
        (g'.toJson.pretty = g.toJson.pretty ↔ g'.blocks = g.blocks ∧ g'.edges = g.edges) := by
  refine ⟨h.decode, fun g' h' => ⟨fun same => ?_, fun ⟨blocks, edges⟩ => ?_⟩⟩
  · have parts := h'.decode.symm.trans (same ▸ h.decode)
    exact Prod.mk.inj (Option.some.inj parts)
  · rw [toJson, toJson, blocks, edges]

/-- The graph that assigns a constant to a variable on its way to the exit. -/
def Graph.assigning (name : String) (c : Constant) : Graph :=
  ⟨[⟨.enter, [.assign ⟨name, .localVar⟩ (.constant c), .jump .exit]⟩, ⟨.exit, []⟩],
    [⟨.enter, .exit⟩]⟩

/-- Quotes and controls in names and strings are kept, and a string is not taken for a symbol. -/
theorem Graph.decode_pretty_assigning : (assigning "a\"\n" (.str "\\u0001\x01")).FloatFree ∧
      (assigning "a\"\n" (.symbol "\\u0001\x01")).FloatFree ∧
      Graph.decode (assigning "a\"\n" (.str "\\u0001\x01")).toJson.pretty =
        some ((assigning "a\"\n" (.str "\\u0001\x01")).blocks, [⟨.enter, .exit⟩]) ∧
      (assigning "a\"\n" (.symbol "\\u0001\x01")).toJson.pretty ≠
        (assigning "a\"\n" (.str "\\u0001\x01")).toJson.pretty := by
  have free_str : (assigning "a\"\n" (.str "\\u0001\x01")).FloatFree := by
    simp [FloatFree, assigning]
  have free_symbol : (assigning "a\"\n" (.symbol "\\u0001\x01")).FloatFree := by
    simp [FloatFree, assigning]
  obtain ⟨decoded, same⟩ := decode_pretty _ free_str
  refine ⟨free_str, free_symbol, decoded, fun h => ?_⟩
  have blocks := ((same _ free_symbol).1 h).1
  simp [assigning] at blocks

end ControlFlow
