import ControlFlow.Lowering.Construction
/-!
# Calls and arrays

Calls with their arguments and their block, and the arrays that hold spliced arguments.
-/

namespace ControlFlow.Construction

/-- The block literal of a call: none, one with its parameters and its body, or a node that is
none. -/
inductive BlockLiteral (m : Type → Type) where
  | absent
  | present (params : List Parameter) (body : m Binding)
  | misplaced (info : Info) (tag : String)

variable {m : Type → Type} [Monad m] [Construction m]

/-- A call with its arguments and its block. The block literal opens before the arguments are
evaluated, a block value is evaluated behind them. -/
def send (info : Info) (dest : Option Binding) (callee : Callee) (args : m Arguments)
    (blockPass : Option (m Binding)) (block : BlockLiteral m) : m Unit :=
  match block with
  | .absent => do
    let values ← args
    match blockPass with
    | some value => do
      let v ← value
      emit (.send dest callee values (.value v)) rfl
    | none => emit (.send dest callee values .absent) rfl
  | .present params body =>
    if blockPass.isSome then failAt info .twoBlocks
    else blockCall params dest callee args body
  | .misplaced blockInfo tag =>
    if blockPass.isSome then failAt info .twoBlocks
    else failAt blockInfo (.misplaced tag .block)

/-! ## Arrays -/

/-- A new array that `fill` is given, together with the class of arrays. -/
def aggregate (env : Environment) (info : Info) (fill : Binding → Binding → m Unit) :
    m Binding := do
  let klass ← wellKnown env info "Array"
  let array ← callValue klass "new" []
  fill klass array
  return array

/-- Adds a value to an array. -/
def pushValue (array v : Binding) : m Unit := call none array "<<" [v]

/-- A value itself if it is of a class, otherwise what a method makes of it. -/
def convert (klass v : Binding) (method : String) : m Binding := do
  let result ← allocTemp
  twoWays (callValue klass "===" [v]) false
    (do
      let converted ← callValue v method []
      copy result converted)
    (copy result v)
  return result

/-- Adds all items of a value to an array. -/
def spliceValue (klass array v : Binding) : m Unit := do
  let items ← convert klass v "to_a"
  call none array "concat" [items]

/-! ## Passing parameters on -/

/-- Reads the variables of parameters, one after the other. -/
def readParameters : List Parameter → m (List Binding)
  | [] => pure []
  | p :: ps => do
    let v ← readVariable p.binding
    let vs ← readParameters ps
    return v :: vs

/-- Adds the variables of parameters to an array. -/
def pushParameters (array : Binding) : List Parameter → m Unit
  | [] => pure ()
  | p :: ps => do
    let v ← readVariable p.binding
    pushValue array v
    pushParameters array ps

/-- The parameters of a method as arguments: all in one array if there is a rest parameter, whose
items take its place. -/
def passParameters (env : Environment) (info : Info) (method : Signature) : m Arguments :=
  match method.restIndex? with
  | none => do
    let values ← readParameters method.positional
    return .positional values
  | some rest => do
    let array ← aggregate env info fun klass array => do
      pushParameters array (method.positional.take rest)
      match method.positional.drop rest with
      | [] => pure ()
      | p :: ps => do
        let starred ← readVariable p.binding
        spliceValue klass array starred
        pushParameters array ps
    return .vararg array

end ControlFlow.Construction
