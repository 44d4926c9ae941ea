import ControlFlow.Lowering.Construction
/-!
# Assignments and operators

Assignments, operators that may leave out their right operand, and assignments that combine the two.
-/

namespace ControlFlow.Construction

variable {m : Type → Type} [Monad m] [Construction m]

/-! ## Assignments -/

/-- Sends a value to the setter of an attribute. -/
def callSetter (receiver : Binding) (name : String) (v : Binding) : m Unit :=
  call none receiver (name ++ "=") [v]

/-- Assigns to a variable; the value is that of the right-hand side. -/
def assignVariable (target : Info) (value : m Binding) : m Binding := do
  let slot ← resolved target "var-field"
  let v ← value
  copy slot v
  return v

/-- Assigns to an attribute; the value is that of the right-hand side. -/
def assignField (receiver : m Binding) (name : String) (value : m Binding) : m Binding := do
  let r ← receiver
  let v ← value
  callSetter r name v
  return v

/-! ## Operators that may leave out their right operand -/

/-- Fills the result with `lhs` where it decides the operator, and evaluates the right operand where
it does not. -/
def decideOrEvaluate (op : BinaryOp) (lhs result : Binding) (evaluate : m Unit) : m Unit :=
  twoWays (pure lhs) (op = .or) (copy result lhs) evaluate

/-- Evaluates the right operand where `lhs` does not decide the operator. -/
def skipOrEvaluate (op : BinaryOp) (lhs : Binding) (evaluate : m Unit) : m Unit :=
  detour lhs (op ≠ .or) evaluate

/-- An operator that may leave out its right operand, its left one being evaluated. -/
def shortCircuit (op : BinaryOp) (lhs : Binding) (result : Option Binding) (value : m Binding)
    (effect : m Unit) : m Unit :=
  match result with
  | some dest => decideOrEvaluate op lhs dest (do copy dest (← value))
  | none => skipOrEvaluate op lhs effect

/-- Assigns to an attribute the value of an operator on its old value; the receiver is evaluated
once. -/
def updateField (op : BinaryOp) (receiver : m Binding) (name : String) (value : m Binding)
    (result : Option Binding) : m Unit := do
  let r ← receiver
  let current ← callValue r name []
  if op.shortCircuits then
    let evaluate : m Unit := do
      let v ← value
      callSetter r name v
      deliver result v
    match result with
    | some dest => decideOrEvaluate op current dest evaluate
    | none => skipOrEvaluate op current evaluate
  else
    let v ← value
    let combined ← callValue current op.method [v]
    callSetter r name combined
    deliver result combined

/-- Assigns to a variable the value of an operator that may leave out its right operand, by way of
`combined`. -/
def combineInto (combined : Binding) (op : BinaryOp) (slot current : Binding) (value : m Binding) :
    m Unit := do
  decideOrEvaluate op current combined (do copy combined (← value))
  copy slot combined

/-- Assigns to a variable the value of an operator on its old value. -/
def updateVariable (op : BinaryOp) (target : Info) (value : m Binding)
    (result : Option Binding) : m Unit := do
  let slot ← resolved target "var-field"
  let current ← readVariable slot
  if op.shortCircuits then
    match result with
    | some dest => combineInto dest op slot current value
    | none => do
      let combined ← allocTemp
      combineInto combined op slot current value
  else
    let v ← value
    let combined ← callValue current op.method [v]
    deliver result combined
    copy slot combined

/-! ## Returning -/

/-- Returns a value. -/
def returnValue (info : Info) (value : m Binding) : m Unit :=
  jumpOut info .return do
    let v ← value
    emit (.ret v) rfl

end ControlFlow.Construction
