import ControlFlow.Lowering.Builder
import ControlFlow.Lowering.Fault
/-!
# Constructions

The operations that lowering is written in: fresh temporaries, instructions, and the constructs that
lead several ways, each given by the parts that are put together. Names of blocks do not occur, so
that the same rules can be read in more than one way. A `Walk` is the way that builds a graph.
-/

namespace ControlFlow

/-- What lowering is given. -/
structure Environment where
  /-- The types that the lowered code uses by name. -/
  types : String → Option Binding
  /-- The number of levels that nodes may nest. -/
  maxDepth : Nat

/-- What follows the body of a conditional. -/
inductive Alternative (m : Type → Type) where
  /-- Nothing is left to be done. -/
  | nothing
  /-- This is done in all cases that are left. -/
  | last (body : m Unit)
  /-- Another condition with its body. -/
  | clause (condition : m Binding) (body : m Unit) (rest : Alternative m)

/-- The clauses of a `case`. -/
inductive Clauses (m : Type → Type) where
  /-- This is done in all cases that are left. -/
  | last (body : m Unit)
  /-- Tests, one of which has to hold, with the body behind them. -/
  | clause (tests : List (m Binding)) (body : m Unit) (rest : Clauses m)

/-- The operations that lowering is written in. -/
class Construction (m : Type → Type) where
  /-- Fails at a node. -/
  failAt {α : Type} (info : Info) (fault : LowerFault) : m α
  /-- Goes one level deeper, unless the limit is reached. -/
  nested {α : Type} (env : Environment) (info : Info) (inner : m α) : m α
  /-- A temporary that has not been used. -/
  allocTemp : m Binding
  /-- Adds an instruction that does not end its block. -/
  emit (i : Instruction) (plain : i.isTerminator = false) : m Unit
  /-- Jumps once `before` has been done. -/
  jumpOut (info : Info) (kind : JumpKind) (before : m Unit) : m Unit
  /-- Two ways behind a test that meet again; `first` is taken where the test comes out `on`. -/
  twoWays (test : m Binding) (on : Bool) (first second : m Unit) : m Unit
  /-- A way that is taken where a binding is `on`, and a way past it. -/
  detour (condition : Binding) (on : Bool) (way : m Unit) : m Unit
  /-- A body that is taken where the condition comes out `on`, and what follows where it does
  not. -/
  conditional (on : Bool) (condition : m Binding) (body : m Unit) (rest : Alternative m) : m Unit
  /-- Clauses that are tried one after the other on a subject. -/
  select (subject : m Binding) (clauses : Binding → Clauses m) : m Unit
  /-- A loop that tests its condition first, and again behind its body. -/
  loop (sense : LoopSense) (condition : m Binding) (body : m Unit) : m Unit
  /-- Statements and a clause that runs however they end. -/
  guarded (body : m Unit) (ensure : Option (m Unit)) : m Unit
  /-- A call that passes a block literal. -/
  blockCall (params : List Parameter) (dest : Option Binding) (callee : Callee)
    (args : m Arguments) (body : m Binding) : m Unit

namespace Construction

variable {m : Type → Type} [Monad m] [Construction m]

/-! ## Instructions -/

/-- Copies a binding. -/
def copy (dest src : Binding) : m Unit := emit (.assign dest (.binding src)) rfl

/-- Loads a constant. -/
def loadConst (dest : Binding) (c : Constant) : m Unit := emit (.assign dest (.constant c)) rfl

/-- Loads a constant into a new temporary. -/
def constTemp (c : Constant) : m Binding := do
  let t ← allocTemp
  loadConst t c
  return t

/-- Calls a method. -/
def call (dest : Option Binding) (receiver : Binding) (method : String) (args : List Binding) :
    m Unit :=
  emit (.send dest (.method receiver method) (.positional args) .absent) rfl

/-- Calls a method with its result in a new temporary. -/
def callValue (receiver : Binding) (method : String) (args : List Binding) : m Binding := do
  let t ← allocTemp
  call (some t) receiver method args
  return t

/-- A copy of a binding in a new temporary. -/
def readVariable (b : Binding) : m Binding := do
  let t ← allocTemp
  copy t b
  return t

/-! ## What surrounds a node -/

/-- The receiver `self` of a node. -/
def selfBinding (info : Info) (tag : String) : m Binding :=
  match info.scope with
  | some scope => return scope.self
  | none => failAt info (.noScope tag)

/-- The receiver `self` of a node in a new temporary. -/
def selfTemp (info : Info) (tag : String) : m Binding := do
  readVariable (← selfBinding info tag)

/-- The variable of a node. -/
def resolved (info : Info) (tag : String) : m Binding :=
  match info.binding with
  | some b => return b
  | none => failAt info (.noBinding tag)

/-- A registered type. -/
def wellKnown (env : Environment) (info : Info) (name : String) : m Binding :=
  match env.types name with
  | some b => return b
  | none => failAt info (.unregistered name)

/-! ## Results

Many constructs take an optional binding for their result: with it, every way through the construct
assigns it before the ways meet again; without it, nothing is computed that only the result would
need. -/

/-- Fills the result with a value, or does something for its effects if there is no result. -/
def into (result : Option Binding) (value : m Binding) (effect : m Unit) : m Unit :=
  match result with
  | some dest => do
    let v ← value
    copy dest v
  | none => effect

/-- Fills the result, if there is one, with a binding. -/
def deliver (result : Option Binding) (v : Binding) : m Unit :=
  match result with
  | some dest => copy dest v
  | none => pure ()

/-- Fills the result, if there is one, with `nil`. -/
def deliverNil (result : Option Binding) : m Unit :=
  match result with
  | some dest => loadConst dest .nil
  | none => pure ()

/-- Nothing else is to be tried: the result, if there is one, is `nil`. -/
def nothingElse (result : Option Binding) : Alternative m :=
  match result with
  | some dest => .last (loadConst dest .nil)
  | none => .nothing

end Construction

end ControlFlow
