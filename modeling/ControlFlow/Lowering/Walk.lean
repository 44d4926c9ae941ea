import ControlFlow.Lowering.Construction
/-!
# Walks

A walk over a syntax tree changes a graph under construction and may end in an error. Its state
stays as it is when it ends in an error, so that what was done up to there can still be seen.
Besides the builder, the state holds the targets of jumps and the depth of the walk, both of which
`withTargets` and `nested` put back however the walk inside them ends.
-/

namespace ControlFlow

/-- The state of a walk. -/
structure WalkState where
  builder : Builder := {}
  /-- Where jumps lead at this point of the program. -/
  targets : JumpTargets := {}
  /-- The number of nodes around this point of the program. -/
  depth : Nat := 0
deriving DecidableEq, Repr, Inhabited

/-- A walk in a monad that can take note of what is done. -/
abbrev WalkT (m : Type → Type) := ExceptT LowerError (StateT WalkState m)

/-- A walk that nobody takes note of. -/
abbrev Walk := WalkT Id

namespace WalkT

variable {m : Type → Type} [Monad m] {α : Type}

/-- Fails at a node. -/
def failAt (info : Info) (fault : LowerFault) : WalkT m α := throw (.atNode info fault)

/-! ## The builder -/

/-- Changes the builder. -/
def build (f : Builder → Builder) : WalkT m Unit :=
  modify fun s => { s with builder := f s.builder }

/-- Takes something from the builder. -/
def take (f : Builder → α × Builder) : WalkT m α :=
  modifyGet fun s => let (a, b) := f s.builder; (a, { s with builder := b })

/-- Adds an event to the journal. -/
def note (e : Event) : WalkT m Unit := build (·.note e)

/-- A temporary that has not been used. -/
def allocTemp : WalkT m Binding := take (·.allocTemp)

/-- A block name that has not been used. -/
def reserveBlock : WalkT m BlockName := take (·.reserveBlock)

/-- A new block of the graph. -/
def createBlock : WalkT m BlockName := take (·.createBlock)

/-- Makes a block the current one. -/
def startBlock (name : BlockName) : WalkT m Unit := build (·.startBlock name)

/-- Leaves the current block open and without an end. -/
def suspend : WalkT m (Option BlockName) := take (·.suspend)

/-- Goes on with a block that was left open. -/
def resume (name : Option BlockName) : WalkT m Unit := build (·.resume name)

/-- Adds an instruction to the current block. -/
def emit (i : Instruction) : WalkT m Unit := build (·.emit i)

/-- Leaves the current block for another. -/
def jump (target : BlockName) : WalkT m Unit := build (·.jump target)

/-- Leaves the current block one of two ways. -/
def branch (condition : Option Binding) (ifTrue ifFalse : BlockName) : WalkT m Unit :=
  build (·.branch condition ifTrue ifFalse)

/-! ## What surrounds a node -/

/-- Walks one level deeper, unless the limit is reached. -/
def nested (env : Environment) (info : Info) (walk : WalkT m α) : WalkT m α := ExceptT.mk fun s => do
  if env.maxDepth ≤ s.depth then
    return (.error (.atNode info (.depth env.maxDepth)), s)
  else
    let (result, s') ← walk.run { s with depth := s.depth + 1 }
    return (result, { s' with depth := s'.depth - 1 })

/-- Walks with some targets in place of those around. -/
def withTargets (overrides : JumpTargets) (walk : WalkT m α) : WalkT m α := ExceptT.mk fun s => do
  let inner := s.targets.overlay overrides
  let (result, s') ← walk.run
    { s with targets := inner, builder := s.builder.note (.targetsNow inner) }
  return (result, { s' with
    targets := s.targets, builder := s'.builder.note (.targetsRestored s.targets) })

/-- Where the jumps of a kind lead. -/
def jumpTarget (info : Info) (kind : JumpKind) : WalkT m BlockName := do
  match (← get).targets.get? kind with
  | some name => return name
  | none => failAt info (.noTarget kind)

end WalkT

end ControlFlow
