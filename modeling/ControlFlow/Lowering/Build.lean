import ControlFlow.Lowering.Node
import ControlFlow.Lowering.Scheme
/-!
# From syntax tree to graph

The lowering of a whole tree: its value is returned, and the return leads to the exit.
-/

namespace ControlFlow

/-- The types that lowered code can use by name, as constants. -/
def builtinTypes (name : String) : Option Binding :=
  if name ∈ ["Object", "Array", "String", "Symbol", "Regexp", "Hash", "Integer", "Float", "Proc",
      "NilClass"] then
    some ⟨name, .constant⟩
  else none

namespace Lowering

/-- The task of lowering, as the journal names it. -/
def task : String := "flowgraph-lower"

/-- The state at the start of a tree: `return` leads to the exit. -/
def initial (options : Options) (root : Node) : WalkState where
  builder :=
    { journal := #[.running task options.stackSize, .building root.describe options.maxDepth] }
  targets := { returnTo := some .exit }

/-- Walks a whole tree and returns its value. -/
def wholeTree (env : Environment) (root : Node) : Walk Unit := do
  let v ← value env root
  WalkT.emit (.ret v)
  WalkT.jump .exit

/-- The outcome of a walk over a whole tree. -/
def outcome (types : String → Option Binding) (options : Options) (root : Node) :
    Except LowerError Unit × WalkState :=
  (wholeTree ⟨types, options.maxDepth⟩ root).run.run (initial options root)

/-- The graph at the end of a walk, and its journal. -/
def conclude : Except LowerError Unit × WalkState → Except LowerError Graph × Array Event
  | (.ok _, s) =>
    let g := s.builder.graph
    (.ok g, s.builder.journal.push (.built g.blocks.length g.edges.length s.builder.tempCount))
  | (.error e, s) => (.error e, s.builder.journal)

/-- The graph of a tree, and the journal of its lowering. -/
def run (host : Host) (types : String → Option Binding) (options : Options) (root : Node) :
    Except LowerError Graph × Array Event :=
  match options.refusal? host with
  | some reason =>
    (.error (.atNode root.info (.noStack options reason)), #[.running task options.stackSize])
  | none => conclude (outcome types options root)

/-- The graph of a tree. -/
def build (host : Host) (types : String → Option Binding) (options : Options) (root : Node) :
    Except LowerError Graph :=
  (run host types options root).1

end Lowering

end ControlFlow
