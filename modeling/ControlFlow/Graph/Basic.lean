import ControlFlow.Graph.Instruction
/-!
# Control-flow graphs

A graph is a list of blocks, in the order in which they were added, and a list of edges, in the
order in which they were added. An edge may name a block that the graph does not hold, and may
occur more than once. The blocks before and after a block are read off the edges.
-/

namespace ControlFlow

/-- A run of instructions with a name. -/
structure Block where
  name : BlockName
  instructions : List Instruction := []
deriving DecidableEq, Repr, Inhabited

namespace Block

/-- A block with one more instruction at its end. -/
def push (b : Block) (i : Instruction) : Block :=
  { b with instructions := b.instructions ++ [i] }

/-- The last instruction of a block, if it ends the block. -/
def terminator? (b : Block) : Option Instruction :=
  b.instructions.getLast?.filter (·.isTerminator)

end Block

/-- A step from one block to another. -/
structure Edge where
  source : BlockName
  target : BlockName
deriving DecidableEq, Repr, Inhabited

/-- A control-flow graph. -/
structure Graph where
  blocks : List Block
  edges : List Edge
deriving DecidableEq, Repr, Inhabited

namespace Graph

/-- The graph of the entry and the exit alone. -/
def empty : Graph := ⟨[⟨.enter, []⟩, ⟨.exit, []⟩], []⟩

/-- The names of the blocks of a graph. -/
def names (g : Graph) : List BlockName := g.blocks.map (·.name)

/-- Whether a graph holds a block of the given name. -/
def contains (g : Graph) (name : BlockName) : Bool := g.blocks.any (·.name = name)

/-- The block of the given name. -/
def block? (g : Graph) (name : BlockName) : Option Block := g.blocks.find? (·.name = name)

/-- Adds an empty block of the given name, unless the name is taken, and tells whether it was free. -/
def addVertex (g : Graph) (name : BlockName) : Bool × Graph :=
  if g.contains name then (false, g) else (true, { g with blocks := g.blocks ++ [⟨name, []⟩] })

/-- The graph with an empty block of the given name, unless the name is taken. -/
def addBlock (g : Graph) (name : BlockName) : Graph := (g.addVertex name).2

/-- The graph with one more edge. -/
def addEdge (g : Graph) (source target : BlockName) : Graph :=
  { g with edges := g.edges ++ [⟨source, target⟩] }

/-- The graph with one more instruction at the end of a block; nothing changes if there is no such
block. -/
def push (g : Graph) (name : BlockName) (i : Instruction) : Graph :=
  { g with blocks := g.blocks.map fun b => if b.name = name then b.push i else b }

/-- The blocks that the edges from a block lead to, in order. -/
def successors (g : Graph) (name : BlockName) : List BlockName :=
  (g.edges.filter (·.source = name)).map (·.target)

/-- The blocks that the edges to a block come from, in order. -/
def predecessors (g : Graph) (name : BlockName) : List BlockName :=
  (g.edges.filter (·.target = name)).map (·.source)

/-- The text of one block: its name, its instructions and where it leads. -/
def renderBlock (g : Graph) (b : Block) : String :=
  let next := g.successors b.name
  s!"{b.name.render}:\n" ++
    String.join (b.instructions.map fun i => s!"    {i.render}\n") ++
    (if next.isEmpty then "" else s!"    -> {BlockName.renderAll next}\n")

/-- The text of a graph. -/
def render (g : Graph) : String := String.join (g.blocks.map g.renderBlock)

end Graph

end ControlFlow
