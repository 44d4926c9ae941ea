import ControlFlow.Event
import ControlFlow.Graph.Basic
/-!
# Building a graph

A builder holds the graph so far, the block that instructions go to, and counters for blocks and
temporaries. After a terminator there is no current block: the next instruction opens a fresh one,
so that code behind a jump ends up in a block of its own which nothing leads to.
-/

namespace ControlFlow

/-- A graph under construction. -/
structure Builder where
  graph : Graph := .empty
  /-- The block that instructions are added to. -/
  current : Option BlockName := some .enter
  /-- The number of the next block. -/
  nextBlock : Nat := 1
  /-- The number of the next temporary. -/
  nextTemp : Nat := 1
  /-- What has happened so far. -/
  journal : Array Event := #[]
deriving DecidableEq, Repr, Inhabited

namespace Builder

/-- The builder with one more event in its journal. -/
def note (b : Builder) (e : Event) : Builder := { b with journal := b.journal.push e }

/-- The number of temporaries handed out. -/
def tempCount (b : Builder) : Nat := b.nextTemp - 1

/-- A temporary that has not been used. -/
def allocTemp (b : Builder) : Binding × Builder :=
  (.temporary b.nextTemp, { b with nextTemp := b.nextTemp + 1 })

/-- A block name that has not been used. The block joins the graph when it is started or when
something leads to it. -/
def reserveBlock (b : Builder) : BlockName × Builder :=
  (.numbered b.nextBlock, { b with nextBlock := b.nextBlock + 1 })

/-- A new block of the graph. -/
def createBlock (b : Builder) : BlockName × Builder :=
  let (name, b) := b.reserveBlock
  (name, { b with graph := b.graph.addBlock name }.note (.blockCreated name))

/-- The current block, or a new one. -/
def openBlock (b : Builder) : BlockName × Builder :=
  match b.current with
  | some name => (name, b)
  | none =>
    let (name, b) := b.createBlock
    (name, { b with current := some name })

/-- The graph with edges from a block to each target, all of which become blocks. -/
def connect (name : BlockName) (targets : List BlockName) (g : Graph) : Graph :=
  targets.foldl (fun g target => (g.addBlock target).addEdge name target) g

/-- Adds an instruction to the current block, and the edges to where it leads. A terminator leaves
no current block. -/
def emit (b : Builder) (i : Instruction) : Builder :=
  let (name, b) := b.openBlock
  { b with
    graph := connect name i.targets (b.graph.push name i)
    current := if i.isTerminator then none else some name }

/-- Leaves the current block for another. -/
def jump (b : Builder) (target : BlockName) : Builder := b.emit (.jump target)

/-- Leaves the current block one of two ways. -/
def branch (b : Builder) (condition : Option Binding) (ifTrue ifFalse : BlockName) : Builder :=
  b.emit (.branch condition ifTrue ifFalse)

/-- Leaves the current block for `taken` where a binding is `on`, for `other` where it is not. -/
def branchOn (b : Builder) (c : Binding) (on : Bool) (taken other : BlockName) : Builder :=
  if on then b.branch (some c) taken other else b.branch (some c) other taken

/-- Makes a block the current one; an open block before it leads to it. -/
def startBlock (b : Builder) (name : BlockName) : Builder :=
  let b := if b.current.isSome then b.jump name else b
  { b with graph := b.graph.addBlock name, current := some name }

/-- Leaves the current block open and without an end. -/
def suspend (b : Builder) : Option BlockName × Builder := (b.current, { b with current := none })

/-- Goes on with a block that was left open. -/
def resume (b : Builder) (name : Option BlockName) : Builder := { b with current := name }

/-- Copies a binding. -/
def copy (b : Builder) (dest src : Binding) : Builder := b.emit (.assign dest (.binding src))

/-- Loads a constant. -/
def loadConst (b : Builder) (dest : Binding) (c : Constant) : Builder :=
  b.emit (.assign dest (.constant c))

/-- Loads a constant into a new temporary. -/
def constTemp (b : Builder) (c : Constant) : Binding × Builder :=
  let (t, b) := b.allocTemp
  (t, b.loadConst t c)

/-- Calls a method. -/
def call (b : Builder) (dest : Option Binding) (receiver : Binding) (method : String)
    (args : List Binding) (block : BlockOperand) : Builder :=
  b.emit (.send dest (.method receiver method) (.positional args) block)

/-- Calls a method with its result in a new temporary. -/
def callValue (b : Builder) (receiver : Binding) (method : String) (args : List Binding) :
    Binding × Builder :=
  let (t, b) := b.allocTemp
  (t, b.call (some t) receiver method args .absent)

/-- The end of one run of the body of a block literal. -/
def endRun (b : Builder) (v : Binding) (bodyBlock after : BlockName) : Builder :=
  (b.emit (.resume v)).branch none bodyBlock after

/-- The end of a run for a jump to the landing block, if something leads there. -/
def land (b : Builder) (landing bodyBlock after : BlockName) : Builder :=
  if b.graph.contains landing then
    let (v, b) := (b.startBlock landing).constTemp .nil
    b.endRun v bodyBlock after
  else b

end Builder

end ControlFlow
