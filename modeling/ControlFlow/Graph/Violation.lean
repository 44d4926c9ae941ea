import ControlFlow.Graph.Reachable
/-!
# Verification of graphs

The rules that a finished graph keeps: every block but the exit ends in its only terminator, its
edges are the targets of that terminator, no edge enters the entry or leaves the exit, and the exit
can be reached. `verify` lists the rules that a graph breaks.
-/

namespace ControlFlow

/-- A rule that a graph breaks. -/
inductive Violation where
  | missingTerminator (block : BlockName)
  | misplacedTerminator (block : BlockName) (index : Nat)
  | edgeMismatch (block : BlockName) (expected actual : List BlockName)
  | unknownTarget (block target : BlockName)
  | enterHasPredecessors
  | exitHasSuccessors
  | exitUnreachable
deriving DecidableEq, Repr, Inhabited

namespace Violation

/-- Block names in brackets. -/
def renderNames (names : List BlockName) : String :=
  "[" ++ ", ".intercalate (names.map (·.detailed)) ++ "]"

/-- The text of a violation. -/
def render : Violation → String
  | missingTerminator block => s!"{block.render} does not end in a terminator"
  | misplacedTerminator block index =>
    s!"{block.render} has a terminator at position {index} that is not last"
  | edgeMismatch block expected actual =>
    s!"{block.render} edges {renderNames actual} do not match terminator targets " ++
      renderNames expected
  | unknownTarget block target => s!"{block.render} targets missing block {target.render}"
  | enterHasPredecessors => "Enter has incoming edges"
  | exitHasSuccessors => "Exit has outgoing edges"
  | exitUnreachable => "Exit is not reachable from Enter"

/-- The text of all violations of a graph. -/
def renderAll (vs : List Violation) : String :=
  if vs.isEmpty then "graph verified"
  else s!"{vs.length} violation(s):" ++ String.join (vs.map fun v => s!"\n  {v.render}")

end Violation

/-- How often names occur: one entry for each name that does. -/
abbrev Tally := List (BlockName × Nat)

namespace Tally

/-- The tally with one more occurrence of a name. -/
def add : Tally → BlockName → Tally
  | [], name => [(name, 1)]
  | (n, k) :: rest, name => if n = name then (n, k + 1) :: rest else (n, k) :: add rest name

/-- How often each of some names occurs. -/
def ofNames (names : List BlockName) : Tally := names.foldl add []

/-- Whether two tallies have equally many entries, and those of the first are in the second. -/
def agrees (t t' : Tally) : Bool :=
  t.length == t'.length && t.all fun (n, k) => t'.lookup n == some k

end Tally

namespace Graph

/-- The terminators of a block that are not its last instruction. -/
def misplaced (b : Block) : List Violation :=
  b.instructions.zipIdx.filterMap fun (i, index) =>
    if i.isTerminator ∧ index ≠ b.instructions.length - 1 then
      some (.misplacedTerminator b.name index)
    else none

/-- The rules that a block other than the exit breaks. -/
def blockViolations (g : Graph) (b : Block) : List Violation :=
  let actual := g.successors b.name
  let expected := (b.terminator?.map (·.targets)).getD []
  misplaced b ++
    (if b.terminator?.isNone then [.missingTerminator b.name] else []) ++
    (expected.filter (!g.contains ·)).map (.unknownTarget b.name ·) ++
    (if (Tally.ofNames expected).agrees (Tally.ofNames actual) then []
      else [.edgeMismatch b.name expected actual])

/-- The rules that the exit breaks as a block. -/
def exitViolations (g : Graph) : List Violation :=
  if (g.successors .exit).isEmpty then [] else [.exitHasSuccessors]

/-- The rules that a graph breaks, block by block and then as a whole. -/
def verify (g : Graph) : List Violation :=
  (g.blocks.flatMap fun b => if b.name = .exit then g.exitViolations else g.blockViolations b) ++
    (if (g.predecessors .enter).isEmpty then [] else [.enterHasPredecessors]) ++
    (if BlockName.exit ∈ g.reachable then [] else [.exitUnreachable])

end Graph

end ControlFlow
