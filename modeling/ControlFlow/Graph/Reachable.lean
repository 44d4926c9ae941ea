import ControlFlow.Graph.Basic
/-!
# Reachable blocks

The blocks that a path of edges leads to from the entry, breadth first.
-/

namespace ControlFlow.Graph

/-- The names of a list that are not in `seen`, each of them once. -/
def fresh (seen : List BlockName) : List BlockName → List BlockName
  | [] => []
  | n :: ns => if n ∈ seen then fresh seen ns else n :: fresh (n :: seen) ns

/-- Takes one block at a time from the queue, and puts those of its successors that are neither
visited nor queued at the end of the queue. At most `fuel` blocks are taken. -/
def visit (g : Graph) : Nat → List BlockName → List BlockName → List BlockName
  | 0, visited, _ => visited
  | _ + 1, visited, [] => visited
  | fuel + 1, visited, n :: queue =>
    let seen := visited ++ n :: queue
    visit g fuel (visited ++ [n]) (queue ++ fresh seen (g.successors n))

/-- The blocks that can be reached from the entry, breadth first. Apart from the entry each is the
target of an edge, which bounds their number. -/
def reachable (g : Graph) : List BlockName := visit g (g.edges.length + 1) [] [.enter]

/-- The blocks that can be reached from the entry, sorted by name. -/
def reachableSorted (g : Graph) : List BlockName :=
  g.reachable.mergeSort fun a b => a.rank ≤ b.rank

end ControlFlow.Graph
