import ControlFlow.Syntax.Kind
import ControlFlow.Text.Position
/-!
# Syntax trees

A node is its kind together with what earlier passes found out about it: its place in the text, the
binding of a variable and the enclosing scope.
-/

namespace ControlFlow

/-- What is known about a node besides its kind. -/
structure Info where
  /-- The number of the node, in the order in which the nodes of a text were made. -/
  id : Nat := 0
  location : Option Location := none
  span : Option Span := none
  /-- The variable that the node reads or assigns. -/
  binding : Option Binding := none
  /-- The scope around the node. -/
  scope : Option Scope := none
deriving DecidableEq, Repr, Inhabited

/-- A node of the syntax tree. -/
inductive Node where
  | mk (info : Info) (kind : Kind Node)
deriving Inhabited

namespace Node

/-- What is known about a node. -/
def info : Node → Info
  | mk i _ => i

/-- What a node says. -/
def kind : Node → Kind Node
  | mk _ k => k

/-- The short name of the kind of a node. -/
def tag (n : Node) : String := n.kind.tag

/-- Whether a node is spliced into the list around it. -/
def isSplat : Node → Bool
  | mk _ (.splat _) => true
  | _ => false

/-- `(tag #id -> binding @ location)`, without the parts that are not known. -/
def describe (n : Node) : String :=
  let binding := match n.info.binding with
    | some b => s!" -> {b.render}"
    | none => ""
  let location := match n.info.location with
    | some l => s!" @ {l.render}"
    | none => ""
  s!"({n.tag} #{n.info.id}{binding}{location})"

end Node

end ControlFlow
