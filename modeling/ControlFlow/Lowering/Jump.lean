import ControlFlow.Graph.Instruction
/-!
# Destinations of jumps

The jumps of a program leave a loop or a block literal, go on with its next run, start the current
run again, or return from the method. Where each kind leads depends on the constructs around it.
-/

namespace ControlFlow

/-- The kinds of jumps. -/
inductive JumpKind where
  | break
  | next
  | redo
  | return
deriving DecidableEq, Repr, Inhabited

namespace JumpKind

/-- All kinds, in the order in which they are listed. -/
def all : List JumpKind := [.break, .next, .redo, .return]

/-- The keyword of a kind. -/
def keyword : JumpKind → String
  | .break => "break"
  | .next => "next"
  | .redo => "redo"
  | .return => "return"

end JumpKind

/-- Where the jumps of each kind lead. -/
structure JumpTargets where
  breakTo : Option BlockName := none
  nextTo : Option BlockName := none
  redoTo : Option BlockName := none
  returnTo : Option BlockName := none
deriving DecidableEq, Repr, Inhabited

namespace JumpTargets

/-- Where the jumps of a kind lead. -/
def get? (t : JumpTargets) : JumpKind → Option BlockName
  | .break => t.breakTo
  | .next => t.nextTo
  | .redo => t.redoTo
  | .return => t.returnTo

/-- The targets with the jumps of one kind leading to `name`. -/
def set (t : JumpTargets) (kind : JumpKind) (name : BlockName) : JumpTargets :=
  match kind with
  | .break => { t with breakTo := some name }
  | .next => { t with nextTo := some name }
  | .redo => { t with redoTo := some name }
  | .return => { t with returnTo := some name }

/-- The kinds of jumps that lead somewhere. -/
def active (t : JumpTargets) : List JumpKind := JumpKind.all.filter fun k => (t.get? k).isSome

/-- The targets `t`, with those of `overrides` in their place where it has some. -/
def overlay (t overrides : JumpTargets) : JumpTargets where
  breakTo := overrides.breakTo <|> t.breakTo
  nextTo := overrides.nextTo <|> t.nextTo
  redoTo := overrides.redoTo <|> t.redoTo
  returnTo := overrides.returnTo <|> t.returnTo

/-- The text of a target. -/
def renderTarget (name : Option BlockName) : String := (name.map (·.render)).getD "-"

/-- The text of the targets. -/
def render (t : JumpTargets) : String :=
  s!"break={renderTarget t.breakTo} next={renderTarget t.nextTo} " ++
    s!"redo={renderTarget t.redoTo} return={renderTarget t.returnTo}"

end JumpTargets

end ControlFlow
