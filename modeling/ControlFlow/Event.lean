import ControlFlow.Lowering.Jump
/-!
# The journal of a build

A build keeps a journal of what it does, one event after the other. Events of level `debug` mark the
stages, events of level `trace` the steps in between.
-/

namespace ControlFlow

/-- What a build records in its journal. -/
inductive Event where
  /-- A task starts with so many bytes of stack. -/
  | running (task : String) (bytes : Nat)
  | formsRead (count : Nat) (source : String)
  /-- The lowering of a tree starts. -/
  | building (root : String) (maxDepth : Nat)
  | blockCreated (name : BlockName)
  /-- A jump leads through a copy of an `ensure` clause. -/
  | redirected (kind : JumpKind) (landing : BlockName)
  | targetsNow (targets : JumpTargets)
  | targetsRestored (targets : JumpTargets)
  | built (blocks edges temporaries : Nat)
deriving DecidableEq, Repr, Inhabited

namespace Event

/-- The level of an event. -/
def level : Event → String
  | formsRead .. | building .. | built .. => "DEBUG"
  | _ => "TRACE"

/-- The text of an event. -/
def message : Event → String
  | running task bytes => s!"running {task} on a {bytes} byte stack"
  | formsRead count source => s!"read {count} top-level form(s) from {source}"
  | building root maxDepth => s!"building control-flow graph for {root} (max depth {maxDepth})"
  | blockCreated name => s!"created block {name.render}"
  | redirected kind landing =>
    s!"{kind.keyword} redirected through ensure landing {landing.render}"
  | targetsNow targets => s!"jump targets now {targets.render}"
  | targetsRestored targets => s!"jump targets restored to {targets.render}"
  | built blocks edges temporaries =>
    s!"built control-flow graph: {blocks} blocks, {edges} edges, {temporaries} temporaries"

/-- The text of an event behind its level. -/
def render (e : Event) : String := s!"{e.level} {e.message}"

end Event

end ControlFlow
