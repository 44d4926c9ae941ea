import ControlFlow.Text.Position
/-!
# Diagnostics

A diagnostic is what is told about a failure: the stage and class of the failure, a message, the
part of the program that raised it, and the place in the text if there is one. The four renderings
of a diagnostic are written here and nowhere else.
-/

namespace ControlFlow

/-- The stages of a build. -/
inductive Stage where
  /-- Loading a file. -/
  | source
  /-- Loading and checking the options. -/
  | config
  /-- From text to syntax tree. -/
  | read
  /-- From syntax tree to graph. -/
  | lower
deriving DecidableEq, Repr, Inhabited

/-- The name of a stage. -/
def Stage.name : Stage → String
  | .source => "source"
  | .config => "config"
  | .read => "read"
  | .lower => "lower"

/-- The classes of failures while reading. -/
inductive ReadClass where
  /-- There is nothing to read. -/
  | emptySource
  /-- The text is not a sequence of forms. -/
  | malformed
  /-- A form that no node is written as. -/
  | unknownForm
  /-- Lists nest deeper than the limit. -/
  | tooDeep
deriving DecidableEq, Repr, Inhabited

/-- The classes of failures while lowering. -/
inductive LowerClass where
  /-- A node where no walk accepts it. -/
  | unsupportedConstruct
  /-- A jump without a destination. -/
  | invalidJumpContext
  /-- A construct that has no lowering. -/
  | notYetImplemented
  /-- A node lacks its scope or its binding, or a type is not registered. -/
  | unannotated
  /-- Nesting deeper than the limit. -/
  | depthLimitExceeded
deriving DecidableEq, Repr, Inhabited

/-- The text of a class of lowering failures. -/
def LowerClass.render : LowerClass → String
  | .unsupportedConstruct => "unsupported construct"
  | .invalidJumpContext => "invalid jump context"
  | .notYetImplemented => "not yet implemented"
  | .unannotated => "missing annotation"
  | .depthLimitExceeded => "depth limit exceeded"

/-- The class of a failure within its stage. -/
inductive Category where
  | source
  | config
  | read (kind : ReadClass)
  | lower (kind : LowerClass)
deriving DecidableEq, Repr, Inhabited

namespace Category

/-- The stage of a failure. -/
def stage : Category → Stage
  | source => .source
  | config => .config
  | read _ => .read
  | lower _ => .lower

/-- The class of lowering failures that a failure counts as: the nesting limit of the reader counts
as the nesting limit of the lowering. -/
def lowerClass? : Category → Option LowerClass
  | lower k => some k
  | read .tooDeep => some .depthLimitExceeded
  | _ => none

end Category

/-- What is told about a failure. -/
structure Diagnostic where
  category : Category
  message : String
  /-- The dotted path of the part that raised the failure. -/
  issuer : String
  location : Option Location := none
  span : Option Span := none
deriving DecidableEq, Repr, Inhabited

namespace Diagnostic

/-- The location, or a text in its place. -/
def whereabouts (d : Diagnostic) : String :=
  match d.location with
  | some l => l.render
  | none => "unknown location"

/-- One line for a reader of the program text. -/
def render (d : Diagnostic) : String :=
  match d.location with
  | some l => s!"{d.category.stage.name} error at {l.render}: {d.message}"
  | none => s!"{d.category.stage.name} error: {d.message}"

/-- The stage of a failure and, in parentheses, its class. -/
def headline (d : Diagnostic) : String :=
  match d.category.lowerClass? with
  | some k => s!"{d.category.stage.name} error ({k.render})"
  | none => s!"{d.category.stage.name} error"

/-- One line with everything that is known. -/
def detailed (d : Diagnostic) : String :=
  let place := match d.span, d.location with
    | some s, _ => s!" at {s.render}"
    | none, some l => s!" at {l.render}"
    | none, none => ""
  s!"{d.headline}{place} [{d.issuer}]: {d.message}"

/-- One line of fields, divided by bars. -/
def report (d : Diagnostic) : String :=
  let kind := match d.category.lowerClass? with
    | some k => k.render
    | none => "-"
  s!"FLOWGRAPH | {d.category.stage.name} | {kind} | {d.whereabouts} | {d.message}"

/-- The headline with place and issuer, and the message on a line of its own. -/
def twoLines (d : Diagnostic) : String :=
  s!"{d.headline} {d.whereabouts} {d.issuer}\n  {d.message}"

/-- The message with the class of a lowering failure before it and the place behind it. -/
def summary (d : Diagnostic) : String :=
  let text := match d.category with
    | .lower k => s!"{k.render}: {d.message}"
    | _ => d.message
  match d.location with
  | some l => s!"{text} (at {l.render})"
  | none => text

end Diagnostic

end ControlFlow
