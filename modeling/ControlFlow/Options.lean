import ControlFlow.Diagnostic
import ControlFlow.Json.Value
/-!
# Options of a build

The one option is the number of levels that lists and syntax trees may nest. Reading and lowering
each reserve a stack that grows with it. Whether they get one is up to the host.
-/

namespace ControlFlow

/-- What the host answers to a request for a stack of so many bytes: why it cannot be reserved, or
nothing if it can. -/
structure Host where
  refusal? : Nat → Option String

namespace Host

/-- A host on which every stack can be reserved. -/
def generous : Host := ⟨fun _ => none⟩

/-- A host on which stacks below a bound can be reserved. -/
def below (bound : Nat) (reason : String) : Host :=
  ⟨fun bytes => if bytes < bound then none else some reason⟩

end Host

/-- The options of a build. -/
structure Options where
  /-- The number of levels that lists and syntax trees may nest. -/
  maxDepth : Nat := 512
deriving DecidableEq, Repr, Inhabited

namespace Options

/-- The largest limit that passes validation. -/
def ceiling : Nat := 4096

/-- The largest machine word. -/
def largestWord : Nat := Nat.pow 2 64 - 1

/-- The bytes of stack for `depth` levels: one mebibyte and 64 kibibytes for each level, as far as
a machine word goes. -/
def stackSizeFor (depth : Nat) : Nat := min largestWord (Nat.pow 2 20 + depth * Nat.pow 2 16)

/-- The bytes of stack that reading and lowering reserve. -/
def stackSize (o : Options) : Nat := stackSizeFor o.maxDepth

/-- Why the stack cannot be reserved, if it cannot. -/
def refusal? (o : Options) (host : Host) : Option String := host.refusal? o.stackSize

/-- Whether the stack can be reserved. -/
def hasStack (o : Options) (host : Host) : Bool := (o.refusal? host).isNone

/-- What is told when the stack cannot be reserved. -/
def noStackMessage (o : Options) (reason : String) : String :=
  s!"cannot reserve {o.stackSize} bytes of stack for {o.maxDepth} levels of nesting: {reason}"

/-- What is told about a limit that does not pass validation. -/
def depthDiagnostic (o : Options) : Diagnostic where
  category := .config
  message := s!"max_depth must be between 1 and {ceiling}, got {o.maxDepth}"
  issuer := "flowgraph.config.validate"

/-- The options themselves, if their limit is between one and the ceiling. -/
def validate (o : Options) : Except Diagnostic Options :=
  if o.maxDepth = 0 ∨ ceiling < o.maxDepth then .error o.depthDiagnostic else .ok o

/-- The options in JSON. -/
def toJson (o : Options) : Json := .obj [("max_depth", .integer o.maxDepth)]

end Options

end ControlFlow
