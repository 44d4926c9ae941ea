import ControlFlow.Command.Arguments
import ControlFlow.Files.Access
import ControlFlow.Graph.Summary
import ControlFlow.Graph.Violation
import ControlFlow.Pipeline
/-!
# The command line

What the program does for its arguments, given a host and access to files: it reads options and a
source, builds the graph, writes it to a file or to the standard output, and verifies it if that is
asked for.
-/

namespace ControlFlow.Command

/-- How a run of the program ends. -/
structure Outcome where
  status : Nat := 0
  output : String := ""
  errors : String := ""
deriving DecidableEq, Repr, Inhabited

namespace Outcome

/-- A run that prints one text. -/
def printing (text : String) : Outcome := { output := text ++ "\n" }

/-- A run that fails with a message. -/
def failing (message : String) : Outcome := { status := 1, errors := message ++ "\n" }

/-- A run whose arguments are refused. -/
def refused (e : UsageError) : Outcome := { status := 2, errors := s!"error: {e.message}\n" }

end Outcome

/-- The name and the version of the program. -/
def versionText : String := "flowgraph 0.1.0"

/-- The lines of the help. -/
def helpLines : List String :=
  ["Lower s-expression AST dumps to control-flow graphs",
    "",
    "Usage: flowgraph [COMMAND]",
    "",
    "Commands:",
    "  build  Build the control-flow graph of an AST dump",
    "  help   Print this message or the help of the given subcommand(s)",
    "",
    "Options:",
    "  -h, --help     Print help",
    "  -V, --version  Print version"]

/-- The lines of the help about `build`. -/
def buildHelpLines : List String :=
  ["Build the control-flow graph of an AST dump",
    "",
    "Usage: flowgraph build [OPTIONS] <file>",
    "",
    "Arguments:",
    "  <file>  The s-expression file to read",
    "",
    "Options:",
    "  -f, --format <FORMAT>  Output format: text, json, summary or rows [default: text]",
    "  -c, --config <FILE>    JSON file with build options",
    "      --max-depth <N>    Override the AST nesting limit",
    "      --verify           Check graph invariants after building",
    "  -o, --output <FILE>    Specify the output file",
    "  -h, --help             Print help"]

/-- The standard output for a graph. Formats for people start with the name of the source. -/
def printed (source : Source) (format : Format) (rendered : String) : String :=
  match format with
  | .text | .summary => s!"{source.name}\n{rendered}\n"
  | .json | .rows => s!"{rendered}\n"

/-- The end of a run after its graph has been written. -/
def verified (verify : Bool) (g : Graph) (output : String) : Outcome :=
  if verify then
    let violations := g.verify
    { status := if violations.isEmpty then 0 else 1
      output := output
      errors := Violation.renderAll violations ++ "\n" }
  else { output := output }

variable {m : Type → Type} [Monad m]

/-- The options that the arguments ask for. -/
def options (files : FileAccess m) (a : BuildArguments) : m (Except Diagnostic Options) := do
  let loaded ← match a.config with
    | some path => Options.load files path
    | none => pure (.ok {})
  return do
    let o ← loaded
    Options.validate ⟨a.maxDepth.getD o.maxDepth⟩

/-- The source and its graph. -/
def sourceAndGraph (host : Host) (files : FileAccess m) (file : String) (a : BuildArguments) :
    m (Except Diagnostic (Source × Graph)) := do
  match ← options files a with
  | .error d => return .error d
  | .ok o =>
    match ← Source.load files file with
    | .error d => return .error d
    | .ok source => return (buildGraph host o source).map fun g => (source, g)

/-- Builds a graph and writes it. -/
def build (host : Host) (files : FileAccess m) (file : String) (a : BuildArguments) : m Outcome := do
  let name := a.format.getD "text"
  match Format.ofName? name with
  | none => return .failing s!"Unknown output format: {name}"
  | some format =>
    match ← sourceAndGraph host files file a with
    | .error d => return .failing d.twoLines
    | .ok (source, g) =>
      let rendered := g.write format
      match a.output with
      | none => return verified a.verify g (printed source format rendered)
      | some path =>
        match ← files.write path rendered with
        | .ok _ => return verified a.verify g ""
        | .error cause => return .failing s!"Failed to write {path}: {cause.render}"

/-- Runs the program with its arguments. -/
def run (host : Host) (files : FileAccess m) (arguments : List String) : m Outcome :=
  match request arguments with
  | .error e => return .refused e
  | .ok (.build file a) => build host files file a
  | .ok .version => return .printing versionText
  | .ok .help => return .printing ("\n".intercalate helpLines)
  | .ok .buildHelp => return .printing ("\n".intercalate buildHelpLines)
  | .ok .none =>
    return .failing "No valid subcommand was used. Use --help for more information."

end ControlFlow.Command
