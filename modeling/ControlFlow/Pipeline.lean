import ControlFlow.Lowering.Build
import ControlFlow.Reading.Source
/-!
# From text to graph
-/

namespace ControlFlow

/-- The graph of a text, and the journal of its reading and lowering. -/
def buildWithJournal (host : Host) (options : Options) (source : Source) :
    Except Diagnostic Graph × Array Event :=
  match Reading.run host options source with
  | (.error e, journal) => (.error e.diagnostic, journal)
  | (.ok root, journal) =>
    match Lowering.run host builtinTypes options root with
    | (.error e, journal') => (.error e.diagnostic, journal ++ journal')
    | (.ok g, journal') => (.ok g, journal ++ journal')

/-- The graph of a text. -/
def buildGraph (host : Host) (options : Options) (source : Source) : Except Diagnostic Graph :=
  (buildWithJournal host options source).1

end ControlFlow
