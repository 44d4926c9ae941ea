import ControlFlow.Text.Blank
import ControlFlow.Text.Quoted
/-!
# Sources

A source is a text together with the name that locations in it are given by, and the path that it
was loaded from.
-/

namespace ControlFlow

/-- A text to be read. -/
structure Source where
  name : String
  path : Option String := none
  content : String
deriving DecidableEq, Repr, Inhabited

namespace Source

/-- The name of the file that a path leads to: its last component. Empty components and components
that stay in place do not count, and a path that ends by going up has no file name. -/
def fileName (path : String) : String :=
  let parts := (path.splitOn "/").filter fun p => p ≠ "" ∧ p ≠ "."
  match parts.getLast? with
  | none => ""
  | some ".." => ""
  | some name => name

/-- The source with the given contents, loaded from a path. -/
def ofPath (path content : String) : Source := ⟨fileName path, some path, content⟩

/-- Whether a source holds nothing but blank characters. -/
def isEmpty (s : Source) : Bool := Text.allBlank s.content

/-- The text of a source: its name and, in quotes, its path. -/
def render (s : Source) : String :=
  match s.path with
  | some p => s!"Source: {s.name} at {Text.quoted p}"
  | none => s!"Source: {s.name}"

end Source

end ControlFlow
