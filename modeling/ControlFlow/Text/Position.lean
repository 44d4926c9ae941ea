/-!
# Places in a text

A *position* is a line and a column, both counted from one; a column is one character. A *location*
is a position in a named file, and a *span* runs from its first location up to, and not including,
its last one.
-/

namespace ControlFlow

/-- A line and a column, both counted from one. -/
structure Position where
  line : Nat
  column : Nat
deriving DecidableEq, Repr, Inhabited

namespace Position

/-- The first position of every text. -/
def origin : Position := ⟨1, 1⟩

/-- The position after one more character: a line feed opens the next line, anything else takes one
column. -/
def advance (p : Position) (c : Char) : Position :=
  if c = '\n' then ⟨p.line + 1, 1⟩ else ⟨p.line, p.column + 1⟩

/-- The order in which positions occur in a text: by line, then by column. -/
def Before (p q : Position) : Prop :=
  p.line < q.line ∨ (p.line = q.line ∧ p.column < q.column)

end Position

/-- A position in a named file. -/
structure Location where
  file : String
  line : Nat
  column : Nat
deriving DecidableEq, Repr, Inhabited

namespace Location

/-- The position `p` of the file `file`. -/
def ofPosition (file : String) (p : Position) : Location := ⟨file, p.line, p.column⟩

/-- The location without its file. -/
def position (l : Location) : Position := ⟨l.line, l.column⟩

/-- `file:line:column`. -/
def render (l : Location) : String := s!"{l.file}:{l.line}:{l.column}"

end Location

/-- The part of a file from `start` up to, and not including, `stop`. -/
structure Span where
  start : Location
  stop : Location
deriving DecidableEq, Repr, Inhabited

namespace Span

/-- The span of the file `file` between two positions. -/
def ofPositions (file : String) (p q : Position) : Span :=
  ⟨Location.ofPosition file p, Location.ofPosition file q⟩

/-- `file:line:column-column` for a span within one line, otherwise
`file:line:column - line:column`. -/
def render (s : Span) : String :=
  if s.start.line = s.stop.line then
    s!"{s.start.render}-{s.stop.column}"
  else
    s!"{s.start.render} - {s.stop.line}:{s.stop.column}"

end Span

end ControlFlow
