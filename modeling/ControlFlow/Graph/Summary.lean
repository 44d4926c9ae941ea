import ControlFlow.Graph.Json
import ControlFlow.Graph.Reachable
/-!
# Summaries of graphs

One row for each block, as JSON or as a table drawn with lines.
-/

namespace ControlFlow

/-- What a summary tells about a block. -/
structure BlockRow where
  block : BlockName
  instructions : Nat
  predecessors : List BlockName
  successors : List BlockName
  reachable : Bool
deriving DecidableEq, Repr, Inhabited

namespace BlockRow

/-- A row in JSON. -/
def toJson (r : BlockRow) : Json :=
  .obj [("block", r.block.toJson), ("instructions", .integer r.instructions),
    ("predecessors", .arr (r.predecessors.map (·.toJson))),
    ("successors", .arr (r.successors.map (·.toJson))), ("reachable", .bool r.reachable)]

/-- The cells of a row of the table. -/
def cells (r : BlockRow) : List String :=
  [r.block.render, toString r.instructions, BlockName.renderAll r.predecessors,
    BlockName.renderAll r.successors, if r.reachable then "yes" else "no"]

end BlockRow

/-- The lines of a table: a rule has a left end, a line, a crossing and a right end. -/
structure Rule where
  left : String
  line : String
  cross : String
  right : String

namespace Table

/-- A text and blanks up to a width. -/
def pad (width : Nat) (s : String) : String :=
  s ++ String.ofList (List.replicate (width - s.length) ' ')

/-- A rule over columns of the given widths, each with a blank on both sides. -/
def drawRule (widths : List Nat) (r : Rule) : String :=
  r.left ++ r.cross.intercalate (widths.map fun w => String.join (List.replicate (w + 2) r.line)) ++
    r.right

/-- A row of cells. -/
def drawRow (widths : List Nat) (cells : List String) : String :=
  "│" ++ "┆".intercalate ((widths.zip cells).map fun (w, c) => s!" {pad w c} ") ++ "│"

/-- The width of every column: its longest cell. -/
def widths (header : List String) (rows : List (List String)) : List Nat :=
  rows.foldl (fun ws cells => (ws.zip cells).map fun (w, c) => max w c.length)
    (header.map String.length)

/-- The rule above the header. -/
def top : Rule := ⟨"┌", "─", "┬", "┐"⟩

/-- The rule below the header. -/
def underHeader : Rule := ⟨"╞", "═", "╪", "╡"⟩

/-- The rule between two rows. -/
def between : Rule := ⟨"├", "╌", "┼", "┤"⟩

/-- The rule below the last row. -/
def bottom : Rule := ⟨"└", "─", "┴", "┘"⟩

/-- A table with a header. -/
def draw (header : List String) (rows : List (List String)) : String :=
  let ws := widths header rows
  let body := (rows.map (drawRow ws)).intersperse (drawRule ws between)
  "\n".intercalate ([drawRule ws top, drawRow ws header, drawRule ws underHeader] ++ body ++
    [drawRule ws bottom])

end Table

namespace Graph

/-- The rows of a graph, block by block. -/
def rows (g : Graph) : List BlockRow :=
  let reachable := g.reachable
  g.blocks.map fun b =>
    { block := b.name
      instructions := b.instructions.length
      predecessors := g.predecessors b.name
      successors := g.successors b.name
      reachable := b.name ∈ reachable }

/-- The summary of a graph as a table. -/
def summary (g : Graph) : String :=
  Table.draw ["Block", "Instructions", "Predecessors", "Successors", "Reachable"]
    (g.rows.map (·.cells))

end Graph

/-- The ways in which a graph is written. -/
inductive Format where
  | text
  | json
  | summary
  | rows
deriving DecidableEq, Repr, Inhabited

/-- The format of a name. -/
def Format.ofName? : String → Option Format
  | "text" => some .text
  | "json" => some .json
  | "summary" => some .summary
  | "rows" => some .rows
  | _ => none

/-- A graph in a format. -/
def Graph.write (g : Graph) : Format → String
  | .text => g.render
  | .json => g.toJson.pretty
  | .summary => g.summary
  | .rows => (Json.arr (g.rows.map (·.toJson))).pretty

end ControlFlow
