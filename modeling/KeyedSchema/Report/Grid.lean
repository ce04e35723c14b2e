import KeyedSchema.Text.Blank
import KeyedSchema.Text.Width

/-!
# Grid — tables drawn with characters

A grid has a header and rows of cells. Each column is as wide as its widest line, with a blank on
both sides. A cell with line breaks takes several lines, and its row as many as the tallest cell.

```text
+---+------+
| # | Name |
+==========+
| 0 | id   |
|---+------|
| 1 | at   |
+---+------+
```
-/

namespace KeyedSchema

/-- A header and rows below it. Every row has as many cells as the header. -/
structure Grid where
  header : List String
  rows : List (List String)
  deriving DecidableEq, Repr

namespace Grid

/-- The lines of a cell, of which there is at least one. -/
def cellLines (cell : String) : List String :=
  (Text.splitOn '\n' cell.toList).map String.ofList

/-- The width of the widest line of a cell. -/
def cellWidth (cell : String) : Nat := ((cellLines cell).map Text.width).foldl max 0

/-- The widths of the columns. -/
def columnWidths (g : Grid) : List Nat :=
  g.rows.foldl (fun widths row => List.zipWith max widths (row.map cellWidth))
    (g.header.map cellWidth)

/-- A horizontal rule: its two ends, what it is drawn with, and what stands where it crosses the
border between two columns. -/
def rule (left right : String) (fill : Char) (crossing : String) (widths : List Nat) : String :=
  let segments := widths.map fun width => String.ofList (List.replicate (width + 2) fill)
  left ++ crossing.intercalate segments ++ right

/-- A line of a cell, filled up to the width of its column. -/
def pad (width : Nat) (line : String) : String :=
  line ++ String.ofList (List.replicate (width - Text.width line) ' ')

/-- The lines of a row. -/
def rowLines (widths : List Nat) (row : List String) : List String :=
  let cells := row.map cellLines
  let height := (cells.map List.length).foldl max 0
  (List.range height).map fun i =>
    let parts := List.zipWith (fun width lines => pad width (lines.getD i "")) widths cells
    "| " ++ " | ".intercalate parts ++ " |"

/-- The lines of a grid. -/
def lines (g : Grid) : List String :=
  let widths := g.columnWidths
  let border := rule "+" "+" '-' "+" widths
  let rows := (g.rows.map (rowLines widths)).intersperse [rule "|" "|" '-' "+" widths]
  border :: rowLines widths g.header ++ rule "+" "+" '=' "=" widths :: rows.flatten ++ [border]

def render (g : Grid) : String := "\n".intercalate g.lines

end Grid

end KeyedSchema
