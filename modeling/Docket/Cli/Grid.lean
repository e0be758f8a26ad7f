import Docket.Text.Width

/-!
# Grids of text

A grid has a header and rows of cells, drawn with ASCII lines. Every column is as wide as its widest line, a
cell has a blank on either side, and a cell of several lines makes its row as high as it needs.

* `Grid.render`: the drawn grid.
-/

namespace Docket

/-- A header and rows of cells. -/
structure Grid where
  header : List String
  rows : List (List String)
deriving DecidableEq

namespace Grid

/-- A drawn piece of text, line by line. -/
abbrev Lines := List String

/-- The lines of a text. -/
def lines : List Char → List (List Char)
  | [] => [[]]
  | c :: rest =>
    if c = '\n' then [] :: lines rest
    else match lines rest with
      | line :: others => (c :: line) :: others
      | [] => [[c]]

/-- The lines of a cell. -/
def cellLines (cell : String) : Lines := (lines cell.toList).map String.ofList

/-- The width of a cell. -/
def cellWidth (cell : String) : Nat := ((cellLines cell).map Text.width).foldl max 0

/-- Column by column the larger of two numbers. -/
def widest : List Nat → List Nat → List Nat
  | m :: ms, n :: ns => max m n :: widest ms ns
  | [], ns => ns
  | ms, [] => ms

/-- The widths of the columns. -/
def widths (g : Grid) : List Nat :=
  (g.header :: g.rows).foldl (fun ws row => widest ws (row.map cellWidth)) []

/-- A character many times. -/
def repeated (n : Nat) (c : Char) : String := String.ofList (List.replicate n c)

/-- A line with room for a blank on either side of every column. -/
def rule (ends crossing : String) (stroke : Char) (ws : List Nat) : String :=
  ends ++ crossing.intercalate (ws.map fun w => repeated (w + 2) stroke) ++ ends

/-- A line of a cell, filled up to a width. -/
def pad (w : Nat) (line : String) : String := " " ++ line ++ repeated (w - Text.width line) ' ' ++ " "

/-- A row of cells. -/
def row (ws : List Nat) (cells : List String) : Lines :=
  let cells := cells.map cellLines
  let height := (cells.map List.length).foldl max 0
  (List.range height).map fun i =>
    "|" ++ "|".intercalate ((ws.zip cells).map fun c => pad c.1 (c.2.getD i "")) ++ "|"

/-- Rows with lines between them. -/
def body (ws : List Nat) : List (List String) → Lines
  | [] => []
  | [cells] => row ws cells
  | cells :: rest => row ws cells ++ rule "|" "+" '-' ws :: body ws rest

/-- The drawn grid. -/
def render (g : Grid) : String :=
  let ws := g.widths
  let edge := rule "+" "+" '-' ws
  "\n".intercalate
    (edge :: row ws g.header ++ rule "+" "=" '=' ws :: body ws g.rows ++ [edge])

end Grid

end Docket
